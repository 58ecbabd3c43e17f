import MessagesApp.Service.CacheAgreement
import MessagesApp.Service.Uncached

/-!
# The service with its cache, one request at a time

A hit takes what it is asked for from an entry that another list has filled, so it is cut short
where that list asked for less. Where all first pages of a thread are asked for with one limit,
as the pages of the web interface are, every entry that is read is long enough. One request at a
time, the service then answers what it would answer without its cache: its run is the requests
one after the other, in the order in which they came.

Two things are carried along a run. `Covers` is about the entries: one that a list of the thread
may read begins as the first page does, or is about to be deleted. `Serial` is about the requests:
all that came have run whole, as their statements alone (`api` of `Uncached`), but for one that may
still wait for them. A request whose statements are to come is `Open`, one whose statements have
run is `Settled`; a step of the first leaves everything as it is or is the whole request
(`open_step`), a step of the second changes nothing (`settled_step`).

A hit runs no statement. It is settled by the statement that it has saved: on the table as it is,
some order of the rows makes the database answer alike (`hit_alike`). That is where ties in
`created_at` are allowed for, which the other agreement of cache and database asks to be absent.

At rest nobody waits, and `Serial` is the replay. Redis does what it is told, but entries may
expire at any moment.
-/

set_option autoImplicit false

namespace MessagesApp.Handlers

open Py Lib Api Cache Controller

variable {E : Env} {s s' : State} {thread : UUID} {t t' : Table}

def arrivalOf : Event → Option (Nat × Request)
  | .arrive i r => some (i, r)
  | _ => none

/-- The requests in the order in which they came. -/
def arrivals (tr : List Step) : List (Nat × Request) :=
  (tr.map Transition.event).filterMap arrivalOf

/-- The first pages of a thread are asked for with its limit. Pages behind a cursor, and writes, are
free. -/
def OneLimit (limits : UUID → Nat) (x : Nat × Request) : Prop :=
  ∀ thread limit, x.2 = .list thread limit none → limit = limits thread

/-- The same answer, but for the writing of a cursor. -/
def Alike (a b : Reply) : Prop := a = b ∨ SameList a b

theorem Alike.page {a : Reply} {q : Page} (h : Alike a (.page q)) :
    ∃ p, a = .page p ∧ p.items = q.items := by
  rcases h with rfl | ⟨p, q', rfl, hq, hitems, -⟩
  · exact ⟨q, rfl, rfl⟩
  · cases hq
    exact ⟨p, rfl, hitems⟩

/-- Only pages are alike without being the same. -/
theorem Alike.eq {a b : Reply} (h : Alike a b) (hb : ∀ q, b ≠ .page q) : a = b := by
  rcases h with h | ⟨p, q, -, hq, -⟩
  · exact h
  · exact absurd hq (hb q)

/-- `order` is the run `tr` again, without the cache: the same table, the same requests in the order
in which they came, and answers that are alike. -/
structure Replays (E : Env) (o : Table) (tr : List Step) (s : State)
    (order : List (Service.Entry Request Input Reply)) : Prop where
  /-- One whole request after the other, its entries leave the table of the run. -/
  legal : Service.Sequential (api E) o order s.table
  /-- They are the requests in the order in which they came, -/
  calls : order.map (fun e => (e.id, e.call)) = arrivals tr
  /-- and every answer of the run is alike that of its entry. -/
  answered : ∀ i r reply, s.reqs i = some (r, .answered reply) →
    ∃ e ∈ order, e.id = i ∧ e.call = r ∧ Alike reply e.result

/-! ## Entries that are long enough -/

/-- The first `limit` of the data are the first page of the thread, in some order that the database
may choose. -/
def BeginsAs (E : Env) (t : Table) (thread : UUID) (limit : Nat) (data : List Value) : Prop :=
  ∃ l, Sql.DescOrder t thread l ∧ data.take limit = cachedRows E.cfg.lib (l.take limit)

/-- An entry that lists of the thread read has the whole first page, or is about to be deleted.
Where the limit is more than the cache takes, lists do not read it. -/
def Covers (E : Env) (limits : UUID → Nat) (s : State) (thread : UUID) : Prop :=
  (limits thread : Int) ≤ E.cfg.CACHE_MAX_ITEMS → ∀ data,
    readRecent (s.redis (keyRecent thread)) = some data →
      Pending s thread ∨ BeginsAs E s.table thread (limits thread) data

theorem BeginsAs.congr {limit : Nat} {data : List Value} (h : BeginsAs E t thread limit data)
    (hlive : t'.live thread = t.live thread) : BeginsAs E t' thread limit data := by
  obtain ⟨l, hl, hdata⟩ := h
  exact ⟨l, (Sql.descOrder_congr hlive).mpr hl, hdata⟩

/-- What a list of `limit` messages writes has them all, if the cache takes as many. -/
theorem beginsAs_recentOf {l : List Row} (hl : Sql.DescOrder t thread l) {limit : Nat}
    (hmax : (limit : Int) ≤ E.cfg.CACHE_MAX_ITEMS) {data : List Value}
    (hd : readRecent (some (recentOf E.cfg ((l.take limit).map toValue))) = some data) :
    BeginsAs E t thread limit data := by
  rw [recentOf_rows] at hd
  have hkept : (l.take limit).take (keptOf E.cfg (l.take limit).length) = l.take limit := by
    refine List.take_of_length_le ?_
    have hlen := List.length_take_le limit l
    unfold keptOf
    rw [if_pos (by omega)]
    omega
  rw [hkept] at hd
  cases hd
  refine ⟨l, hl, ?_⟩
  rw [cachedRows, ← List.map_take, List.take_take, Nat.min_self]

theorem covers_step (hen : E.cfg.enabled = true) {limits : UUID → Nat} {e : Event}
    (hdone : RedisDone e) (hA : Asserted s) (he : next E s e = some s')
    (h : Covers E limits s thread)
    (hfill : ∀ i limit cursor rows, s.reqs i = some (.list thread limit cursor, .cacheSet rows) →
      ∃ l, Sql.DescOrder s.table thread l ∧ rows = l.take (limits thread)) :
    Covers E limits s' thread := by
  intro hmax data hd
  by_cases hp : Pending s thread
  · rcases pending_step hen hdone he hp with hp' | hnone
    · exact Or.inl hp'
    · rw [hnone] at hd
      cases hd
  -- an entry was there, or is filled at this step
  have hentry : BeginsAs E s.table thread (limits thread) data := by
    cases hv : s'.redis (keyRecent thread) with
    | none =>
      rw [hv] at hd
      cases hd
    | some v =>
      rw [hv] at hd
      have hkept : s.redis (keyRecent thread) = some v →
          BeginsAs E s.table thread (limits thread) data := fun hold =>
        (h hmax data (by rw [hold, hd])).resolve_left hp
      rcases step_cases he with ⟨i, r, -, -, -, rfl⟩ |
        ⟨i, input, r, phase, t, redis, phase', rfl, hr, hres, rfl⟩ | ⟨key, -, rfl⟩
      · exact hkept hv
      · rcases hres.entry hv with hold | ⟨limit, cursor, rows, rfl, rfl, rfl⟩
        · exact hkept hold
        · obtain ⟨l, hl, rfl⟩ := hfill i limit cursor rows hr
          exact beginsAs_recentOf hl hmax hd
      · by_cases hk : keyRecent thread = key
        · subst hk
          simp at hv
        · simp only [Function.update_of_ne hk] at hv
          exact hkept hv
  rcases live_or_pending hen hA he thread with hlive | hp'
  · exact Or.inr (hentry.congr hlive)
  · exact Or.inl hp'

/-! ## The answer of a hit -/

theorem hit_alike {limit : Nat} {data : List Value} (hdata : BeginsAs E t thread limit data)
    (hvalid : validLimit limit) :
    ∃ l reply, (api E).step (.list thread limit none) .begin (.rows l) t = some (t, .answered reply) ∧
      Alike (Api.answer E.V (slice data limit) limit) reply := by
  obtain ⟨l, hl, htake⟩ := hdata
  refine ⟨l, .page (rowsPage .orjson (l.take limit) limit), ?_, Or.inr ?_⟩
  · simp only [api, listFirst_eq hl hvalid]
    rfl
  · rw [slice_nat, htake]
    have hpage : Api.answer E.V (cachedRows E.cfg.lib (l.take limit)) limit =
        .page (rowsPage E.cfg.lib (l.take limit) limit) := answer_json E.V E.cfg.lib _ limit
    rw [hpage]
    exact sameList_rowsPage E.cfg.lib _ limit

/-! ## Requests that have run, and the one that has not -/

/-- The statements of the request are still to run; `t` is what they will find. One that has found
an entry to answer with counts as open until it has. -/
inductive Open (E : Env) (t : Table) : Request → Phase → Prop
  | reading {thread : UUID} {limit : Nat} : (limit : Int) ≤ E.cfg.CACHE_MAX_ITEMS →
      Open E t (.list thread limit none) .cacheGet
  | touching {thread : UUID} {limit : Nat} {data : List Value} :
      BeginsAs E t thread limit data → Open E t (.list thread limit none) (.cacheTouch data)
  | selecting {thread : UUID} {limit : Nat} : Open E t (.list thread limit none) (.select none)
  | behind {thread : UUID} {limit : Nat} {cursor : String} {ts : ParsedDateTime} {mid : UUID} :
      requestCursor (some cursor) = .ok (some (ts, mid)) →
      Open E t (.list thread limit (some cursor)) (.select (some (ts, mid)))
  | statement {c : Call} {pc : Pc} : Open E t (.write c) (.statement pc)

/-- The statements of the request have run; the answer is given, or on its way. The last argument is
the answer that its statements alone have given. -/
inductive Settled (E : Env) (t : Table) : Request → Phase → Reply → Prop
  | storing {thread : UUID} {limit : Nat} {l : List Row} : Sql.DescOrder t thread l →
      Settled E t (.list thread limit none) (.cacheSet (l.take limit))
        (Api.answer E.V ((l.take limit).map toValue) limit)
  | publishing {c : Call} {row : Row} :
      Settled E t (.write c) (.publish row) (writeReply E.V c row)
  | deleting {c : Call} {row : Row} :
      Settled E t (.write c) (.cacheDelete row) (writeReply E.V c row)
  | answered {r : Request} {reply reply' : Reply} : Alike reply reply' →
      Settled E t r (.answered reply) reply'

theorem Open.not_settled {r : Request} {phase : Phase} {reply : Reply} (h : Open E t r phase) :
    ¬ Settled E t r phase reply := by
  intro hs
  cases hs with
  | storing => cases h
  | publishing => cases h
  | deleting => cases h
  | answered => cases h

theorem Open.running {r : Request} {phase : Phase} (h : Open E t r phase) (reply : Reply) :
    phase ≠ .answered reply := by
  rintro rfl
  cases h

theorem Settled.alike {r : Request} {reply reply' : Reply}
    (h : Settled E t r (.answered reply) reply') : Alike reply reply' := by
  cases h with
  | answered halike => exact halike

/-- An answer does not depend on the table any more. -/
theorem Settled.elsewhere {r : Request} {phase : Phase} {reply : Reply}
    (h : Settled E t r phase reply) (hans : ∃ reply', phase = .answered reply') :
    Settled E t' r phase reply := by
  obtain ⟨reply', rfl⟩ := hans
  cases h with
  | answered halike => exact .answered halike

theorem start_open (E : Env) (t : Table) (r : Request) :
    Open E t r (start E r) ∨ ∃ reply, start E r = .answered reply := by
  cases r with
  | write c => exact Or.inl .statement
  | list thread limit cursor =>
    cases cursor with
    | none =>
      simp only [start]
      split
      · rename_i h
        exact Or.inl (.reading h.1)
      · exact Or.inl .selecting
    | some cursor =>
      simp only [start]
      cases hreq : requestCursor (some cursor) with
      | error e => exact Or.inr ⟨_, rfl⟩
      | ok before =>
        cases before with
        | none =>
          rw [requestCursor_some] at hreq
          split at hreq <;> cases hreq
        | some b => exact Or.inl (.behind hreq)

/-- Behind its last statement a write is on its way to its answer. -/
theorem afterStatement_settled (hen : E.cfg.enabled = true) (c : Call) (res : Result) :
    Settled E t (.write c) (afterStatement E c (.answered res)) (replyOf E c res) := by
  cases res with
  | error e => exact .answered (Or.inl rfl)
  | ok row =>
    cases c with
    | createMessage => exact .publishing
    | updateMessage =>
      simp only [afterStatement, invalidate, hen, if_true]
      exact .deleting
    | deleteMessage =>
      simp only [afterStatement, invalidate, hen, if_true]
      exact .deleting

section Step

variable {redis redis' : Redis} {r : Request} {phase phase' : Phase} {input : Input}

/-- **A step of a request whose statements have not run** leaves it and the table as they are, or is
the whole request: then the request alone does what the step did. -/
theorem open_step (hen : E.cfg.enabled = true) (h : Open E t r phase) (hvalid : r.valid)
    (hdone : ∀ outcome, input = .redis outcome → outcome = .done)
    (hA : ∀ pc, phase = .statement pc → Relies r pc t)
    (hread : ∀ thread limit data, r = .list thread limit none →
      (limit : Int) ≤ E.cfg.CACHE_MAX_ITEMS → readRecent (redis (keyRecent thread)) = some data →
        BeginsAs E t thread limit data)
    (hres : resume E t redis r phase input = some (t', redis', phase')) :
    (t' = t ∧ Open E t r phase') ∨
      ∃ x reply, Service.Alone (api E) r x .begin t t' reply ∧ Settled E t' r phase' reply := by
  cases h with
  | @reading thread limit hmax =>
    cases input with
    | redis outcome =>
      cases hdone outcome rfl
      simp only [resume, Option.some.injEq, Prod.mk.injEq] at hres
      obtain ⟨rfl, -, rfl⟩ := hres
      cases hdata : readRecent (redis (keyRecent thread)) with
      | none =>
        have hmiss : afterGet E limit .done (redis (keyRecent thread)) = .select none := by
          unfold afterGet
          rw [hdata]
        rw [hmiss]
        exact Or.inl ⟨rfl, .selecting⟩
      | some data =>
        have hbegins := hread thread limit data rfl hmax hdata
        unfold afterGet
        rw [hdata]
        dsimp only
        split
        · exact Or.inl ⟨rfl, .touching hbegins⟩
        · obtain ⟨l, reply, hstep, halike⟩ := hit_alike hbegins hvalid
          exact Or.inr ⟨_, reply, .last hstep, .answered halike⟩
    | rows => cases hres
    | db => cases hres
    | published => cases hres
  | @touching thread limit data hbegins =>
    cases input with
    | redis outcome =>
      cases hdone outcome rfl
      simp only [resume, if_true, Option.some.injEq, Prod.mk.injEq] at hres
      obtain ⟨rfl, -, rfl⟩ := hres
      obtain ⟨l, reply, hstep, halike⟩ := hit_alike hbegins hvalid
      exact Or.inr ⟨_, reply, .last hstep, .answered halike⟩
    | rows => cases hres
    | db => cases hres
    | published => cases hres
  | @selecting thread limit =>
    cases resumed_of_resume hres with
    | @selected _ _ _ l rows hl hrows =>
      rw [listLimit_toString hvalid] at hrows
      subst hrows
      simp only [hen, if_true]
      refine Or.inr ⟨.rows l, _, .last ?_, .storing hl⟩
      simp only [api, listFirst_eq hl hvalid, answer_toValue]
      rfl
  | @behind thread limit cursor ts mid hreq =>
    cases input with
    | rows l =>
      have hbefore : (api E).step (.list thread limit (some cursor)) .begin (.rows l) t =
          some (t, .answered (listBefore E.V E.bindError t thread limit cursor)) := rfl
      unfold listBefore at hbefore
      rw [hreq] at hbefore
      obtain ⟨q, hq, heq⟩ := Option.map_eq_some_iff.mp hres
      cases heq
      simp only [afterSelect] at hq
      cases he : listMessagesBefore E.bindError t thread ts mid limit with
      | error e =>
        simp only [he] at hq hbefore
        cases hq
        exact Or.inr ⟨_, _, .last hbefore, .answered (Or.inl rfl)⟩
      | ok rows =>
        simp only [he] at hq hbefore
        cases hq
        exact Or.inr ⟨_, _, .last hbefore, .answered (Or.inl rfl)⟩
    | redis => cases hres
    | db => cases hres
    | published => cases hres
  | @statement c pc =>
    cases input with
    | db x =>
      obtain ⟨⟨t₁, g⟩, hst, heq⟩ := Option.map_eq_some_iff.mp hres
      cases heq
      have hstep : (api E).step (.write c) pc (.db x) t = some (t', progressOf E c g) := by
        simp only [api, hst]
        rfl
      cases g with
      | running pc' =>
        obtain ⟨rfl, -⟩ := (api_commitLast E).advance _ _ _ _ _ _ (hA pc rfl) hstep
        exact Or.inl ⟨rfl, .statement⟩
      | answered res =>
        exact Or.inr ⟨_, _, (api_commitLast E).commit _ _ _ _ _ _ (hA pc rfl) hstep,
          afterStatement_settled hen c res⟩
    | redis => cases hres
    | rows => cases hres
    | published => cases hres

/-- Behind its statements a request has its answer, and leaves the table alone: it publishes, fills
or deletes. -/
theorem settled_step (hen : E.cfg.enabled = true) {reply : Reply} (h : Settled E t r phase reply)
    (hres : resume E t redis r phase input = some (t', redis', phase')) :
    t' = t ∧ Settled E t r phase' reply := by
  cases h with
  | storing =>
    cases resumed_of_resume hres with
    | stored => exact ⟨rfl, .answered (Or.inl rfl)⟩
  | publishing =>
    cases resumed_of_resume hres with
    | published =>
      refine ⟨rfl, ?_⟩
      simp only [invalidate, hen, if_true]
      exact .deleting
  | deleting =>
    cases resumed_of_resume hres with
    | invalidated => exact ⟨rfl, .answered (Or.inl rfl)⟩
  | answered => exact absurd rfl ((resumed_of_resume hres).running _)

end Step

/-! ## The run -/

/-- What holds of the run besides: every request came, with its limit, entries are long enough, and
what holds one request at a time. -/
structure Kept (E : Env) (limits : UUID → Nat) (tr : List Step) (s : State) : Prop where
  present : ∀ i r phase, s.reqs i = some (r, phase) → (i, r) ∈ arrivals tr
  limited : ∀ x ∈ arrivals tr, OneLimit limits x
  covers : ∀ thread, Covers E limits s thread
  turn : ∀ thread, InTurn E s thread
  asserted : Asserted s

/-- All requests that came have run, in this order, but for one that may wait for its statements.
The invariant of the run. -/
structure Serial (E : Env) (limits : UUID → Nat) (o : Table) (tr : List Step) (s : State)
    (order : List (Service.Entry Request Input Reply)) (waiting : Option (Nat × Request)) : Prop where
  legal : Service.Sequential (api E) o order s.table
  calls : arrivals tr = order.map (fun e => (e.id, e.call)) ++ waiting.toList
  settled : ∀ e ∈ order, ∃ phase, s.reqs e.id = some (e.call, phase) ∧
    Settled E s.table e.call phase e.result
  opened : ∀ i r, waiting = some (i, r) → ∃ phase, s.reqs i = some (r, phase) ∧
    Open E s.table r phase
  kept : Kept E limits tr s

variable {limits : UUID → Nat} {o : Table} {tr : List Step}
  {order : List (Service.Entry Request Input Reply)} {waiting : Option (Nat × Request)}

theorem arrivals_snoc (tr : List Step) (t : Step) :
    arrivals (tr ++ [t]) = arrivals tr ++ arrivals [t] := by
  unfold arrivals
  rw [List.map_append, List.filterMap_append]

/-- A request has run, or is the one that waits. -/
theorem Serial.cases (h : Serial E limits o tr s order waiting) {i : Nat} {r : Request}
    {phase : Phase} (hi : s.reqs i = some (r, phase)) :
    (∃ reply, Settled E s.table r phase reply) ∨ waiting = some (i, r) ∧ Open E s.table r phase := by
  have hmem := h.kept.present i r phase hi
  rw [h.calls, List.mem_append] at hmem
  rcases hmem with hmem | hmem
  · obtain ⟨e, he, heq⟩ := List.mem_map.mp hmem
    obtain ⟨phase', hphase, hsettled⟩ := h.settled e he
    obtain ⟨hid, hcall⟩ := Prod.mk.inj heq
    rw [hid, hi, hcall] at hphase
    cases hphase
    exact Or.inl ⟨_, hcall ▸ hsettled⟩
  · have hwait := Option.mem_toList.mp hmem
    obtain ⟨phase', hphase, hopen⟩ := h.opened i r hwait
    rw [hi] at hphase
    cases hphase
    exact Or.inr ⟨hwait, hopen⟩

/-- The rows of a fill are the first page of the thread as it is. -/
theorem Serial.fills (h : Serial E limits o tr s order waiting) {i limit : Nat}
    {cursor : Option String} {rows : List Row}
    (hi : s.reqs i = some (.list thread limit cursor, .cacheSet rows)) :
    ∃ l, Sql.DescOrder s.table thread l ∧ rows = l.take (limits thread) := by
  rcases h.cases hi with ⟨reply, hsettled⟩ | ⟨-, hopen⟩
  · cases hsettled with
    | storing hl =>
      rw [← h.kept.limited _ (h.kept.present i _ _ hi) thread limit rfl]
      exact ⟨_, hl, rfl⟩
  · cases hopen

theorem Serial.kept_step (h : Serial E limits o tr s order waiting)
    (hen : E.cfg.enabled = true) {e : Event} (hdone : RedisDone e) (he : next E s e = some s')
    (hone : OneAtATime ⟨s, e, s'⟩) (hlimit : ∀ x ∈ arrivals [⟨s, e, s'⟩], OneLimit limits x) :
    Kept E limits (tr ++ [⟨s, e, s'⟩]) s' where
  present := by
    intro j r' phase' hj
    rw [arrivals_snoc, List.mem_append]
    rcases next_cases he with ⟨i, r, rfl, -, -, rfl⟩ |
      ⟨i, input, r, phase, t, redis, phase'', -, hr, -, rfl⟩ | ⟨key, -, rfl⟩
    · rcases update_cases hj with ⟨rfl, heq⟩ | ⟨-, hold⟩
      · cases heq
        exact Or.inr List.mem_cons_self
      · exact Or.inl (h.kept.present j r' phase' hold)
    · rcases update_cases hj with ⟨rfl, heq⟩ | ⟨-, hold⟩
      · cases heq
        exact Or.inl (h.kept.present j r' phase hr)
      · exact Or.inl (h.kept.present j r' phase' hold)
    · exact Or.inl (h.kept.present j r' phase' hj)
  limited := by
    intro x hx
    rw [arrivals_snoc, List.mem_append] at hx
    exact hx.elim (h.kept.limited x) (hlimit x)
  covers thread := covers_step hen hdone h.kept.asserted he (h.kept.covers thread)
    fun _ _ _ _ hi => h.fills hi
  turn thread := inTurn_step hen hdone h.kept.asserted (h.kept.turn thread) he hone
  asserted := asserted_step h.kept.asserted he

/-- A request that arrives finds every other answered. -/
theorem serial_arrive (h : Serial E limits o tr s order waiting) {i : Nat} {r : Request}
    (hi : s.reqs i = none) (hidle : Idle s)
    (hs' : s' = { s with reqs := Function.update s.reqs i (some (r, start E r)) })
    (hkept : Kept E limits (tr ++ [⟨s, .arrive i r, s'⟩]) s') :
    ∃ order' waiting', Serial E limits o (tr ++ [⟨s, .arrive i r, s'⟩]) s' order' waiting' := by
  have hnone : waiting = none := by
    cases hw : waiting with
    | none => rfl
    | some x =>
      obtain ⟨phase, hphase, hopen⟩ := h.opened x.1 x.2 hw
      obtain ⟨reply, hreply⟩ := hidle _ _ _ hphase
      exact absurd hreply (hopen.running reply)
  have hcalls : arrivals (tr ++ [⟨s, .arrive i r, s'⟩]) =
      order.map (fun e => (e.id, e.call)) ++ [(i, r)] := by
    rw [arrivals_snoc, h.calls, hnone, Option.toList_none, List.append_nil]
    rfl
  subst hs'
  have hsettled : ∀ e ∈ order, ∃ phase,
      Function.update s.reqs i (some (r, start E r)) e.id = some (e.call, phase) ∧
        Settled E s.table e.call phase e.result := by
    intro e he
    obtain ⟨phase, hphase, hset⟩ := h.settled e he
    have hid : e.id ≠ i := by
      rintro rfl
      rw [hi] at hphase
      cases hphase
    exact ⟨phase, by rw [Function.update_of_ne hid, hphase], hset⟩
  rcases start_open E s.table r with hopen | ⟨reply, hnow⟩
  · refine ⟨order, some (i, r), h.legal, hcalls, hsettled, ?_, hkept⟩
    intro j r' hj
    cases hj
    exact ⟨_, Function.update_self .., hopen⟩
  · -- a refused cursor is answered at once
    refine ⟨order ++ [⟨i, r, .published, reply⟩], none, ?_, ?_, ?_, fun j r' hj => (by cases hj), hkept⟩
    · exact h.legal.snoc (.last (start_answered hnow .published s.table))
    · rw [hcalls, List.map_append, Option.toList_none, List.append_nil]
      rfl
    · intro e he
      rcases List.mem_append.mp he with he | he
      · exact hsettled e he
      · rw [List.mem_singleton.mp he]
        exact ⟨_, Function.update_self .., hnow ▸ .answered (Or.inl rfl)⟩

/-- A step of a request that has run, -/
theorem serial_settled (h : Serial E limits o tr s order waiting) (hen : E.cfg.enabled = true)
    {i : Nat} {input : Input} {r : Request} {phase phase' : Phase} {redis : Redis} {reply : Reply}
    (hr : s.reqs i = some (r, phase)) (hset : Settled E s.table r phase reply)
    (hres : resume E s.table s.redis r phase input = some (t', redis, phase'))
    (hs' : s' = ⟨t', redis, Function.update s.reqs i (some (r, phase'))⟩)
    (hkept : Kept E limits (tr ++ [⟨s, .step i input, s'⟩]) s') :
    ∃ order' waiting', Serial E limits o (tr ++ [⟨s, .step i input, s'⟩]) s' order' waiting' := by
  obtain ⟨rfl, -⟩ := settled_step hen hset hres
  subst hs'
  refine ⟨order, waiting, h.legal, ?_, ?_, ?_, hkept⟩
  · rw [arrivals_snoc, h.calls]
    exact List.append_nil _
  · intro e he
    obtain ⟨phase'', hphase, hset'⟩ := h.settled e he
    by_cases hid : e.id = i
    · rw [hid, hr] at hphase
      cases hphase
      exact ⟨phase', by rw [hid]; exact Function.update_self .., (settled_step hen hset' hres).2⟩
    · exact ⟨phase'', by simp only [Function.update_of_ne hid, hphase], hset'⟩
  · intro j r' hj
    obtain ⟨phase'', hphase, hopen⟩ := h.opened j r' hj
    have hij : j ≠ i := by
      rintro rfl
      rw [hr] at hphase
      cases hphase
      exact hopen.not_settled hset
    exact ⟨phase'', by simp only [Function.update_of_ne hij, hphase], hopen⟩

/-- and of the one that waits. -/
theorem serial_open (h : Serial E limits o tr s order waiting) (hen : E.cfg.enabled = true)
    {i : Nat} {input : Input} {r : Request} {phase phase' : Phase} {redis : Redis}
    (hdone : RedisDone (.step i input)) (hr : s.reqs i = some (r, phase))
    (hwait : waiting = some (i, r)) (hopen : Open E s.table r phase)
    (hres : resume E s.table s.redis r phase input = some (t', redis, phase'))
    (hs' : s' = ⟨t', redis, Function.update s.reqs i (some (r, phase'))⟩)
    (hkept : Kept E limits (tr ++ [⟨s, .step i input, s'⟩]) s') :
    ∃ order' waiting', Serial E limits o (tr ++ [⟨s, .step i input, s'⟩]) s' order' waiting' := by
  have hread : ∀ thread limit data, r = .list thread limit none →
      (limit : Int) ≤ E.cfg.CACHE_MAX_ITEMS → readRecent (s.redis (keyRecent thread)) = some data →
        BeginsAs E s.table thread limit data := by
    intro thread limit data hlist hmax hdata
    subst hlist
    have hlimit := h.kept.limited _ (h.kept.present i _ _ hr) thread limit rfl
    subst hlimit
    exact (h.kept.covers thread hmax data hdata).resolve_left
      ((h.kept.turn thread).not_pending hr hopen.running)
  -- nobody else is in flight, so nobody else needs the table
  have hothers : ∀ e ∈ order, e.id ≠ i ∧ ∃ phase, s.reqs e.id = some (e.call, phase) ∧
      Settled E t' e.call phase e.result := by
    intro e he
    obtain ⟨phase'', hphase, hset⟩ := h.settled e he
    have hid : e.id ≠ i := by
      intro hid
      rw [hid, hr] at hphase
      cases hphase
      exact hopen.not_settled hset
    refine ⟨hid, phase'', hphase, hset.elsewhere ?_⟩
    by_contra hnot
    exact hid ((h.kept.turn r.thread).one _ _ _ _ _ _ hphase hr
      (fun reply hreply => hnot ⟨reply, hreply⟩) hopen.running)
  have hsettled : ∀ e ∈ order, ∃ phase, s'.reqs e.id = some (e.call, phase) ∧
      Settled E s'.table e.call phase e.result := by
    intro e he
    obtain ⟨hid, phase'', hphase, hset⟩ := hothers e he
    subst hs'
    exact ⟨phase'', by simp only [Function.update_of_ne hid, hphase], hset⟩
  have hself : s'.reqs i = some (r, phase') := by
    subst hs'
    exact Function.update_self ..
  have hcalls : arrivals (tr ++ [⟨s, .step i input, s'⟩]) =
      order.map (fun e => (e.id, e.call)) ++ [(i, r)] := by
    rw [arrivals_snoc, h.calls, hwait]
    exact List.append_nil _
  rcases open_step hen hopen ((h.kept.turn r.thread).valid i r phase hr) (fun outcome houtcome => by
      subst houtcome
      exact hdone) (fun pc hpc c hc => by
      subst hpc hc
      exact h.kept.asserted i c pc hr) hread hres with ⟨htable, hopen'⟩ | ⟨x, reply, halone, hset⟩
  · refine ⟨order, some (i, r), ?_, hcalls, hsettled, ?_, hkept⟩
    · subst hs' htable
      exact h.legal
    · intro j r' hj
      cases hj
      refine ⟨phase', hself, ?_⟩
      subst hs' htable
      exact hopen'
  · refine ⟨order ++ [⟨i, r, x, reply⟩], none, ?_, ?_, ?_, fun j r' hj => (by cases hj), hkept⟩
    · subst hs'
      exact h.legal.snoc halone
    · rw [hcalls, List.map_append, Option.toList_none, List.append_nil]
      rfl
    · intro e he
      rcases List.mem_append.mp he with he | he
      · exact hsettled e he
      · rw [List.mem_singleton.mp he]
        subst hs'
        exact ⟨phase', hself, hset⟩

/-- **A step keeps the run serial**: an arrival finds nobody waiting, and the step of a request is
that of one which has run or of the one that waits. -/
theorem serial_step (h : Serial E limits o tr s order waiting) (hen : E.cfg.enabled = true)
    {e : Event} (hdone : RedisDone e) (he : next E s e = some s') (hone : OneAtATime ⟨s, e, s'⟩)
    (hlimit : ∀ x ∈ arrivals [⟨s, e, s'⟩], OneLimit limits x) :
    ∃ order' waiting', Serial E limits o (tr ++ [⟨s, e, s'⟩]) s' order' waiting' := by
  have hkept := h.kept_step hen hdone he hone hlimit
  rcases next_cases he with ⟨i, r, rfl, hi, -, hs'⟩ |
    ⟨i, input, r, phase, t, redis, phase', rfl, hr, hres, hs'⟩ | ⟨key, rfl, hs'⟩
  · exact serial_arrive h hi (hone i r rfl) hs' hkept
  · rcases h.cases hr with ⟨reply, hset⟩ | ⟨hwait, hopen⟩
    · exact serial_settled h hen hr hset hres hs' hkept
    · exact serial_open h hen hdone hr hwait hopen hres hs' hkept
  · refine ⟨order, waiting, ?_, ?_, ?_, ?_, hkept⟩
    · rw [hs']
      exact h.legal
    · rw [arrivals_snoc, h.calls]
      exact List.append_nil _
    · rw [hs']
      exact h.settled
    · rw [hs']
      exact h.opened

theorem serial_of_run (hen : E.cfg.enabled = true) (h : Run (next E) (State.init o) tr s)
    (hdone : ∀ t ∈ tr, RedisDone t.event) (hone : ∀ t ∈ tr, OneAtATime t)
    (hlimit : ∀ x ∈ arrivals tr, OneLimit limits x) :
    ∃ order waiting, Serial E limits o tr s order waiting := by
  refine h.historyInv (C := fun t => RedisDone t.event ∧ OneAtATime t ∧
      ∀ x ∈ arrivals [t], OneLimit limits x)
    (I := fun tr s => ∃ order waiting, Serial E limits o tr s order waiting) ?_ ?_ ?_
  · have hturn : ∀ thread, InTurn E (State.init o) thread := fun thread =>
      inTurn_of_run hen .nil (by simp) (by simp) thread
    refine ⟨[], none, .nil, rfl, by simp, fun i r hi => (by cases hi), fun i r phase hi => ?_,
      fun x hx => ?_, fun thread _ data hd => ?_, hturn, fun i c pc hi => ?_⟩
    · cases hi
    · cases hx
    · cases hd
    · cases hi
  · intro tr m e s' hrun hm he hC
    obtain ⟨order, waiting, hserial⟩ := hm
    exact serial_step hserial hen hC.1 he hC.2.1 hC.2.2
  · intro t ht
    refine ⟨hdone t ht, hone t ht, fun x hx => hlimit x ?_⟩
    obtain ⟨a, b, rfl⟩ := List.append_of_mem ht
    unfold arrivals at hx ⊢
    rw [List.append_cons, List.map_append, List.map_append, List.filterMap_append,
      List.filterMap_append]
    exact List.mem_append_left _ (List.mem_append_right _ hx)

/-- At rest nobody waits. -/
theorem Serial.replays (h : Serial E limits o tr s order waiting) (hidle : Idle s) :
    Replays E o tr s order := by
  have hnone : waiting = none := by
    cases hw : waiting with
    | none => rfl
    | some x =>
      obtain ⟨phase, hphase, hopen⟩ := h.opened x.1 x.2 hw
      obtain ⟨reply, hreply⟩ := hidle _ _ _ hphase
      exact absurd hreply (hopen.running reply)
  have hcalls : order.map (fun e => (e.id, e.call)) = arrivals tr := by
    rw [h.calls, hnone, Option.toList_none, List.append_nil]
  refine ⟨h.legal, hcalls, fun i r reply hi => ?_⟩
  have hmem := h.kept.present i r _ hi
  rw [← hcalls] at hmem
  obtain ⟨e, he, heq⟩ := List.mem_map.mp hmem
  obtain ⟨rfl, rfl⟩ := Prod.mk.inj heq
  obtain ⟨phase, hphase, hset⟩ := h.settled e he
  rw [hi] at hphase
  cases hphase
  exact ⟨e, he, rfl, rfl, hset.alike⟩

/-- **One request at a time and with one limit for each thread, the service with its cache is the
service without it**: in every run that has come to rest, the requests in the order in which they
came, each run whole, leave the table and give the answers of the run. -/
theorem cached_replays (hen : E.cfg.enabled = true) (h : Run (next E) (State.init o) tr s)
    (hdone : ∀ t ∈ tr, RedisDone t.event) (hone : ∀ t ∈ tr, OneAtATime t)
    (hlimit : ∀ x ∈ arrivals tr, OneLimit limits x) (hidle : Idle s) :
    ∃ order, Replays E o tr s order := by
  obtain ⟨order, waiting, hserial⟩ := serial_of_run hen h hdone hone hlimit
  exact ⟨order, hserial.replays hidle⟩

/-- A list that fills the cache and a list that reads it, with one limit. -/
theorem cached_replays_hit : ∃ tr s order, tr.map Transition.event = fillThenHit 50 50 ∧
    Run (next sampleEnv) (State.init Sample.threeMessages) tr s ∧
    Replays sampleEnv Sample.threeMessages tr s order := by
  have hrun : ((exec (next sampleEnv) (State.init Sample.threeMessages) (fillThenHit 50 50)).map
      fun s => (isAnswered (s.reqs 0), isAnswered (s.reqs 1))) = some (true, true) := by
    decide +kernel
  have hidle : (trace (next sampleEnv) (State.init Sample.threeMessages) (fillThenHit 50 50)).all
      arrivesIdle = true := by
    decide +kernel
  obtain ⟨s, hs, hend⟩ := Option.map_eq_some_iff.mp hrun
  obtain ⟨h₀, h₁⟩ := Prod.mk.inj hend
  obtain ⟨htr, h⟩ := Run.of_exec hs
  have htwo : ∀ e ∈ (trace (next sampleEnv) (State.init Sample.threeMessages)
      (fillThenHit 50 50)).map Transition.event, ofTwo e = true := by
    rw [htr]
    decide
  have hdone : ∀ t ∈ trace (next sampleEnv) (State.init Sample.threeMessages) (fillThenHit 50 50),
      RedisDone t.event := fun t ht => by
    have hall : ∀ e ∈ fillThenHit 50 50, RedisDone e := by decide
    exact hall t.event (htr ▸ List.mem_map_of_mem ht)
  have hlimit : ∀ x ∈ arrivals (trace (next sampleEnv) (State.init Sample.threeMessages)
      (fillThenHit 50 50)), OneLimit (fun _ => 50) x := by
    intro x hx thread limit hlist
    unfold arrivals at hx
    rw [htr] at hx
    simp only [fillThenHit, arrivalOf, List.filterMap_cons, List.filterMap_nil, List.mem_cons,
      List.not_mem_nil, or_false] at hx
    rcases hx with rfl | rfl
    · cases hlist
      rfl
    · cases hlist
      rfl
  obtain ⟨order, horder⟩ := cached_replays rfl h hdone
    (oneAtATime_of_run h htwo fun t ht => List.all_eq_true.mp hidle t ht) hlimit
    (idle_of_run h htwo h₀ h₁)
  exact ⟨_, s, order, htr, h, horder⟩

end MessagesApp.Handlers
