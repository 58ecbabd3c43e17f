import MessagesApp.Service.Coherence

/-!
# A page from the cache against a page from the database

One request at a time, the entry is always the beginning of the thread as it is. How long a
beginning depends on the list that filled it: on its limit and on `CACHE_MAX_ITEMS`. A hit takes
the first `limit` messages of the entry and knows nothing of those behind it (`API.py` 198–205), so
it gives the database's page where the entry has `limit` messages or all there are, and a page cut
short everywhere else: fewer items, and `has_more` false where there are more.

`InTurn` is what a run of one request at a time keeps: one request is running, and what it holds,
as well as what is cached, is fresh. A write is pending only while it runs, so a list never meets a
pending deletion (`InTurn.not_pending`), which is where `Coherence` is used without its condition
on fills.

`hit_agrees_iff` compares a hit with the answer of the database in every order it may choose; the
cursor is compared by what it decodes to, since under `json` a cached one is written otherwise.
`hit_length` says where the length of the entry comes from, by an invariant of its own (`Sized`):
what a list of the run asked for, or all there were, cut to what the cache keeps.

Where two requests overlap, an entry may be old besides, and a hit is then a page of another moment
(`Snapshots`).
-/

set_option autoImplicit false

namespace MessagesApp.Handlers

open Py Lib Api Cache Controller

variable {E : Env} {s s' : State} {thread : UUID}

/-- A request arrives only when every other has been answered. A condition on the arrivals of a run,
and so on the clients. -/
def OneAtATime (t : Step) : Prop := ∀ i r, t.event = .arrive i r → Idle t.pre

/-- A list as it was read from the cache, of rows that are the beginning of the thread. -/
def FreshData (E : Env) (t : Table) (thread : UUID) (data : List Value) : Prop :=
  ∃ rows, FreshRows t thread rows ∧ data = cachedRows E.cfg.lib rows

/-- With one request at a time: what it holds is as the table is now. At most one request is
running, and the entry is coherent or about to be deleted by it. -/
structure InTurn (E : Env) (s : State) (thread : UUID) : Prop where
  one : ∀ i j r r' phase phase', s.reqs i = some (r, phase) → s.reqs j = some (r', phase') →
    (∀ reply, phase ≠ .answered reply) → (∀ reply, phase' ≠ .answered reply) → i = j
  valid : ∀ i r phase, s.reqs i = some (r, phase) → r.valid
  fills : ∀ i limit cursor rows, s.reqs i = some (.list thread limit cursor, .cacheSet rows) →
    FreshRows s.table thread rows
  touches : ∀ i limit cursor data, s.reqs i = some (.list thread limit cursor, .cacheTouch data) →
    FreshData E s.table thread data
  coherent : CoherentOrPending E s thread

/-- While a request on the thread runs that is no write, no deletion is to come. -/
theorem InTurn.not_pending (h : InTurn E s thread) {i : Nat} {limit : Nat} {cursor : Option String}
    {phase : Phase} (hi : s.reqs i = some (.list thread limit cursor, phase))
    (hrun : ∀ reply, phase ≠ .answered reply) : ¬ Pending s thread := by
  intro hp
  obtain ⟨j, c, row, -, hj | hj⟩ := hp
  · have hij := h.one i j _ _ _ _ hi hj hrun (fun _ => by simp)
    rw [hij, hj] at hi
    cases hi
  · have hij := h.one i j _ _ _ _ hi hj hrun (fun _ => by simp)
    rw [hij, hj] at hi
    cases hi

/-- What a list reads from Redis is fresh. -/
theorem InTurn.reads (h : InTurn E s thread) {i : Nat} {limit : Nat} {cursor : Option String}
    (hi : s.reqs i = some (.list thread limit cursor, .cacheGet)) {data : List Value}
    (hd : readRecent (s.redis (keyRecent thread)) = some data) : FreshData E s.table thread data := by
  cases hv : s.redis (keyRecent thread) with
  | none =>
    rw [hv] at hd
    cases hd
  | some v =>
    obtain ⟨rows, hrows, rfl⟩ :=
      (h.coherent v hv).resolve_left (h.not_pending hi (fun _ => by simp))
    rw [hv] at hd
    cases hd
    exact ⟨rows, hrows, rfl⟩

theorem inTurn_step (hen : E.cfg.enabled = true) {e : Event} (hdone : RedisDone e)
    (hA : Asserted s) (h : InTurn E s thread) (he : next E s e = some s')
    (hone : OneAtATime ⟨s, e, s'⟩) : InTurn E s' thread := by
  have hco : CoherentOrPending E s' thread := by
    refine coherent_step hen hdone hA he h.coherent fun i outcome limit cursor rows _ hi => ?_
    exact Or.inr (h.fills i limit cursor rows hi)
  rcases step_cases he with ⟨i, r, rfl, -, hvalid, rfl⟩ |
    ⟨i, input, r, phase, t, redis, phase', rfl, hr, hres, rfl⟩ | ⟨key, -, rfl⟩
  · -- nobody else is in flight
    have hidle : Idle s := hone i r rfl
    have hnew : ∀ j r' phase', Function.update s.reqs i (some (r, start E r)) j = some (r', phase') →
        (∀ reply, phase' ≠ .answered reply) → j = i ∧ r' = r ∧ phase' = start E r := by
      intro j r' phase' hj hrun
      rcases update_cases hj with ⟨hij, heq⟩ | ⟨-, hold⟩
      · exact ⟨hij, (Prod.mk.inj heq).1.symm, (Prod.mk.inj heq).2.symm⟩
      · obtain ⟨reply, hreply⟩ := hidle j r' phase' hold
        exact absurd hreply (hrun reply)
    refine ⟨?_, ?_, ?_, ?_, hco⟩
    · intro j k r₁ r₂ p₁ p₂ hj hk h₁ h₂
      rw [(hnew j r₁ p₁ hj h₁).1, (hnew k r₂ p₂ hk h₂).1]
    · intro j r' phase' hj
      rcases update_cases hj with ⟨-, heq⟩ | ⟨-, hold⟩
      · cases heq
        exact hvalid
      · exact h.valid j r' phase' hold
    · intro j limit cursor rows hj
      exact absurd (hnew j _ _ hj (fun _ => by simp)).2.2.symm start_cacheSet
    · intro j limit cursor data hj
      exact absurd (hnew j _ _ hj (fun _ => by simp)).2.2.symm start_cacheTouch
  · -- the request that makes the step is the one in flight
    have hmine : ∀ j r' phase'', Function.update s.reqs i (some (r, phase')) j = some (r', phase'') →
        (∀ reply, phase'' ≠ .answered reply) → j = i ∧ r' = r ∧ phase'' = phase' := by
      intro j r' phase'' hj hrun
      rcases update_cases hj with ⟨hij, heq⟩ | ⟨hij, hold⟩
      · exact ⟨hij, (Prod.mk.inj heq).1.symm, (Prod.mk.inj heq).2.symm⟩
      · exact absurd (h.one j i _ _ _ _ hold hr hrun hres.running) hij
    refine ⟨?_, ?_, ?_, ?_, hco⟩
    · intro j k r₁ r₂ p₁ p₂ hj hk h₁ h₂
      rw [(hmine j r₁ p₁ hj h₁).1, (hmine k r₂ p₂ hk h₂).1]
    · intro j r' phase'' hj
      rcases update_cases hj with ⟨rfl, heq⟩ | ⟨-, hold⟩
      · cases heq
        exact h.valid j r phase hr
      · exact h.valid j r' phase'' hold
    · intro j limit cursor rows hj
      obtain ⟨-, rfl, rfl⟩ := hmine j _ _ hj (fun _ => by simp)
      obtain ⟨_, _, _, l, heq, -, -, rfl, hl, hrows⟩ := hres.cacheSet
      cases heq
      exact ⟨l, _, hl, hrows⟩
    · intro j limit cursor data hj
      obtain ⟨-, rfl, rfl⟩ := hmine j _ _ hj (fun _ => by simp)
      obtain ⟨_, _, _, heq, rfl, rfl, hread⟩ := hres.cacheTouch
      cases heq
      exact h.reads hr hread
  · exact ⟨h.one, h.valid, h.fills, h.touches, hco⟩

/-- **One request at a time, nothing is out of date**, in any state of the run and for any
thread. -/
theorem inTurn_of_run (hen : E.cfg.enabled = true) {o : Table} {tr : List Step}
    (h : Run (next E) (State.init o) tr s) (hdone : ∀ t ∈ tr, RedisDone t.event)
    (hone : ∀ t ∈ tr, OneAtATime t) (thread : UUID) : InTurn E s thread := by
  refine h.historyInv (C := fun t => RedisDone t.event ∧ OneAtATime t)
    (I := fun _ s => InTurn E s thread) ?_ ?_ fun t ht => ⟨hdone t ht, hone t ht⟩
  · refine ⟨fun _ _ _ _ _ _ hi => ?_, fun _ _ _ hi => ?_, fun _ _ _ _ hi => ?_,
      fun _ _ _ _ hi => ?_, fun _ hv => ?_⟩
    · cases hi
    · cases hi
    · cases hi
    · cases hi
    · cases hv
  · intro tr m e s' hrun hm he hC
    exact inTurn_step hen hC.1 (asserted_of_run hrun) hm he hC.2

/-! ## How long an entry is -/

/-- The live rows of a thread change at a write that has the deletion of its entry to come. -/
theorem live_or_pending (hen : E.cfg.enabled = true) (hA : Asserted s) {e : Event}
    (he : next E s e = some s') (thread : UUID) :
    s'.table.live thread = s.table.live thread ∨ Pending s' thread := by
  rcases step_cases he with ⟨i, r, -, -, -, rfl⟩ |
    ⟨i, input, r, phase, t, redis, phase', rfl, hr, hres, rfl⟩ | ⟨key, -, rfl⟩
  · exact Or.inl rfl
  · cases hres with
    | @ran c pc x t' g hdid =>
      rcases live_changed hdid (hA i c pc hr) thread with hlive | ⟨ht, row, rfl⟩
      · exact Or.inl hlive
      · refine Or.inr ⟨i, c, row, ht, ?_⟩
        cases c with
        | createMessage => exact Or.inl (Function.update_self ..)
        | updateMessage => exact Or.inr (by simp [afterStatement, invalidate, hen])
        | deleteMessage => exact Or.inr (by simp [afterStatement, invalidate, hen])
    | got => exact Or.inl rfl
    | touched => exact Or.inl rfl
    | selected => exact Or.inl rfl
    | selectedBefore => exact Or.inl rfl
    | stored => exact Or.inl rfl
    | published => exact Or.inl rfl
    | invalidated => exact Or.inl rfl
  · exact Or.inl rfl

/-- At `t` the request `i` writes what a list of `limit` messages found. The limit is the one that
decides the length of the entry. -/
def FillsWith (t : Step) (thread : UUID) (i limit : Nat) : Prop :=
  ∃ outcome cursor rows, t.event = .step i (.redis outcome) ∧
    t.pre.reqs i = some (.list thread limit cursor, .cacheSet rows)

/-- How many of `n` messages `set_recent_messages` keeps. -/
def keptSize (cfg : Settings) (n : Nat) : Nat := min (keptOf cfg n) n

theorem keptSize_of_nonneg {cfg : Settings} (h : 0 ≤ cfg.CACHE_MAX_ITEMS) (n : Nat) :
    keptSize cfg n = min cfg.CACHE_MAX_ITEMS.toNat n := by
  rw [keptSize, keptOf, if_pos h]

/-- The data are as many messages as a list of the run wrote: of those it asked for, or of all
there are where these are fewer, what the cache keeps. -/
def FilledBy (E : Env) (tr : List Step) (t : Table) (thread : UUID) (data : List Value) : Prop :=
  ∃ t₀ ∈ tr, ∃ j limit, FillsWith t₀ thread j limit ∧
    data.length = keptSize E.cfg (min limit (t.live thread).length)

theorem FilledBy.later {tr : List Step} {t t' : Table} {data : List Value}
    (h : FilledBy E tr t thread data) (hlive : t'.live thread = t.live thread) (t₁ : Step) :
    FilledBy E (tr ++ [t₁]) t' thread data := by
  obtain ⟨t₀, ht₀, j, limit, hfill, hlen⟩ := h
  exact ⟨t₀, List.mem_append_left _ ht₀, j, limit, hfill, hlive ▸ hlen⟩

/-- What is written, what is cached and what is in hand, by its length. The history has the fill
that an entry comes from. -/
structure Sized (E : Env) (tr : List Step) (s : State) (thread : UUID) : Prop where
  selected : ∀ i limit cursor rows, s.reqs i = some (.list thread limit cursor, .cacheSet rows) →
    rows.length = min limit (s.table.live thread).length
  entry : ∀ data, readRecent (s.redis (keyRecent thread)) = some data →
    Pending s thread ∨ FilledBy E tr s.table thread data
  read : ∀ i limit cursor data, s.reqs i = some (.list thread limit cursor, .cacheTouch data) →
    FilledBy E tr s.table thread data

theorem length_of_recentOf {cfg : Settings} {rows : List Row} {data : List Value}
    (h : readRecent (some (recentOf cfg (rows.map toValue))) = some data) :
    data.length = keptSize cfg rows.length := by
  rw [recentOf_rows] at h
  cases h
  rw [cachedRows, List.length_map, List.length_take, keptSize]

/-- What Redis holds for the thread behind a step was there before, or the step has written it. -/
theorem entry_step {e : Event} (he : next E s e = some s') {data : List Value}
    (hd : readRecent (s'.redis (keyRecent thread)) = some data) :
    readRecent (s.redis (keyRecent thread)) = some data ∨
      ∃ i limit cursor rows outcome, e = .step i (.redis outcome) ∧
        s.reqs i = some (.list thread limit cursor, .cacheSet rows) ∧
        readRecent (some (recentOf E.cfg (rows.map toValue))) = some data := by
  rcases step_cases he with ⟨i, r, -, -, -, rfl⟩ |
    ⟨i, input, r, phase, t, redis, phase', rfl, hr, hres, rfl⟩ | ⟨key, -, rfl⟩
  · exact Or.inl hd
  · cases hres with
    | @stored thread' limit cursor rows outcome =>
      simp only at hd
      split at hd
      · by_cases hkey : keyRecent thread = keyRecent thread'
        · obtain rfl := keyRecent_injective hkey
          rw [Function.update_self] at hd
          exact Or.inr ⟨i, limit, cursor, rows, outcome, rfl, hr, hd⟩
        · rw [Function.update_of_ne hkey] at hd
          exact Or.inl hd
      · exact Or.inl hd
    | @invalidated c row outcome =>
      simp only at hd
      split at hd
      · by_cases hkey : keyRecent thread = keyRecent c.thread
        · rw [hkey, Function.update_self] at hd
          cases hd
        · rw [Function.update_of_ne hkey] at hd
          exact Or.inl hd
      · exact Or.inl hd
    | _ => exact Or.inl hd
  · by_cases hkey : keyRecent thread = key
    · subst hkey
      simp only [Function.update_self] at hd
      cases hd
    · simp only [Function.update_of_ne hkey] at hd
      exact Or.inl hd

/-- A list that has not been answered behind a step has just come, or has made the step, or is as
it was, and so is the table. -/
theorem InTurn.came (h : InTurn E s thread) {e : Event} (he : next E s e = some s')
    (hone : OneAtATime ⟨s, e, s'⟩) {i limit : Nat} {cursor : Option String} {phase : Phase}
    (hi : s'.reqs i = some (.list thread limit cursor, phase))
    (hrun : ∀ reply, phase ≠ .answered reply) :
    phase = start E (.list thread limit cursor) ∨
    (∃ input phase₀, s.reqs i = some (.list thread limit cursor, phase₀) ∧
      Resumed E s.table s.redis (.list thread limit cursor) phase₀ input s'.table s'.redis phase) ∨
    s.reqs i = some (.list thread limit cursor, phase) ∧ s'.table = s.table := by
  rcases step_cases he with ⟨j, r, rfl, -, -, rfl⟩ |
    ⟨j, input, r, phase₀, t, redis, phase', rfl, hr, hres, rfl⟩ | ⟨key, -, rfl⟩
  · rcases update_cases hi with ⟨-, heq⟩ | ⟨-, hold⟩
    · cases heq
      exact Or.inl rfl
    · exact Or.inr (Or.inr ⟨hold, rfl⟩)
  · rcases update_cases hi with ⟨rfl, heq⟩ | ⟨hij, hold⟩
    · cases heq
      exact Or.inr (Or.inl ⟨input, phase₀, hr, hres⟩)
    · exact absurd (h.one i j _ _ _ _ hold hr hrun hres.running) hij
  · exact Or.inr (Or.inr ⟨hi, rfl⟩)

theorem sized_step (hen : E.cfg.enabled = true) {tr : List Step} {e : Event} (hdone : RedisDone e)
    (hA : Asserted s) (hturn : InTurn E s thread) (h : Sized E tr s thread)
    (he : next E s e = some s') (hone : OneAtATime ⟨s, e, s'⟩) :
    Sized E (tr ++ [⟨s, e, s'⟩]) s' thread := by
  refine ⟨fun i limit cursor rows hi => ?_, fun data hd => ?_, fun i limit cursor data hi => ?_⟩
  · rcases hturn.came he hone hi (fun _ => by simp) with hstart | ⟨input, phase₀, hr, hres⟩ |
      ⟨hold, htable⟩
    · exact absurd hstart.symm start_cacheSet
    · obtain ⟨_, _, _, l, heq, -, -, htable, hl, rfl⟩ := hres.cacheSet
      cases heq
      rw [listLimit_toString (hturn.valid i _ _ hr), List.length_take, htable, hl.1.length_eq]
    · rw [htable]
      exact h.selected i limit cursor rows hold
  · by_cases hp' : Pending s' thread
    · exact Or.inl hp'
    have hlive := (live_or_pending hen hA he thread).resolve_right hp'
    have hp : ¬ Pending s thread := by
      intro hp
      rcases pending_step hen hdone he hp with hp'' | hnone
      · exact hp' hp''
      · rw [hnone] at hd
        cases hd
    refine Or.inr ?_
    rcases entry_step he hd with hold | ⟨i, limit, cursor, rows, outcome, hev, hr, hwritten⟩
    · exact ((h.entry data hold).resolve_left hp).later hlive _
    · refine ⟨⟨s, e, s'⟩, List.mem_append_right _ (List.mem_singleton_self _), i, limit,
        ⟨outcome, cursor, rows, hev, hr⟩, ?_⟩
      rw [length_of_recentOf hwritten, h.selected i limit cursor rows hr, hlive]
  · rcases hturn.came he hone hi (fun _ => by simp) with hstart | ⟨input, phase₀, hr, hres⟩ |
      ⟨hold, htable⟩
    · exact absurd hstart.symm start_cacheTouch
    · obtain ⟨_, _, _, heq, rfl, htable, hread⟩ := hres.cacheTouch
      cases heq
      have hp := hturn.not_pending hr (fun _ => by simp)
      exact ((h.entry data hread).resolve_left hp).later (by rw [htable]) _
    · exact (h.read i limit cursor data hold).later (by rw [htable]) _

theorem sized_of_run (hen : E.cfg.enabled = true) {o : Table} {tr : List Step}
    (h : Run (next E) (State.init o) tr s) (hdone : ∀ t ∈ tr, RedisDone t.event)
    (hone : ∀ t ∈ tr, OneAtATime t) (thread : UUID) : Sized E tr s thread := by
  refine And.right (h.historyInv (C := fun t => RedisDone t.event ∧ OneAtATime t)
    (I := fun tr s => InTurn E s thread ∧ Sized E tr s thread) ?_ ?_
    fun t ht => ⟨hdone t ht, hone t ht⟩)
  · refine ⟨inTurn_of_run hen .nil (by simp) (by simp) thread, fun _ _ _ _ hi => ?_,
      fun _ hd => ?_, fun _ _ _ _ hi => ?_⟩
    · cases hi
    · cases hd
    · cases hi
  · intro tr m e s' hrun hm he hC
    have hA := asserted_of_run hrun
    exact ⟨inTurn_step hen hC.1 hA hm.1 he hC.2, sized_step hen hC.1 hA hm.1 hm.2 he hC.2⟩

/-! ## A hit -/

/-- At `t` the request `i` answers a first page from the entry `data` of the cache: at once, or
behind the `EXPIRE` that touches it. -/
structure Hit (t : Step) (i : Nat) (thread : UUID) (limit : Nat) (data : List Value)
    (reply : Reply) : Prop where
  redis : ∃ outcome, t.event = .step i (.redis outcome)
  entry : t.pre.reqs i = some (.list thread limit none, .cacheGet) ∧
      readRecent (t.pre.redis (keyRecent thread)) = some data ∨
    t.pre.reqs i = some (.list thread limit none, .cacheTouch data)
  answer : t.post.reqs i = some (.list thread limit none, .answered reply)

/-- The same messages, the same `has_more`, and cursors that decode alike. What a client can tell
two pages by. -/
def SameList (a b : Reply) : Prop :=
  ∃ p q, a = .page p ∧ b = .page q ∧ p.items = q.items ∧ p.hasMore = q.hasMore ∧
    p.nextCursor.map parseCursor = q.nextCursor.map parseCursor

/-- It is what the database would answer, in whatever order. With distinct times there is one. -/
def Agrees (E : Env) (t : Table) (thread : UUID) (limit : Nat) (reply : Reply) : Prop :=
  ∀ l dbReply, Sql.DescOrder t thread l → listFirst E.V t l thread limit = some dbReply →
    SameList reply dbReply

/-- Pages of the same rows are alike, however their cursors are written. -/
theorem sameList_rowsPage (lib : JsonLib) (rows : List Row) (limit : Nat) :
    SameList (.page (rowsPage lib rows limit)) (.page (rowsPage .orjson rows limit)) := by
  refine ⟨_, _, rfl, rfl, rfl, rfl, ?_⟩
  unfold rowsPage
  cases rows.getLast? with
  | none => simp
  | some r =>
    cases hc : r.createdAt with
    | none => simp [hc]
    | some ts => simp [hc, parseCursor_cursorOf]

theorem Hit.answered {t : Step} {i limit : Nat} {data : List Value} {reply : Reply}
    (h : Hit t i thread limit data reply) (he : next E t.pre t.event = some t.post)
    (hdone : RedisDone t.event) : reply = Api.answer E.V (data.take limit) limit := by
  obtain ⟨outcome, hev⟩ := h.redis
  have hans := h.answer
  rw [hev] at he hdone
  cases hdone
  rcases step_cases he with ⟨_, _, hb, -⟩ | ⟨j, input, r, phase, t', redis, phase', hb, hr, hres, hs'⟩ |
    ⟨_, hb, -⟩
  · cases hb
  · cases hb
    rw [hs'] at hans
    simp only [Function.update_self, Option.some.injEq, Prod.mk.injEq] at hans
    rcases h.entry with ⟨hget, hdata⟩ | htouch
    · rw [hget] at hr
      cases hr
      cases hres with
      | got =>
        have hphase := hans.2
        simp only [afterGet, hdata] at hphase
        split at hphase
        · cases hphase
        · cases hphase
          rw [slice_nat]
    · rw [htouch] at hr
      cases hr
      cases hres with
      | touched =>
        have hphase := hans.2
        rw [if_pos rfl] at hphase
        cases hphase
        rw [slice_nat]
  · cases hb

/-- **The entry of a hit is as long as the list that filled it made it**: as many messages as that
list asked for, or as the thread has where these are fewer, of which the cache has kept
`CACHE_MAX_ITEMS` (a negative one takes that many off the end). The thread is counted as it is now:
it has not changed since, or the entry would be gone. -/
theorem hit_length (hen : E.cfg.enabled = true) {o : Table} {tr : List Step}
    (h : Run (next E) (State.init o) tr s) (hdone : ∀ t ∈ tr, RedisDone t.event)
    (hone : ∀ t ∈ tr, OneAtATime t) {t : Step} (ht : t ∈ tr) {i limit : Nat} {data : List Value}
    {reply : Reply} (hhit : Hit t i thread limit data reply) :
    ∃ t₀ ∈ tr, ∃ j limit₀, FillsWith t₀ thread j limit₀ ∧
      data.length = keptSize E.cfg (min limit₀ (t.pre.table.live thread).length) ∧
      (0 ≤ E.cfg.CACHE_MAX_ITEMS → data.length =
        min E.cfg.CACHE_MAX_ITEMS.toNat (min limit₀ (t.pre.table.live thread).length)) := by
  obtain ⟨a, b, rfl⟩ := List.append_of_mem ht
  have hpre := h.cut.1
  have hdone' : ∀ t ∈ a, RedisDone t.event := fun t' ht' => hdone t' (List.mem_append_left _ ht')
  have hone' : ∀ t ∈ a, OneAtATime t := fun t' ht' => hone t' (List.mem_append_left _ ht')
  have hturn := inTurn_of_run hen hpre hdone' hone' thread
  have hsized := sized_of_run hen hpre hdone' hone' thread
  have hfilled : FilledBy E a t.pre.table thread data := by
    rcases hhit.entry with ⟨hget, hread⟩ | htouch
    · exact (hsized.entry data hread).resolve_left (hturn.not_pending hget (fun _ => by simp))
    · exact hsized.read i limit none data htouch
  obtain ⟨t₀, ht₀, j, limit₀, hfill, hlen⟩ := hfilled
  refine ⟨t₀, List.mem_append_left _ ht₀, j, limit₀, hfill, hlen, fun hmax => ?_⟩
  rw [hlen, keptSize_of_nonneg hmax]

/-- **A hit agrees with the database exactly where its entry has as many messages as were asked
for, or all the thread has.** The length of the entry is what Redis held before the hit;
`hit_length` traces it back to the list that filled it. -/
theorem hit_agrees_iff (hen : E.cfg.enabled = true) {o : Table} {tr : List Step}
    (h : Run (next E) (State.init o) tr s) (hdone : ∀ t ∈ tr, RedisDone t.event)
    (hone : ∀ t ∈ tr, OneAtATime t) {t : Step} (ht : t ∈ tr) {i limit : Nat} {data : List Value}
    {reply : Reply} (hhit : Hit t i thread limit data reply)
    (hdistinct : Sql.DistinctCreated t.pre.table thread) :
    Agrees E t.pre.table thread limit reply ↔
      limit ≤ data.length ∨ data.length = (t.pre.table.live thread).length := by
  obtain ⟨a, b, rfl⟩ := List.append_of_mem ht
  obtain ⟨hpre, hstep, -⟩ := h.cut
  have hturn := inTurn_of_run hen hpre (fun t' ht' => hdone t' (List.mem_append_left _ ht'))
    (fun t' ht' => hone t' (List.mem_append_left _ ht')) thread
  have hdata : FreshData E t.pre.table thread data := by
    rcases hhit.entry with ⟨hget, hread⟩ | htouch
    · exact hturn.reads hget hread
    · exact hturn.touches i limit none data htouch
  have hvalid : validLimit limit := by
    rcases hhit.entry with ⟨hget, -⟩ | htouch
    · exact hturn.valid i _ _ hget
    · exact hturn.valid i _ _ htouch
  obtain ⟨rows, ⟨l₀, n, hl₀, hrows⟩, hd⟩ := hdata
  have hreply : reply = .page (rowsPage E.cfg.lib (rows.take limit) limit) := by
    rw [hhit.answered hstep (hdone t ht), hd, cachedRows, ← List.map_take]
    exact answer_json E.V E.cfg.lib _ limit
  have hlen : data.length = min n l₀.length := by
    rw [hd, cachedRows, List.length_map, hrows, List.length_take]
  have hlive : (t.pre.table.live thread).length = l₀.length := hl₀.1.length_eq.symm
  have hdb := fun l (hl : Sql.DescOrder t.pre.table thread l) =>
    listFirst_eq (V := E.V) hl hvalid
  rw [hlen, hlive]
  constructor
  · intro hagree
    obtain ⟨p, q, hp, hq, hitems, -, -⟩ := hagree l₀ _ hl₀ (hdb l₀ hl₀)
    rw [hreply] at hp
    cases hp
    cases hq
    have hsame := congrArg List.length hitems
    rw [rowsPage_items, rowsPage_items, List.length_map, List.length_map, hrows, List.take_take,
      List.length_take, List.length_take] at hsame
    omega
  · intro hcond l dbReply hl hdbReply
    rw [hdb l hl, Option.some.injEq] at hdbReply
    rw [Sql.DescOrder.unique hdistinct hl hl₀] at hdbReply
    have htake : rows.take limit = l₀.take limit := by
      rw [hrows, List.take_take]
      rcases hcond with hle | hall
      · congr 1
        omega
      · rw [List.take_of_length_le (by omega : l₀.length ≤ n)] at hrows
        have hmin : min limit n = limit ∨ l₀.length ≤ min limit n := by omega
        rcases hmin with hmin | hmin
        · rw [hmin]
        · rw [List.take_of_length_le hmin, List.take_of_length_le (by omega)]
    rw [hreply, ← hdbReply, htake]
    exact sameList_rowsPage E.cfg.lib _ limit

/-! ## Two lists, one after the other -/

/-- Both requests of a run of two are answered when one arrives. -/
def arrivesIdle (t : Step) : Bool :=
  match t.event with
  | .arrive .. => isAnswered (t.pre.reqs 0) && isAnswered (t.pre.reqs 1)
  | _ => true

theorem oneAtATime_of_run {o : Table} {tr : List Step} (h : Run (next E) (State.init o) tr s)
    (htwo : ∀ e ∈ tr.map Transition.event, ofTwo e = true)
    (hidle : ∀ t ∈ tr, arrivesIdle t = true) : ∀ t ∈ tr, OneAtATime t := by
  intro t ht i r he
  have hpair := hidle t ht
  simp only [arrivesIdle, he, Bool.and_eq_true] at hpair
  obtain ⟨a, b, rfl⟩ := List.append_of_mem ht
  refine idle_of_run h.cut.1 (fun e hea => htwo e ?_) hpair.1 hpair.2
  rw [List.map_append]
  exact List.mem_append_left _ hea

def newestFirst : List Row := Sample.threeMessages.rows.reverse

/-- A list of `a` messages that fills the cache, and a list of `b` that reads it. -/
def fillThenHit (a b : Nat) : List Event :=
  [.arrive 0 (.list Sample.thread a none), .step 0 (.redis .done), .step 0 (.rows newestFirst),
    .step 0 (.redis .done), .arrive 1 (.list Sample.thread b none), .step 1 (.redis .done),
    .step 1 (.redis .done)]

theorem hit_agrees_two : ∃ tr s t reply, tr.map Transition.event = fillThenHit 50 2 ∧
    Run (next sampleEnv) (State.init Sample.threeMessages) tr s ∧ t ∈ tr ∧
    Hit t 1 Sample.thread 2 (cachedRows .orjson newestFirst) reply ∧
    Agrees sampleEnv t.pre.table Sample.thread 2 reply := by
  have hrun : (exec (next sampleEnv) (State.init Sample.threeMessages) (fillThenHit 50 2)).isSome := by
    decide +kernel
  have hidle : ∀ t ∈ trace (next sampleEnv) (State.init Sample.threeMessages) (fillThenHit 50 2),
      arrivesIdle t = true ∧ Sql.DistinctCreated t.pre.table Sample.thread := by
    decide +kernel
  obtain ⟨s, hs⟩ := Option.isSome_iff_exists.mp hrun
  obtain ⟨htr, h⟩ := Run.of_exec hs
  obtain ⟨t, hlast⟩ : ∃ t, (trace (next sampleEnv) (State.init Sample.threeMessages)
      (fillThenHit 50 2)).getLast? = some t := ⟨_, rfl⟩
  have ht := List.mem_of_getLast? hlast
  have hhit : Hit t 1 Sample.thread 2 (cachedRows .orjson newestFirst)
      (.page (rowsPage .orjson (newestFirst.take 2) 2)) := by
    cases hlast
    exact ⟨⟨.done, rfl⟩, Or.inr rfl, rfl⟩
  refine ⟨_, s, t, _, htr, h, ht, hhit, (hit_agrees_iff rfl h ?_ ?_ ht hhit (hidle t ht).2).mpr ?_⟩
  · intro t' ht'
    have hall : ∀ e ∈ fillThenHit 50 2, RedisDone e := by decide
    exact hall t'.event (htr ▸ List.mem_map_of_mem ht')
  · exact oneAtATime_of_run h (by rw [htr]; decide) fun t' ht' => (hidle t' ht').1
  · exact Or.inl (by decide)

/-- Fifty messages from an entry of one: the other two are missing. -/
theorem hit_cut_short : ∃ tr s t reply, tr.map Transition.event = fillThenHit 1 50 ∧
    Run (next sampleEnv) (State.init Sample.threeMessages) tr s ∧
    (∀ t ∈ tr, RedisDone t.event) ∧ (∀ t ∈ tr, OneAtATime t) ∧ t ∈ tr ∧
    Hit t 1 Sample.thread 50 (cachedRows .orjson (newestFirst.take 1)) reply ∧
    Sql.DistinctCreated t.pre.table Sample.thread ∧
    ¬ Agrees sampleEnv t.pre.table Sample.thread 50 reply := by
  have hrun : (exec (next sampleEnv) (State.init Sample.threeMessages) (fillThenHit 1 50)).isSome := by
    decide +kernel
  have hidle : ∀ t ∈ trace (next sampleEnv) (State.init Sample.threeMessages) (fillThenHit 1 50),
      arrivesIdle t = true ∧ t.pre.table = Sample.threeMessages := by
    decide +kernel
  obtain ⟨s, hs⟩ := Option.isSome_iff_exists.mp hrun
  obtain ⟨htr, h⟩ := Run.of_exec hs
  obtain ⟨t, hlast⟩ : ∃ t, (trace (next sampleEnv) (State.init Sample.threeMessages)
      (fillThenHit 1 50)).getLast? = some t := ⟨_, rfl⟩
  have ht := List.mem_of_getLast? hlast
  have htable := (hidle t ht).2
  have hhit : Hit t 1 Sample.thread 50 (cachedRows .orjson (newestFirst.take 1))
      (.page (rowsPage .orjson (newestFirst.take 1) 50)) := by
    cases hlast
    exact ⟨⟨.done, rfl⟩, Or.inr rfl, rfl⟩
  refine ⟨_, s, t, _, htr, h, ?_, ?_, ht, hhit, by rw [htable]; decide, fun hagree => ?_⟩
  · intro t' ht'
    have hall : ∀ e ∈ fillThenHit 1 50, RedisDone e := by decide
    exact hall t'.event (htr ▸ List.mem_map_of_mem ht')
  · exact oneAtATime_of_run h (by rw [htr]; decide) fun t' ht' => (hidle t' ht').1
  · rw [htable] at hagree
    have hl : Sql.DescOrder Sample.threeMessages Sample.thread newestFirst := by decide
    obtain ⟨p, q, hp, hq, hitems, -⟩ := hagree newestFirst _ hl
      (listFirst_eq hl ⟨by decide, by decide⟩)
    cases hp
    cases hq
    have hlen := congrArg List.length hitems
    revert hlen
    decide

end MessagesApp.Handlers
