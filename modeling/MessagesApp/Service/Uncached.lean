import MessagesApp.Lib.Simulation
import MessagesApp.Service.Handlers

/-!
# The service without a cache

Where Redis is off a list is one `SELECT` and a write is its statements, so the whole service is
linearizable: creates, updates, deletes and lists, whatever falls between a write's statements and
between its commit and its answer. `api` is a request as its statements alone, without the awaits
behind them; `Stands` relates what a request waits for to where its statements have come to.

A create is in force when its row is committed, while its event is still being published. So the
order may hold creates that have not answered; it holds no other call that has not.

The proof has two halves. `api` is a `CommitLast`: writes by what `Linearizable` says of the
controller, lists since they write nothing and run in one step (`api_commitLast`). And the handlers
are simulated by it (`simulates_api`): a step of a handler is a statement, or the arrival of a
request that is answered at once, or nothing that `api` sees. `explains_of_matched` then carries a
linearization back along the simulation, its real-time order along the cuts.

With the cache on this does not hold, since a list may be answered with rows that are no longer
those of any moment between its arrival and its answer; what holds then is in `Coherence` and,
for one request at a time, in `Cached`.
-/

set_option autoImplicit false

namespace MessagesApp.Handlers

open Py Lib Api Cache Controller

/-- What a write answers for what the controller gave it. -/
def replyOf (E : Env) (c : Call) : Result → Reply
  | .error e => .http (mapErrorToHttp e)
  | .ok row => writeReply E.V c row

def progressOf (E : Env) (c : Call) : Progress Pc Result → Progress Pc Reply
  | .running pc => .running pc
  | .answered res => .answered (replyOf E c res)

/-- The requests as their statements: what each would be if nothing but the database were there. A
list with a cursor that does not parse has no statement, and takes any input. -/
def api (E : Env) : Service Table Request Pc Input Reply where
  start := .begin
  step
    | .write c, pc, .db x, t =>
        (Controller.statement c pc x t).map fun (t', g) => (t', progressOf E c g)
    | .list thread limit none, .begin, .rows l, t =>
        (listFirst E.V t l thread limit).map fun reply => (t, .answered reply)
    | .list thread limit (some cursor), .begin, _, t =>
        some (t, .answered (listBefore E.V E.bindError t thread limit cursor))
    | _, _, _, _ => none

variable {E : Env} {s s' : State}

/-! ## The requests write at their last statement -/

/-- A list relies on nothing, a write on what its check has established. The assertion of the
library's rule. -/
def Relies (r : Request) (pc : Pc) (t : Table) : Prop :=
  ∀ c, r = .write c → Checked c pc t

/-- Everything a statement of a request can be. -/
theorem api_cases {r : Request} {pc : Pc} {x : Input} {t t' : Table} {g : Progress Pc Reply}
    (h : (api E).step r pc x t = some (t', g)) :
    (∃ c y g', r = .write c ∧ x = .db y ∧ Controller.statement c pc y t = some (t', g') ∧
      g = progressOf E c g') ∨
    (∃ thread limit cursor reply, r = .list thread limit cursor ∧ pc = .begin ∧ t' = t ∧
      g = .answered reply) := by
  simp only [api] at h
  split at h
  · obtain ⟨⟨t₁, g₁⟩, hst, heq⟩ := Option.map_eq_some_iff.mp h
    cases heq
    exact Or.inl ⟨_, _, _, rfl, rfl, hst, rfl⟩
  · obtain ⟨reply, -, heq⟩ := Option.map_eq_some_iff.mp h
    cases heq
    exact Or.inr ⟨_, _, _, _, rfl, rfl, rfl, rfl⟩
  · cases h
    exact Or.inr ⟨_, _, _, _, rfl, rfl, rfl, rfl⟩
  · cases h

/-- A write alone in the controller is the request alone. -/
theorem alone_write {c : Call} {x : Supplied} {pc : Pc} {t t' : Table} {res : Result}
    (h : Service.Alone Controller.service c x pc t t' res) :
    Service.Alone (api E) (.write c) (.db x) pc t t' (replyOf E c res) := by
  induction h with
  | last hst =>
    refine .last ?_
    simp only [Controller.service] at hst
    simp only [api, hst]
    rfl
  | more hst _ ih =>
    refine .more ?_ ih
    simp only [Controller.service] at hst
    simp only [api, hst]
    rfl

/-- **The requests write at their last statement, if they write.** Lists leave the table alone, and
writes are the controller's. -/
theorem api_commitLast (E : Env) : (api E).CommitLast Relies where
  start r t c _ h := by cases h
  advance r pc x t t' pc' hA h := by
    rcases api_cases h with ⟨c, y, g', rfl, rfl, hst, hg⟩ | ⟨_, _, _, _, -, -, -, hg⟩
    · cases g' with
      | running p =>
        cases hg
        obtain ⟨rfl, hc⟩ := service_commitLast.advance _ _ _ _ _ _ (hA c rfl) hst
        refine ⟨rfl, fun c' hc' => ?_⟩
        cases hc'
        exact hc
      | answered res => cases hg
    · cases hg
  stable r pc r' pc' x t t' g hA _ h := by
    intro c hc
    rcases api_cases h with ⟨c', y, g', -, -, hst, -⟩ | ⟨_, _, _, _, -, -, rfl, -⟩
    · exact (statement_did hst).checked_stable (hA c hc)
    · exact hA c hc
  commit r pc x t t' reply hA h := by
    rcases api_cases h with ⟨c, y, g', rfl, rfl, hst, hg⟩ | ⟨_, _, _, _, rfl, rfl, rfl, hg⟩
    · cases g' with
      | running p => cases hg
      | answered res =>
        cases hg
        exact alone_write (service_commitLast.commit _ _ _ _ _ _ (hA c rfl) hst)
    · exact .last h

/-! ## The handlers run their statements -/

/-- What a request waits for, by where its statements have come to. A create that publishes has run
them all. -/
inductive Stands (E : Env) : Request → Phase → Progress Pc Reply → Prop
  /-- a list before its `SELECT` -/
  | waiting {thread : UUID} {limit : Nat} {cursor : Option String}
      {before : Option (ParsedDateTime × UUID)} :
      start E (.list thread limit cursor) = .select before →
      Stands E (.list thread limit cursor) (.select before) (.running .begin)
  | statement {c : Call} {pc : Pc} : Stands E (.write c) (.statement pc) (.running pc)
  /-- a create whose row is committed -/
  | publishing {c : Call} {row : Row} :
      Stands E (.write c) (.publish row) (.answered (writeReply E.V c row))
  | answered {r : Request} {reply : Reply} : Stands E r (.answered reply) (.answered reply)

/-- The table is the same, and every request stands where its statements do. Redis is not
mentioned. -/
structure Follows (E : Env) (s : State) (a : Service.State Table Request Pc Reply) : Prop where
  table : a.obj = s.table
  absent : ∀ i, s.reqs i = none → a.calls i = none
  present : ∀ i r phase, s.reqs i = some (r, phase) →
    ∃ g, a.calls i = some (r, g) ∧ Stands E r phase g

theorem Follows.update {a : Service.State Table Request Pc Reply} (h : Follows E s a) {t : Table}
    {redis : Redis} {i : Nat} {r : Request} {phase : Phase} {g : Progress Pc Reply}
    (hg : Stands E r phase g) :
    Follows E ⟨t, redis, Function.update s.reqs i (some (r, phase))⟩
      ⟨t, Function.update a.calls i (some (r, g))⟩ := by
  refine ⟨rfl, fun j hj => ?_, fun j r' phase' hj => ?_⟩
  · by_cases hji : j = i
    · subst hji
      simp only [Function.update_self] at hj
      cases hj
    · simp only [Function.update_of_ne hji] at hj ⊢
      exact h.absent j hj
  · rcases update_cases hj with ⟨rfl, heq⟩ | ⟨hji, hold⟩
    · cases heq
      exact ⟨g, Function.update_self .., hg⟩
    · obtain ⟨g', hg', hst⟩ := h.present j r' phase' hold
      exact ⟨g', by simp only [Function.update_of_ne hji, hg'], hst⟩

/-- A request that moves on while its statements stay where they are. -/
theorem Follows.idle {a : Service.State Table Request Pc Reply} (h : Follows E s a) {redis : Redis}
    {i : Nat} {r : Request} {phase : Phase} {g : Progress Pc Reply}
    (hc : a.calls i = some (r, g)) (hg : Stands E r phase g) :
    Follows E ⟨s.table, redis, Function.update s.reqs i (some (r, phase))⟩ a := by
  have hself : Function.update a.calls i (some (r, g)) = a.calls :=
    Function.update_eq_self_iff.mpr hc.symm
  have hobj : (⟨s.table, a.calls⟩ : Service.State Table Request Pc Reply) = a := by
    rw [← h.table]
  have hu : Follows E ⟨s.table, redis, Function.update s.reqs i (some (r, phase))⟩
      ⟨s.table, Function.update a.calls i (some (r, g))⟩ := h.update hg
  rw [hself, hobj] at hu
  exact hu

/-- A step of the statements comes from the step of the handler with its input, or from an arrival
that was answered at once. -/
def Origin (t : Step) (t' : Transition (Service.State Table Request Pc Reply)
    (Service.Event Request Input)) : Prop :=
  ∀ i x, t'.event = .step i x → t.event = .step i x ∨
    ∃ r reply, t.event = .arrive i r ∧ t.post.reqs i = some (r, .answered reply)

/-- The reply of a list that is answered at once is the reply of the whole list. -/
theorem start_answered {r : Request} {reply : Reply} (h : start E r = .answered reply) (x : Input)
    (t : Table) : (api E).step r .begin x t = some (t, .answered reply) := by
  unfold start at h
  split at h
  · split at h <;> cases h
  · rename_i thread limit cursor
    split at h
    · rename_i e he
      cases h
      simp only [api, listBefore, he]
    · cases h
  · cases h

theorem start_stands (hoff : E.cfg.enabled = false) (r : Request) :
    (∃ reply, start E r = .answered reply) ∨ Stands E r (start E r) (.running .begin) := by
  cases r with
  | write c => exact Or.inr .statement
  | list thread limit cursor =>
    have hcases : (∃ reply, start E (.list thread limit cursor) = .answered reply) ∨
        ∃ before, start E (.list thread limit cursor) = .select before := by
      unfold start
      rw [hoff]
      cases cursor with
      | none => exact Or.inr ⟨none, by simp⟩
      | some cursor =>
        simp only
        split
        · exact Or.inl ⟨_, rfl⟩
        · exact Or.inr ⟨_, rfl⟩
    rcases hcases with hnow | ⟨before, hb⟩
    · exact Or.inl hnow
    · refine Or.inr ?_
      rw [hb]
      exact .waiting hb

/-- What the `SELECT` of a list gives is what the list alone gives. -/
theorem uncached_select (hoff : E.cfg.enabled = false) {thread : UUID} {limit : Nat}
    {cursor : Option String} {before : Option (ParsedDateTime × UUID)} {t : Table} {l : List Row}
    {phase : Phase} (hs : start E (.list thread limit cursor) = .select before)
    (h : afterSelect E t thread limit before l = some phase) :
    ∃ reply, phase = .answered reply ∧
      (api E).step (.list thread limit cursor) .begin (.rows l) t = some (t, .answered reply) := by
  unfold start at hs
  cases cursor with
  | none =>
    simp only [hoff] at hs
    rw [if_neg (by simp)] at hs
    cases hs
    obtain ⟨rows, hrows, hphase⟩ := Option.map_eq_some_iff.mp h
    rw [hoff] at hphase
    refine ⟨_, hphase.symm, ?_⟩
    simp only [api, listFirst, hrows]
    rfl
  | some cursor =>
    simp only at hs
    split at hs
    · cases hs
    · rename_i hreq
      cases hs
      cases before with
      | none =>
        rw [requestCursor_some] at hreq
        split at hreq <;> cases hreq
      | some b =>
        obtain ⟨ts, mid⟩ := b
        have hbefore : (api E).step (.list thread limit (some cursor)) .begin (.rows l) t =
            some (t, .answered (listBefore E.V E.bindError t thread limit cursor)) := rfl
        unfold listBefore at hbefore
        rw [hreq] at hbefore
        simp only [afterSelect] at h
        cases he : listMessagesBefore E.bindError t thread ts mid limit with
        | error e =>
          simp only [he] at h hbefore
          cases h
          exact ⟨_, rfl, hbefore⟩
        | ok rows =>
          simp only [he] at h hbefore
          cases h
          exact ⟨_, rfl, hbefore⟩

theorem invalidate_off (hoff : E.cfg.enabled = false) (c : Call) (row : Row) :
    invalidate E c row = .answered (writeReply E.V c row) := by
  unfold invalidate
  rw [hoff]
  rfl

/-- Behind a statement a write stands where its statements have come to. -/
theorem afterStatement_stands (hoff : E.cfg.enabled = false) (c : Call) (g : Progress Pc Result) :
    Stands E (.write c) (afterStatement E c g) (progressOf E c g) := by
  cases g with
  | running pc => exact .statement
  | answered res =>
    cases res with
    | error e => exact .answered
    | ok row =>
      cases c with
      | createMessage => exact .publishing
      | updateMessage =>
        simp only [afterStatement, invalidate_off hoff]
        exact .answered
      | deleteMessage =>
        simp only [afterStatement, invalidate_off hoff]
        exact .answered

/-- One statement of the one system where the handler's was. -/
theorem step_of_statement {a : Service.State Table Request Pc Reply} {i : Nat} {r : Request}
    {pc : Pc} {x : Input} {t' : Table} {g : Progress Pc Reply}
    (hc : a.calls i = some (r, .running pc)) (h : (api E).step r pc x a.obj = some (t', g)) :
    (api E).next a (.step i x) = some ⟨t', Function.update a.calls i (some (r, g))⟩ := by
  simp only [Service.next, hc, h]
  rfl

/-- **The handlers do what their statements do.** By what a step of a handler can be; the steps
behind the last statement are none of `api`. -/
theorem simulates_api (hoff : E.cfg.enabled = false) :
    Simulates (next E) (api E).next (Follows E) Origin := by
  intro s e s₁ a hR he
  rcases next_cases he with ⟨i, r, rfl, hi, -, rfl⟩ |
    ⟨i, input, r, phase, t, redis, phase', rfl, hr, hres, rfl⟩ | ⟨key, rfl, rfl⟩
  · -- an arrival is a call, and the call's one statement where it is answered at once
    have hcall : (api E).next a (.invoke i r) =
        some { a with calls := Function.update a.calls i (some (r, .running .begin)) } := by
      simp only [Service.next, hR.absent i hi, Option.isNone_none, if_true]
      rfl
    rcases start_stands hoff r with ⟨reply, hnow⟩ | hst
    · have hstep := step_of_statement (E := E) (x := .published)
        (a := { a with calls := Function.update a.calls i (some (r, .running .begin)) })
        (Function.update_self ..) (start_answered hnow .published _)
      refine ⟨_, _, (Run.nil.snoc hcall).snoc hstep, ?_, ?_⟩
      · rw [Function.update_idem, hnow, hR.table]
        exact hR.update .answered
      · intro t' ht' j x hj
        rcases List.mem_append.mp ht' with ht' | ht'
        · rw [List.nil_append, List.mem_singleton] at ht'
          subst ht'
          cases hj
        · rw [List.mem_singleton] at ht'
          subst ht'
          cases hj
          refine Or.inr ⟨r, reply, rfl, ?_⟩
          show Function.update s.reqs i (some (r, start E r)) i = _
          rw [Function.update_self, hnow]
    · refine ⟨_, _, Run.nil.snoc hcall, ?_, ?_⟩
      · rw [hR.table]
        exact hR.update hst
      · intro t' ht' j x hj
        rw [List.nil_append, List.mem_singleton] at ht'
        subst ht'
        cases hj
  · obtain ⟨g, hg, hst⟩ := hR.present i r phase hr
    have horigin : ∀ {a' : Service.State Table Request Pc Reply},
        ∀ t' ∈ [(⟨a, .step i input, a'⟩ : Transition _ _)],
          Origin ⟨s, .step i input, ⟨t, redis, Function.update s.reqs i (some (r, phase'))⟩⟩ t' := by
      intro a' t' ht' j x hj
      rw [List.mem_singleton] at ht'
      subst ht'
      cases hj
      exact Or.inl rfl
    cases hst with
    | @waiting thread limit cursor before hstart =>
      cases input with
      | rows l =>
        obtain ⟨q, hq, heq⟩ := Option.map_eq_some_iff.mp hres
        cases heq
        obtain ⟨reply, rfl, hstep⟩ := uncached_select hoff hstart hq
        rw [← hR.table] at hstep
        refine ⟨_, _, Run.nil.snoc (step_of_statement hg hstep), ?_, horigin⟩
        rw [hR.table]
        exact hR.update .answered
      | redis => cases hres
      | db => cases hres
      | published => cases hres
    | @statement c pc =>
      cases input with
      | db x =>
        obtain ⟨⟨t₁, g₁⟩, hq, heq⟩ := Option.map_eq_some_iff.mp hres
        cases heq
        have hstep : (api E).step (.write c) pc (.db x) a.obj = some (t, progressOf E c g₁) := by
          simp only [api, hR.table, hq]
          rfl
        exact ⟨_, _, Run.nil.snoc (step_of_statement hg hstep),
          hR.update (afterStatement_stands hoff c g₁), horigin⟩
      | redis => cases hres
      | rows => cases hres
      | published => cases hres
    | @publishing c row =>
      -- the row is committed: the end of the publication is the answer
      cases input with
      | published =>
        simp only [resume, Option.some.injEq, Prod.mk.injEq] at hres
        obtain ⟨rfl, rfl, rfl⟩ := hres
        refine ⟨[], a, .nil, hR.idle hg ?_, by simp⟩
        rw [invalidate_off hoff]
        exact .answered
      | redis => cases hres
      | rows => cases hres
      | db => cases hres
    | answered =>
      exfalso
      exact (resumed_of_resume hres).running _ rfl
  · exact ⟨[], a, .nil, ⟨hR.table, hR.absent, hR.present⟩, by simp⟩

/-! ## The whole service -/

/-- `order` is a sequential history that explains the run `tr` of the handlers from the table `o` to
`s`: table, answers, inputs and real time. -/
structure Explains (E : Env) (o : Table) (tr : List Step) (s : State)
    (order : List (Service.Entry Request Input Reply)) : Prop where
  /-- One whole request after the other, its entries leave the table of the run. -/
  legal : Service.Sequential (api E) o order s.table
  /-- It holds the requests that have been answered, with their answers, -/
  answered : ∀ i r reply, s.reqs i = some (r, .answered reply) →
    ∃ e ∈ order, e.id = i ∧ e.call = r ∧ e.result = reply
  /-- and beside them only creates whose row is committed and whose event is being published, with
  the answer they will give; -/
  only : ∀ e ∈ order, s.reqs e.id = some (e.call, .answered e.result) ∨
    ∃ c row, e.call = .write c ∧ s.reqs e.id = some (.write c, .publish row) ∧
      e.result = writeReply E.V c row
  /-- each once, -/
  nodup : (order.map Service.Entry.id).Nodup
  /-- on the input of one of its own steps, or answered when it came; -/
  inputs : ∀ e ∈ order, ∃ t ∈ tr, t.event = .step e.id e.input ∨
    ∃ r reply, t.event = .arrive e.id r ∧ t.post.reqs e.id = some (r, .answered reply)
  /-- a request that had been answered before another came stands before it. -/
  realTime : ∀ tr₁ tr₂ m, tr = tr₁ ++ tr₂ → Run (next E) (State.init o) tr₁ m →
    ∀ a b r reply, m.reqs a = some (r, .answered reply) → m.reqs b = none →
      b ∈ order.map Service.Entry.id → Service.Precedes (order.map Service.Entry.id) a b

theorem Stands.answer {r : Request} {reply : Reply} {g : Progress Pc Reply}
    (h : Stands E r (.answered reply) g) : g = .answered reply := by
  cases h
  rfl

theorem follows_init (E : Env) (o : Table) : Follows E (State.init o) (Service.State.init o) :=
  ⟨rfl, fun _ _ => rfl, fun i r phase hi => by cases hi⟩

/-- A linearization of the statements explains the handlers. -/
theorem explains_of_matched {o : Table} {tr : List Step}
    {tr' : List (Transition (Service.State Table Request Pc Reply) (Service.Event Request Input))}
    {a : Service.State Table Request Pc Reply}
    {order : List (Service.Entry Request Input Reply)}
    (hm : Matched (next E) (api E).next (Follows E) Origin (State.init o) (Service.State.init o)
      tr s tr' a)
    (hl : Service.Linearization (api E) o tr' a order) : Explains E o tr s order := by
  refine ⟨?_, ?_, ?_, hl.nodup, ?_, ?_⟩
  · rw [← hm.related.table]
    exact hl.legal
  · intro i r reply hi
    obtain ⟨g, hg, hst⟩ := hm.related.present i r _ hi
    rw [hst.answer] at hg
    exact (hl.answers i r reply).mp hg
  · intro e he
    have ha := (hl.answers e.id e.call e.result).mpr ⟨e, he, rfl, rfl, rfl⟩
    cases hreq : s.reqs e.id with
    | none =>
      rw [hm.related.absent _ hreq] at ha
      cases ha
    | some q =>
      obtain ⟨r, phase⟩ := q
      obtain ⟨g, hg, hst⟩ := hm.related.present _ r phase hreq
      rw [ha, Option.some.injEq, Prod.mk.injEq] at hg
      obtain ⟨rfl, rfl⟩ := hg
      generalize hc : e.call = r at hst
      generalize hres : e.result = reply at hst
      cases hst with
      | publishing => exact Or.inr ⟨_, _, rfl, rfl, rfl⟩
      | answered => exact Or.inl rfl
  · intro e he
    obtain ⟨t', ht', hev, -⟩ := hl.inputs e he
    obtain ⟨t, ht, horigin⟩ := hm.steps t' ht'
    exact ⟨t, ht, horigin _ _ hev⟩
  · intro tr₁ tr₂ m htr hrun x y r reply hx hy hmem
    obtain ⟨tr₁', tr₂', m', htr', hrun', hag⟩ := hm.cuts tr₁ tr₂ m htr hrun
    obtain ⟨g, hg, hst⟩ := hag.present x r _ hx
    rw [hst.answer] at hg
    exact hl.realTime tr₁' tr₂' m' htr' hrun' x y r reply hg (hag.absent y hy) hmem

/-- **Without a cache the service is linearizable**: every interleaving of the steps of its lists,
creates, updates and deletes, from every table, is explained by a sequential order of whole
requests. -/
theorem uncached_linearizable {o : Table} {tr : List Step} (hoff : E.cfg.enabled = false)
    (h : Run (next E) (State.init o) tr s) : ∃ order, Explains E o tr s order := by
  obtain ⟨tr', a, hm⟩ := (simulates_api hoff).matched (follows_init E o) h
  obtain ⟨-, order, hl⟩ := (api_commitLast E).linearizable hm.run
  exact ⟨order, explains_of_matched hm hl⟩

def withoutRedis : Env where
  cfg := ⟨false, 120, 200, true, .orjson⟩
  V := Pydantic.python
  bindError _ := "can't subtract offset-naive and offset-aware datetimes"

/-- A create and a delete race; a list finds the row of the create, whose event is not out yet. -/
def racingRequests : List Event :=
  [.arrive 0 (.write (.createMessage Sample.thread Sample.user (some "dos") none none)),
    .arrive 1 (.write (.deleteMessage Sample.thread Sample.message Sample.user)),
    .step 1 (.db ⟨Sample.minute 1, Sample.message⟩),
    .step 0 (.db ⟨Sample.minute 2, Sample.uuid 4⟩),
    .step 1 (.db ⟨Sample.minute 3, Sample.message⟩),
    .arrive 2 (.list Sample.thread 50 none),
    .step 2 (.rows [⟨Sample.uuid 4, Sample.thread, Sample.user, none, some "dos", none,
      some (Sample.minute 2), some (Sample.minute 2), none⟩]),
    .arrive 3 (.list Sample.thread 50 (some "ayer")),
    .step 0 .published]

theorem uncached_linearizable_racingRequests : ∃ tr s order,
    tr.map Transition.event = racingRequests ∧
    Run (next withoutRedis) (State.init Sample.table) tr s ∧
    Explains withoutRedis Sample.table tr s order := by
  have hrun : (exec (next withoutRedis) (State.init Sample.table) racingRequests).isSome := by
    decide +kernel
  obtain ⟨s, hs⟩ := Option.isSome_iff_exists.mp hrun
  obtain ⟨htr, h⟩ := Run.of_exec hs
  obtain ⟨order, horder⟩ := uncached_linearizable rfl h
  exact ⟨_, s, order, htr, h, horder⟩

end MessagesApp.Handlers
