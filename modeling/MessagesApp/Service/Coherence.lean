import MessagesApp.Service.Handlers

/-!
# The cached thread against the table

A list that misses the cache selects in one step (`API.py` 214) and writes the cache in a later one
(225); a write commits in one step and deletes the entry in a later one (116, 139, 158). A fill
that lands behind the deletion puts back what was selected before the write, and nothing takes it
out again but its expiry. Everything else is coherent: an entry is the beginning of the thread as
it is now, or a write that made it old has not yet deleted it (`Pending`).

That is the invariant, `CoherentOrPending`. A write that changes the thread is pending from its
commit to its deletion, so it cannot break it (`pending_step`); expiry and deletion only take
entries away; and a fill keeps it where its rows are still the beginning of the thread, or where a
write is pending whose deletion will take the entry out again. `FillsCurrent` is this condition, on
the table and the requests before the fill, and it is all that a run has to meet. When the thread
is at rest no write is pending, and what is left is coherence (`cache_coherent`).

Redis does what it is told here (`RedisDone`): a deletion that fails leaves an old entry for as
long as it lives, which no order of steps can mend. Rows created in the same microsecond have no
order of their own, so the theorem is about threads with distinct times.

A reader who wants the condition weaker has to look at what comes after the fill: an entry that was
old when it was written may be deleted by a write that had not even begun.
-/

set_option autoImplicit false

namespace MessagesApp.Handlers

open Py Lib Api Cache Controller

variable {E : Env} {s s' : State} {thread : UUID}

/-- The text that `set_recent_messages` writes for some rows, as it is read back. -/
def payload (E : Env) (rows : List Row) : Stored := .json (.list (cachedRows E.cfg.lib rows))

/-- Rows from the beginning of the thread, in some order the query allows: what a first page of the
table would be, or the beginning of one. -/
def FreshRows (t : Table) (thread : UUID) (rows : List Row) : Prop :=
  ∃ l n, Sql.DescOrder t thread l ∧ rows = l.take n

/-- An entry that holds such rows. How many they are depends on the list that filled it. -/
def Fresh (E : Env) (t : Table) (thread : UUID) (v : Stored) : Prop :=
  ∃ rows, FreshRows t thread rows ∧ v = payload E rows

/-- A write of the thread has committed and not yet deleted the entry. It waits for its publication
or for Redis. -/
def Pending (s : State) (thread : UUID) : Prop :=
  ∃ j c row, c.thread = thread ∧
    (s.reqs j = some (.write c, .publish row) ∨ s.reqs j = some (.write c, .cacheDelete row))

/-- What is cached for the thread is fresh, or a deletion is to come that takes it out. The
invariant of the run. -/
def CoherentOrPending (E : Env) (s : State) (thread : UUID) : Prop :=
  ∀ v, s.redis (keyRecent thread) = some v → Pending s thread ∨ Fresh E s.table thread v

theorem FreshRows.congr {t t' : Table} {rows : List Row} (h : FreshRows t thread rows)
    (hlive : t'.live thread = t.live thread) : FreshRows t' thread rows := by
  obtain ⟨l, n, hl, hrows⟩ := h
  exact ⟨l, n, (Sql.descOrder_congr hlive).mpr hl, hrows⟩

theorem FreshRows.recentOf {t : Table} {rows : List Row} (h : FreshRows t thread rows) :
    Fresh E t thread (recentOf E.cfg (rows.map toValue)) := by
  obtain ⟨l, n, hl, rfl⟩ := h
  exact ⟨(l.take n).take (keptOf E.cfg (l.take n).length), ⟨l, _, hl, List.take_take⟩,
    recentOf_rows E.cfg (l.take n)⟩

/-! ## One step -/

/-- At `t` the request `i` writes the cache of the thread, with the rows it has selected. -/
def Fills (t : Step) (thread : UUID) (i : Nat) : Prop :=
  ∃ outcome limit cursor rows, t.event = .step i (.redis outcome) ∧
    t.pre.reqs i = some (.list thread limit cursor, .cacheSet rows)

/-- A command of Redis, if the event is one, is carried out and answered. -/
def RedisDone : Event → Prop
  | .step _ (.redis outcome) => outcome = .done
  | _ => True

instance : DecidablePred RedisDone := fun e => by
  unfold RedisDone
  split <;> infer_instance

/-- A write that is to delete the entry stays so until it has. -/
theorem pending_step (hen : E.cfg.enabled = true) {e : Event} (hdone : RedisDone e)
    (he : next E s e = some s') (h : Pending s thread) :
    Pending s' thread ∨ s'.redis (keyRecent thread) = none := by
  obtain ⟨j, c, row, ht, hj⟩ := h
  rcases step_cases he with ⟨i, r, -, hn, -, rfl⟩ |
    ⟨i, input, r, phase, t, redis, phase', rfl, hr, hres, rfl⟩ | ⟨key, -, rfl⟩
  · have hij : j ≠ i := by
      intro hij
      subst hij
      rw [hn] at hj
      rcases hj with hj | hj <;> cases hj
    refine Or.inl ⟨j, c, row, ht, ?_⟩
    simp only [Function.update_of_ne hij]
    exact hj
  · by_cases hij : j = i
    · subst hij
      rw [hr] at hj
      rcases hj with hj | hj
      · cases hj
        cases hres with
        | published =>
          refine Or.inl ⟨j, c, row, ht, Or.inr ?_⟩
          simp [invalidate, hen]
      · cases hj
        cases hres with
        | @invalidated _ _ outcome =>
          cases hdone
          refine Or.inr ?_
          simp [RedisOutcome.applied, ht]
    · refine Or.inl ⟨j, c, row, ht, ?_⟩
      simp only [Function.update_of_ne hij]
      exact hj
  · exact Or.inl ⟨j, c, row, ht, hj⟩

/-- A step whose fill, if it is one, writes fresh rows or is followed by a deletion keeps every
entry coherent, or about to be deleted. By what a step can do: only a fill adds an entry, and only a
write that will delete it changes the thread. -/
theorem coherent_step (hen : E.cfg.enabled = true) {e : Event} (hdone : RedisDone e)
    (hA : Asserted s) (he : next E s e = some s') (h : CoherentOrPending E s thread)
    (hfill : ∀ i outcome limit cursor rows, e = .step i (.redis outcome) →
      s.reqs i = some (.list thread limit cursor, .cacheSet rows) →
      Pending s thread ∨ FreshRows s.table thread rows) :
    CoherentOrPending E s' thread := by
  intro v hv
  -- as long as a deletion is to come there is nothing to prove
  by_cases hp : Pending s thread
  · rcases pending_step hen hdone he hp with hp' | hnone
    · exact Or.inl hp'
    · rw [hnone] at hv
      cases hv
  have hold : ∀ v, s.redis (keyRecent thread) = some v → Fresh E s.table thread v := by
    intro v hv
    exact (h v hv).resolve_left hp
  rcases step_cases he with ⟨i, r, -, -, -, rfl⟩ |
    ⟨i, input, r, phase, t, redis, phase', rfl, hr, hres, rfl⟩ | ⟨key, -, rfl⟩
  · exact Or.inr (hold v hv)
  · cases hres with
    | got => exact Or.inr (hold v hv)
    | touched => exact Or.inr (hold v hv)
    | selected => exact Or.inr (hold v hv)
    | selectedBefore => exact Or.inr (hold v hv)
    | published => exact Or.inr (hold v hv)
    | @stored thread' limit cursor rows outcome =>
      cases hdone
      by_cases ht : thread' = thread
      · subst ht
        have hrows := (hfill i .done limit cursor rows rfl hr).resolve_left hp
        have hv' : recentOf E.cfg (rows.map toValue) = v := by
          simpa [RedisOutcome.applied] using hv
        subst hv'
        exact Or.inr hrows.recentOf
      · have hkey : keyRecent thread ≠ keyRecent thread' := keyRecent_injective.ne (Ne.symm ht)
        refine Or.inr (hold v ?_)
        simpa [RedisOutcome.applied, Function.update_of_ne hkey] using hv
    | @ran c pc x t' g hdid =>
      obtain ⟨rows, hrows, hpay⟩ := hold v hv
      rcases live_changed hdid (hA i c pc hr) thread with hlive | ⟨ht, row, hg⟩
      · exact Or.inr ⟨rows, hrows.congr hlive, hpay⟩
      · -- the write has committed, and its deletion is to come
        subst hg
        refine Or.inl ⟨i, c, row, ht, ?_⟩
        cases c with
        | createMessage => exact Or.inl (Function.update_self ..)
        | updateMessage => exact Or.inr (by simp [afterStatement, invalidate, hen])
        | deleteMessage => exact Or.inr (by simp [afterStatement, invalidate, hen])
    | @invalidated c row outcome =>
      cases hdone
      by_cases ht : c.thread = thread
      · simp [RedisOutcome.applied, ht] at hv
      · have hkey : keyRecent thread ≠ keyRecent c.thread := keyRecent_injective.ne (Ne.symm ht)
        refine Or.inr (hold v ?_)
        simpa [RedisOutcome.applied, Function.update_of_ne hkey] using hv
  · refine Or.inr (hold v ?_)
    by_cases hk : keyRecent thread = key
    · subst hk
      simp at hv
    · simp only [Function.update_of_ne hk] at hv
      exact hv

/-! ## Where the rows of a fill come from -/

/-- At `t` the request `i` runs its `SELECT`. -/
def Selects (t : Step) (i : Nat) : Prop :=
  ∃ l r, t.event = .step i (.rows l) ∧ t.pre.reqs i = some (r, .select none)

/-- The rows that wait to be written were at the beginning of the thread when they were selected.
The history says at which step that was. -/
def Selected (tr : List Step) (s : State) : Prop :=
  ∀ i thread limit cursor rows, s.reqs i = some (.list thread limit cursor, .cacheSet rows) →
    ∃ t ∈ tr, Selects t i ∧ FreshRows t.pre.table thread rows

theorem selected_step {tr : List Step} {e : Event} (h : Selected tr s)
    (he : next E s e = some s') : Selected (tr ++ [⟨s, e, s'⟩]) s' := by
  intro j thread limit cursor rows hj
  -- a request that did not make the step keeps its rows
  have hother : s.reqs j = some (.list thread limit cursor, .cacheSet rows) →
      ∃ t ∈ tr ++ [⟨s, e, s'⟩], Selects t j ∧ FreshRows t.pre.table thread rows := by
    intro hsame
    obtain ⟨t, ht, hsel⟩ := h j thread limit cursor rows hsame
    exact ⟨t, List.mem_append_left _ ht, hsel⟩
  rcases step_cases he with ⟨i, r, -, -, -, rfl⟩ |
    ⟨i, input, r, phase, t, redis, phase', rfl, hr, hres, rfl⟩ | ⟨key, -, rfl⟩
  · rcases update_cases hj with ⟨-, heq⟩ | ⟨-, hold⟩
    · exact absurd (Prod.mk.inj heq).2 start_cacheSet
    · exact hother hold
  · rcases update_cases hj with ⟨rfl, heq⟩ | ⟨-, hold⟩
    · obtain ⟨rfl, rfl⟩ := Prod.mk.inj heq
      obtain ⟨_, _, _, l, heq', rfl, rfl, rfl, hl, hrows⟩ := hres.cacheSet
      cases heq'
      exact ⟨_, List.mem_append_right _ (List.mem_singleton_self _), ⟨l, _, rfl, hr⟩, l, _, hl,
        hrows⟩
    · exact hother hold
  · exact hother hj

/-! ## Coherence -/

/-- Every fill of the thread finds the thread's messages as its request selected them, or a write of
the thread whose deletion of the entry is still to come. It is a condition on the states before the
fills of the run, and says of the schedule what a version number or a lock would enforce: that no
write of the thread gets both its commit and its deletion between a `SELECT` and the fill of its
rows. The code does nothing to that end. -/
def FillsCurrent (tr : List Step) (thread : UUID) : Prop :=
  ∀ tr₁ t tr₂, tr = tr₁ ++ t :: tr₂ → ∀ i, Fills t thread i →
    Pending t.pre thread ∨
      ∀ t₀ ∈ tr₁, Selects t₀ i → t₀.pre.table.live thread = t.pre.table.live thread

/-- No request of the thread is in flight: those that came have been answered. Other threads may be
as busy as they like. -/
def Quiescent (s : State) (thread : UUID) : Prop :=
  ∀ i r phase, s.reqs i = some (r, phase) → r.thread = thread → ∃ reply, phase = .answered reply

def Idle (s : State) : Prop :=
  ∀ i r phase, s.reqs i = some (r, phase) → ∃ reply, phase = .answered reply

/-- What is cached, if anything, is the beginning of what the list query returns now, in whatever
order the database returns it. -/
def Coherent (E : Env) (s : State) (thread : UUID) : Prop :=
  ∀ v, s.redis (keyRecent thread) = some v →
    ∀ l, Sql.DescOrder s.table thread l → ∃ n, v = payload E (l.take n)

/-- **In a run whose fills find what they selected, every entry is fresh or about to be deleted.**
By induction on the run, along with where the rows of the fills come from. -/
theorem coherent_of_run (hen : E.cfg.enabled = true) {o : Table} {tr : List Step}
    (h : Run (next E) (State.init o) tr s) (hdone : ∀ t ∈ tr, RedisDone t.event)
    (hfills : FillsCurrent tr thread) :
    Selected tr s ∧ CoherentOrPending E s thread := by
  revert hfills
  refine h.historyInv (C := fun t => RedisDone t.event) (I := fun tr s =>
    FillsCurrent tr thread → Selected tr s ∧ CoherentOrPending E s thread) ?_ ?_ hdone
  · intro _
    refine ⟨fun _ _ _ _ _ hi => ?_, fun v hv => ?_⟩
    · cases hi
    · cases hv
  · intro tr m e s' hrun hm he hd hfills
    have hprefix : FillsCurrent tr thread := by
      intro tr₁ t tr₂ htr i hf
      refine hfills tr₁ t (tr₂ ++ [⟨m, e, s'⟩]) ?_ i hf
      rw [htr, List.append_assoc, List.cons_append]
    obtain ⟨hsel, hco⟩ := hm hprefix
    refine ⟨selected_step hsel he, coherent_step hen hd (asserted_of_run hrun) he hco ?_⟩
    intro i outcome limit cursor rows hev hi
    rcases hfills tr ⟨m, e, s'⟩ [] rfl i ⟨outcome, limit, cursor, rows, hev, hi⟩ with hp | hsame
    · exact Or.inl hp
    · obtain ⟨t₀, ht₀, hsels, hrows⟩ := hsel i thread limit cursor rows hi
      exact Or.inr (hrows.congr (hsame t₀ ht₀ hsels).symm)

/-- **The cache is coherent whenever a thread is at rest**, in every run whose fills find what they
selected, or a deletion to come. Nothing is pending in a thread at rest, so its entry is fresh; with
distinct times there is one order, and fresh is coherent. -/
theorem cache_coherent (hen : E.cfg.enabled = true) {o : Table} {tr : List Step}
    (h : Run (next E) (State.init o) tr s) (hdone : ∀ t ∈ tr, RedisDone t.event)
    (hdistinct : Sql.DistinctCreated s.table thread) (hfills : FillsCurrent tr thread)
    (hrest : Quiescent s thread) : Coherent E s thread := by
  intro v hv l hl
  have hpending : ¬ Pending s thread := by
    intro hp
    obtain ⟨j, c, row, ht, hj | hj⟩ := hp
    · obtain ⟨reply, hreply⟩ := hrest j _ _ hj ht
      cases hreply
    · obtain ⟨reply, hreply⟩ := hrest j _ _ hj ht
      cases hreply
  obtain ⟨rows, ⟨l', n, hl', rfl⟩, hpay⟩ :=
    ((coherent_of_run hen h hdone hfills).2 v hv).resolve_left hpending
  rw [Sql.DescOrder.unique hdistinct hl' hl] at hpay
  exact ⟨n, hpay⟩

/-! ## Two runs -/

/-- A cache of two hundred messages and two minutes. -/
def sampleEnv : Env where
  cfg := ⟨true, 120, 200, true, .orjson⟩
  V := Pydantic.python
  bindError _ := "can't subtract offset-naive and offset-aware datetimes"

/-- The request has been answered, or never came. -/
def isAnswered : Option (Request × Phase) → Bool
  | some (_, .answered _) => true
  | none => true
  | _ => false

/-- Only requests below `n` arrive. -/
def below (n : Nat) : Event → Bool
  | .arrive i _ => decide (i < n)
  | _ => true

/-- Only the requests `0` and `1` arrive. -/
def ofTwo : Event → Bool := below 2

/-- A run is at rest when all that came has been answered. -/
theorem idle_of_below {o : Table} {tr : List Step} (h : Run (next E) (State.init o) tr s) {n : Nat}
    (hbelow : ∀ e ∈ tr.map Transition.event, below n e = true)
    (hans : ∀ i < n, isAnswered (s.reqs i) = true) : Idle s := by
  intro i r phase hi
  have hin : i < n := by
    by_contra hge
    have hnone : s.reqs i = none := by
      refine absent_of_run h rfl fun t ht r he => ?_
      have hlt := hbelow t.event (List.mem_map_of_mem ht)
      rw [he, below, decide_eq_true_eq] at hlt
      exact hge hlt
    rw [hnone] at hi
    cases hi
  have hi' := hans i hin
  rw [hi] at hi'
  cases phase with
  | answered reply => exact ⟨reply, rfl⟩
  | _ => cases hi'

/-- A run of two requests is at rest when both are answered. -/
theorem idle_of_run {o : Table} {tr : List Step} (h : Run (next E) (State.init o) tr s)
    (htwo : ∀ e ∈ tr.map Transition.event, ofTwo e = true)
    (h₀ : isAnswered (s.reqs 0) = true) (h₁ : isAnswered (s.reqs 1) = true) : Idle s := by
  refine idle_of_below h htwo fun i hi => ?_
  match i with
  | 0 => exact h₀
  | 1 => exact h₁
  | i + 2 => exact absurd hi (by omega)

/-- A list that selects before an edit of the message and fills between its commit and its
deletion of the entry; then a list that fills the edited one. -/
def lateFill : List Event :=
  [.arrive 0 (.list Sample.thread 50 none), .step 0 (.redis .done), .step 0 (.rows [Sample.row]),
    .arrive 1 (.write (.updateMessage Sample.thread Sample.message Sample.user (some "adiós") none
      none)),
    .step 1 (.db ⟨Sample.minute 1, Sample.message⟩), .step 1 (.db ⟨Sample.minute 1, Sample.message⟩),
    .step 0 (.redis .done), .step 1 (.redis .done),
    .arrive 2 (.list Sample.thread 50 none), .step 2 (.redis .done), .step 2 (.rows [edited]),
    .step 2 (.redis .done)]
where
  edited : Row :=
    { Sample.row with content := some "adiós", updatedAt := some (Sample.minute 1) }

/-- What `FillsCurrent` asks for, of the steps of `lateFill`: the fill of `0` finds the deletion of
`1` still to come, and `2` runs on one table. -/
def fillsLate (t : Step) : Bool :=
  match t.event with
  | .step 0 (.redis _) => match t.pre.reqs 0, t.pre.reqs 1 with
      | some (_, .cacheSet _), some (.write c, .cacheDelete _) => decide (c.thread = Sample.thread)
      | some (_, .cacheSet _), _ => false
      | _, _ => true
  | .step 1 _ => match t.pre.reqs 1 with
      | some (.list .., _) => false
      | _ => true
  | .step 2 _ => decide (t.pre.table.live Sample.thread = [lateFill.edited])
  | .step (_ + 3) _ => false
  | _ => true

theorem fillsCurrent_of_late {tr : List Step} (h : ∀ t ∈ tr, fillsLate t = true) :
    FillsCurrent tr Sample.thread := by
  rintro tr₁ t tr₂ rfl i ⟨outcome, limit, cursor, rows, hev, hreq⟩
  have ht := h t (List.mem_append_right _ List.mem_cons_self)
  unfold fillsLate at ht
  rw [hev] at ht
  match i with
  | 0 =>
    refine Or.inl ?_
    simp only [hreq] at ht
    split at ht
    · rename_i c row _ hwrite
      exact ⟨1, c, row, of_decide_eq_true ht, Or.inr hwrite⟩
    · cases ht
    · rename_i hnot _
      exact (hnot _ _ rfl).elim
  | 1 =>
    simp only [hreq] at ht
    cases ht
  | 2 =>
    refine Or.inr fun t₀ ht₀ ⟨l, r, hev₀, _⟩ => ?_
    have h₀ := h t₀ (List.mem_append_left _ ht₀)
    unfold fillsLate at h₀
    rw [hev₀] at h₀
    exact (of_decide_eq_true h₀).trans (of_decide_eq_true ht).symm
  | i + 3 => cases ht

/-- The fill of the old row is taken out again, and the edited one is cached. -/
theorem cache_coherent_lateFill : ∃ tr s, tr.map Transition.event = lateFill ∧
    Run (next sampleEnv) (State.init Sample.table) tr s ∧
    s.redis (keyRecent Sample.thread) = some (payload sampleEnv [lateFill.edited]) ∧
    Coherent sampleEnv s Sample.thread := by
  have hrun : ((exec (next sampleEnv) (State.init Sample.table) lateFill).map fun s =>
      (isAnswered (s.reqs 0), isAnswered (s.reqs 1), isAnswered (s.reqs 2),
        decide (Sql.DistinctCreated s.table Sample.thread))) = some (true, true, true, true) := by
    decide +kernel
  have hentry : ((exec (next sampleEnv) (State.init Sample.table) lateFill).bind fun s =>
      s.redis (keyRecent Sample.thread)) = some (payload sampleEnv [lateFill.edited]) := rfl
  have hlate : ∀ t ∈ trace (next sampleEnv) (State.init Sample.table) lateFill,
      fillsLate t = true := by
    decide +kernel
  obtain ⟨s, hs, hend⟩ := Option.map_eq_some_iff.mp hrun
  obtain ⟨h₀, h₁, h₂, hdistinct⟩ : isAnswered (s.reqs 0) = true ∧ isAnswered (s.reqs 1) = true ∧
      isAnswered (s.reqs 2) = true ∧ Sql.DistinctCreated s.table Sample.thread := by
    simpa using hend
  obtain ⟨htr, h⟩ := Run.of_exec hs
  rw [hs] at hentry
  refine ⟨_, s, htr, h, hentry, cache_coherent rfl h ?_ hdistinct (fillsCurrent_of_late hlate) ?_⟩
  · intro t ht
    have hall : ∀ e ∈ lateFill, RedisDone e := by decide
    exact hall t.event (htr ▸ List.mem_map_of_mem ht)
  · have hidle : Idle s := idle_of_below (n := 3) h (by rw [htr]; decide) fun i hi => by
      match i with
      | 0 => exact h₀
      | 1 => exact h₁
      | 2 => exact h₂
      | i + 3 => exact absurd hi (by omega)
    exact fun i r phase hi _ => hidle i r phase hi

/-- A list that selects before a deletion of the message and fills behind it. -/
def staleFill : List Event :=
  [.arrive 0 (.list Sample.thread 50 none), .step 0 (.redis .done), .step 0 (.rows [Sample.row]),
    .arrive 1 (.write (.deleteMessage Sample.thread Sample.message Sample.user)),
    .step 1 (.db ⟨Sample.minute 1, Sample.message⟩), .step 1 (.db ⟨Sample.minute 1, Sample.message⟩),
    .step 1 (.redis .done), .step 0 (.redis .done)]

/-- The deleted message is cached, with nobody left to take it out. -/
theorem cache_not_coherent : ∃ tr s, tr.map Transition.event = staleFill ∧
    Run (next sampleEnv) (State.init Sample.table) tr s ∧ (∀ t ∈ tr, RedisDone t.event) ∧
    Sql.DistinctCreated s.table Sample.thread ∧ Quiescent s Sample.thread ∧
    ¬ Coherent sampleEnv s Sample.thread := by
  have hrun : ((exec (next sampleEnv) (State.init Sample.table) staleFill).map fun s =>
      (isAnswered (s.reqs 0), isAnswered (s.reqs 1),
        decide (Sql.DistinctCreated s.table Sample.thread), s.table.live Sample.thread)) =
      some (true, true, true, []) := by
    decide +kernel
  have hentry : ((exec (next sampleEnv) (State.init Sample.table) staleFill).bind fun s =>
      s.redis (keyRecent Sample.thread)) = some (payload sampleEnv [Sample.row]) := rfl
  obtain ⟨s, hs, hend⟩ := Option.map_eq_some_iff.mp hrun
  obtain ⟨h₀, h₁, hdistinct, hlive⟩ : isAnswered (s.reqs 0) = true ∧
      isAnswered (s.reqs 1) = true ∧ Sql.DistinctCreated s.table Sample.thread ∧
      s.table.live Sample.thread = [] := by simpa using hend
  obtain ⟨htr, h⟩ := Run.of_exec hs
  rw [hs] at hentry
  refine ⟨_, s, htr, h, fun t ht => ?_, hdistinct, ?_, fun hco => ?_⟩
  · have hall : ∀ e ∈ staleFill, RedisDone e := by decide
    exact hall t.event (htr ▸ List.mem_map_of_mem ht)
  · exact fun i r phase hi _ => idle_of_run h (by rw [htr]; decide) h₀ h₁ i r phase hi
  · have hl : Sql.DescOrder s.table Sample.thread [] := by
      unfold Sql.DescOrder
      rw [hlive]
      exact ⟨List.Perm.nil, List.Pairwise.nil⟩
    obtain ⟨n, hn⟩ := hco _ hentry [] hl
    rw [List.take_nil] at hn
    cases hn

end MessagesApp.Handlers
