import MessagesApp.Service.Coherence

/-!
# Where the rows of a list come from

A list answers with rows that the list query itself returned: its own, or those of an earlier list
of the same thread, which the cache has kept. Redis may raise, forget and answer as late as it
likes; what it gives for a thread is the beginning of one result of one query of that thread
(`Snapshot`), and so is what a list has in hand between two of its steps.

So a page is never put together of two moments, and never of two threads, whether or not the cache
is coherent. How old the moment is, nothing here says: without coherence it may be one before a
write that was answered long ago.

`Sourced` is the invariant: every entry, and everything that waits to be answered or to be cached,
has its origin in a query. A step either asks one (`behind_selected`), or hands on what another has
asked (`given_slice`, `given_rows`). `list_answer_snapshot` reads off it what an answered first
page is, for every run and every place in it.

The property is about first pages. A page behind a cursor is a query of its own on one table and
never sees the cache.
-/

set_option autoImplicit false

namespace MessagesApp.Handlers

open Py Lib Api Cache Controller

variable {E : Env} {s s' : State} {thread : UUID} {tr : List Step}

/-- At `t` a list of the thread runs its `SELECT`, which returns `rows`, in the order the database
chose. -/
def Queried (t : Step) (thread : UUID) (rows : List Row) : Prop :=
  ∃ j limit cursor l, t.event = .step j (.rows l) ∧
    t.pre.reqs j = some (.list thread limit cursor, .select none) ∧
    listMessages t.pre.table l thread (some 1) (some (toString limit)) = some rows

/-- The beginning of what one query of the thread has returned, at one of the steps of the run. The
cache keeps no more than `CACHE_MAX_ITEMS`, and a hit takes no more than its limit. -/
def Snapshot (tr : List Step) (thread : UUID) (rows : List Row) : Prop :=
  ∃ t ∈ tr, ∃ result n, Queried t thread result ∧ rows = result.take n

theorem Snapshot.mono {rows : List Row} (h : Snapshot tr thread rows) (t : Step) :
    Snapshot (tr ++ [t]) thread rows := by
  obtain ⟨t₀, ht₀, hq⟩ := h
  exact ⟨t₀, List.mem_append_left _ ht₀, hq⟩

theorem Snapshot.take {rows : List Row} (h : Snapshot tr thread rows) (n : Nat) :
    Snapshot tr thread (rows.take n) := by
  obtain ⟨t, ht, result, m, hq, rfl⟩ := h
  exact ⟨t, ht, result, min n m, hq, by rw [List.take_take]⟩

/-- A query of the thread returns live messages of the thread. -/
theorem Queried.live {t : Step} {rows : List Row} (h : Queried t thread rows) {r : Row}
    (hr : r ∈ rows) : r ∈ t.pre.table.live thread := by
  obtain ⟨_, _, _, l, -, -, hrows⟩ := h
  unfold listMessages Sql.listThreadMessagesNotDeletedDescFirst at hrows
  split at hrows
  · rename_i hl
    cases hrows
    exact hl.mem.mp (List.mem_of_mem_take hr)
  · cases hrows

/-- The rows behind an answer or on the way to one: from one query, and no more than asked for. -/
def Behind (tr : List Step) (thread : UUID) (limit : Nat) (rows : List Row) : Prop :=
  Snapshot tr thread rows ∧ rows.length ≤ limit

theorem Behind.mono {limit : Nat} {rows : List Row} (h : Behind tr thread limit rows) (t : Step) :
    Behind (tr ++ [t]) thread limit rows := ⟨h.1.mono t, h.2⟩

/-- Everything Redis and the lists hold has its origin in a query. That first pages have no cursor
to select behind, and limits are valid, is carried along. -/
structure Sourced (E : Env) (tr : List Step) (s : State) : Prop where
  valid : ∀ i r phase, s.reqs i = some (r, phase) → r.valid
  first : ∀ i thread limit before,
    s.reqs i = some (.list thread limit none, .select before) → before = none
  cached : ∀ thread v, s.redis (keyRecent thread) = some v →
    ∃ rows, Snapshot tr thread rows ∧ v = payload E rows
  touches : ∀ i thread limit cursor data,
    s.reqs i = some (.list thread limit cursor, .cacheTouch data) →
    ∃ rows, Snapshot tr thread rows ∧ data = cachedRows E.cfg.lib rows
  fills : ∀ i thread limit cursor rows,
    s.reqs i = some (.list thread limit cursor, .cacheSet rows) → Behind tr thread limit rows

/-- The answer to a first page: a page of such rows, its cursor written by one of the libraries. -/
def Given (tr : List Step) (thread : UUID) (limit : Nat) (p : Page) : Prop :=
  ∃ rows lib, Behind tr thread limit rows ∧ p = rowsPage lib rows limit

/-! ## One step -/

theorem Sourced.reads (h : Sourced E tr s) {data : List Value}
    (hd : readRecent (s.redis (keyRecent thread)) = some data) :
    ∃ rows, Snapshot tr thread rows ∧ data = cachedRows E.cfg.lib rows := by
  cases hv : s.redis (keyRecent thread) with
  | none =>
    rw [hv] at hd
    cases hd
  | some v =>
    obtain ⟨rows, hrows, rfl⟩ := h.cached thread v hv
    rw [hv] at hd
    cases hd
    exact ⟨rows, hrows, rfl⟩

/-- A page made of what was cached. -/
theorem given_slice {rows : List Row} {limit : Nat} {p : Page} (h : Snapshot tr thread rows)
    (hp : answer E.V (slice (cachedRows E.cfg.lib rows) limit) limit = .page p) :
    Given tr thread limit p := by
  rw [slice_nat, cachedRows, ← List.map_take, answer_json, Reply.page.injEq] at hp
  subst hp
  exact ⟨rows.take limit, E.cfg.lib, ⟨h.take limit, List.length_take_le _ _⟩, rfl⟩

/-- A page made of rows from the database. -/
theorem given_rows {rows : List Row} {limit : Nat} {p : Page} (h : Behind tr thread limit rows)
    (hp : answer E.V (rows.map toValue) limit = .page p) : Given tr thread limit p := by
  rw [answer_toValue, Reply.page.injEq] at hp
  subst hp
  exact ⟨rows, .orjson, h, rfl⟩

/-- What the `SELECT` of this step returns is a snapshot from now on. -/
theorem behind_selected {i limit : Nat} {cursor : Option String} {l : List Row}
    (hr : s.reqs i = some (.list thread limit cursor, .select none)) (hv : validLimit limit)
    (hl : Sql.DescOrder s.table thread l) :
    Behind (tr ++ [⟨s, .step i (.rows l), s'⟩]) thread limit
      (l.take (listLimit (some 1) (some (toString limit))).toNat) := by
  refine ⟨⟨_, List.mem_append_right _ (List.mem_singleton_self _), _,
    (listLimit (some 1) (some (toString limit))).toNat,
    ⟨i, limit, cursor, l, rfl, hr, if_pos hl⟩, by rw [List.take_take, min_self]⟩, ?_⟩
  rw [listLimit_toString hv]
  exact List.length_take_le _ _

/-- **A first page is answered with rows of one query**: the list's own, or one whose rows it has
from the cache. -/
theorem Sourced.answered {i limit : Nat} {input : Input} {phase : Phase} {t : Table}
    {redis : Redis} {p : Page} (h : Sourced E tr s)
    (hr : s.reqs i = some (.list thread limit none, phase))
    (hres : Resumed E s.table s.redis (.list thread limit none) phase input t redis
      (.answered (.page p))) : Given (tr ++ [⟨s, .step i input, s'⟩]) thread limit p := by
  generalize hphase : Phase.answered (.page p) = phase' at hres
  cases hres with
  | @got _ _ _ outcome =>
    unfold afterGet at hphase
    split at hphase
    · rename_i data hread
      split at hphase
      · cases hphase
      · obtain ⟨rows, hrows, rfl⟩ := h.reads hread
        exact given_slice (hrows.mono _) (Phase.answered.inj hphase).symm
    · cases hphase
  | @touched _ _ _ data =>
    obtain ⟨rows, hrows, rfl⟩ := h.touches i thread limit none data hr
    split at hphase
    · exact given_slice (hrows.mono _) (Phase.answered.inj hphase).symm
    · cases hphase
  | selected hl hrows =>
    subst hrows
    split at hphase
    · cases hphase
    · exact given_rows (behind_selected hr (h.valid i _ _ hr) hl) (Phase.answered.inj hphase).symm
  | selectedBefore => cases h.first i thread limit _ hr
  | @stored _ _ _ rows =>
    exact given_rows ((h.fills i thread limit none rows hr).mono _) (Phase.answered.inj hphase).symm

theorem sourced_step {e : Event} (h : Sourced E tr s) (he : next E s e = some s') :
    Sourced E (tr ++ [⟨s, e, s'⟩]) s' := by
  rcases step_cases he with ⟨i, r, -, -, hvalid, rfl⟩ |
    ⟨i, input, r, phase, t, redis, phase', rfl, hr, hres, rfl⟩ | ⟨key, -, rfl⟩
  · refine ⟨?_, ?_, ?_, ?_, ?_⟩
    · intro j r' phase hj
      rcases update_cases hj with ⟨-, heq⟩ | ⟨-, hold⟩
      · cases heq
        exact hvalid
      · exact h.valid j r' phase hold
    · intro j thread limit before hj
      rcases update_cases hj with ⟨-, heq⟩ | ⟨-, hold⟩
      · obtain ⟨rfl, hstart⟩ := Prod.mk.inj heq
        simp only [start] at hstart
        split at hstart
        · cases hstart
        · cases hstart
          rfl
      · exact h.first j thread limit before hold
    · intro thread v hv
      obtain ⟨rows, hrows, hpay⟩ := h.cached thread v hv
      exact ⟨rows, hrows.mono _, hpay⟩
    · intro j thread limit cursor data hj
      rcases update_cases hj with ⟨-, heq⟩ | ⟨-, hold⟩
      · exact absurd (Prod.mk.inj heq).2 start_cacheTouch
      · obtain ⟨rows, hrows, hdata⟩ := h.touches j thread limit cursor data hold
        exact ⟨rows, hrows.mono _, hdata⟩
    · intro j thread limit cursor rows hj
      rcases update_cases hj with ⟨-, heq⟩ | ⟨-, hold⟩
      · exact absurd (Prod.mk.inj heq).2 start_cacheSet
      · exact (h.fills j thread limit cursor rows hold).mono _
  · refine ⟨?_, ?_, ?_, ?_, ?_⟩
    · intro j r' phase'' hj
      rcases update_cases hj with ⟨rfl, heq⟩ | ⟨-, hold⟩
      · cases heq
        exact h.valid j r phase hr
      · exact h.valid j r' phase'' hold
    · intro j thread limit before hj
      rcases update_cases hj with ⟨rfl, heq⟩ | ⟨-, hold⟩
      · obtain ⟨rfl, hphase⟩ := Prod.mk.inj heq
        subst hphase
        exact hres.select
      · exact h.first j thread limit before hold
    · intro thread v hv
      rcases hres.entry hv with hold | ⟨limit, cursor, rows, rfl, rfl, rfl⟩
      · obtain ⟨rows, hrows, hpay⟩ := h.cached thread v hold
        exact ⟨rows, hrows.mono _, hpay⟩
      · have hrows := (h.fills i thread limit cursor rows hr).1
        exact ⟨_, (hrows.mono _).take (keptOf E.cfg rows.length), recentOf_rows E.cfg rows⟩
    · intro j thread limit cursor data hj
      rcases update_cases hj with ⟨rfl, heq⟩ | ⟨-, hold⟩
      · obtain ⟨rfl, rfl⟩ := Prod.mk.inj heq
        obtain ⟨_, _, _, heq', rfl, rfl, hread⟩ := hres.cacheTouch
        cases heq'
        obtain ⟨rows, hrows, hdata⟩ := h.reads hread
        exact ⟨rows, hrows.mono _, hdata⟩
      · obtain ⟨rows, hrows, hdata⟩ := h.touches j thread limit cursor data hold
        exact ⟨rows, hrows.mono _, hdata⟩
    · intro j thread limit cursor rows hj
      rcases update_cases hj with ⟨rfl, heq⟩ | ⟨-, hold⟩
      · obtain ⟨rfl, rfl⟩ := Prod.mk.inj heq
        obtain ⟨_, _, _, l, heq', rfl, rfl, rfl, hl, rfl⟩ := hres.cacheSet
        cases heq'
        exact behind_selected hr (h.valid j _ _ hr) hl
      · exact (h.fills j thread limit cursor rows hold).mono _
  · refine ⟨h.valid, h.first, ?_, ?_, ?_⟩
    · intro thread v hv
      by_cases hk : keyRecent thread = key
      · subst hk
        simp at hv
      · simp only [Function.update_of_ne hk] at hv
        obtain ⟨rows, hrows, hpay⟩ := h.cached thread v hv
        exact ⟨rows, hrows.mono _, hpay⟩
    · intro j thread limit cursor data hj
      obtain ⟨rows, hrows, hdata⟩ := h.touches j thread limit cursor data hj
      exact ⟨rows, hrows.mono _, hdata⟩
    · intro j thread limit cursor rows hj
      exact (h.fills j thread limit cursor rows hj).mono _

theorem sourced_of_run {o : Table} (h : Run (next E) (State.init o) tr s) : Sourced E tr s := by
  refine h.historyInv (C := fun _ => True) (I := fun tr s => Sourced E tr s) ?_ ?_
    fun _ _ => trivial
  · refine ⟨fun _ _ _ hi => ?_, fun _ _ _ _ hi => ?_, fun _ _ hv => ?_, fun _ _ _ _ _ hi => ?_,
      fun _ _ _ _ _ hi => ?_⟩
    · cases hi
    · cases hi
    · cases hv
    · cases hi
    · cases hi
  · exact fun tr m e s' _ hm he _ => sourced_step hm he

/-! ## Whole runs -/

/-- At `t` the first-page list `i` of the thread is answered 200, and had not been answered
before. -/
structure ListAnswered (t : Step) (i : Nat) (thread : UUID) (limit : Nat) (p : Page) : Prop where
  before : ∀ reply, t.pre.reqs i ≠ some (.list thread limit none, .answered reply)
  after : t.post.reqs i = some (.list thread limit none, .answered (.page p))

/-- The step that answers a first page answers it with rows of one query. -/
theorem given_of_step {e : Event} {i limit : Nat} {p : Page} (h : Sourced E tr s)
    (he : next E s e = some s')
    (hbefore : ∀ reply, s.reqs i ≠ some (.list thread limit none, .answered reply))
    (hafter : s'.reqs i = some (.list thread limit none, .answered (.page p))) :
    Given (tr ++ [⟨s, e, s'⟩]) thread limit p := by
  rcases step_cases he with ⟨j, r, rfl, -, -, rfl⟩ |
    ⟨j, input, r, phase, t', redis, phase', rfl, hr, hres, rfl⟩ | ⟨key, rfl, rfl⟩
  · rcases update_cases hafter with ⟨-, heq⟩ | ⟨-, hold⟩
    · obtain ⟨rfl, hstart⟩ := Prod.mk.inj heq
      simp only [start] at hstart
      split at hstart <;> cases hstart
    · exact absurd hold (hbefore _)
  · rcases update_cases hafter with ⟨rfl, heq⟩ | ⟨-, hold⟩
    · obtain ⟨rfl, rfl⟩ := Prod.mk.inj heq
      exact h.answered hr hres
    · exact absurd hold (hbefore _)
  · exact absurd hafter (hbefore _)

/-- **The rows behind a first page are a prefix of one result of the thread's list query**, run at
one instant before the answer. They were live then, in this thread. -/
theorem list_answer_snapshot {o : Table} (h : Run (next E) (State.init o) tr s)
    {tr₁ tr₂ : List Step} {t : Step} (htr : tr = tr₁ ++ t :: tr₂) {i limit : Nat} {p : Page}
    (hans : ListAnswered t i thread limit p) :
    ∃ t₀ ∈ tr₁ ++ [t], ∃ result n lib, Queried t₀ thread result ∧
      (result.take n).length ≤ limit ∧ p = rowsPage lib (result.take n) limit ∧
      ∀ r ∈ result.take n, r ∈ t₀.pre.table.rows ∧ r.threadId = thread ∧ r.deletedAt = none := by
  subst htr
  obtain ⟨hpre, he, -⟩ := h.cut
  obtain ⟨rows, lib, ⟨⟨t₀, ht₀, result, n, hq, rfl⟩, hlen⟩, hp⟩ :=
    given_of_step (sourced_of_run hpre) he hans.before hans.after
  refine ⟨t₀, ht₀, result, n, lib, hq, hlen, hp, fun r hr => ?_⟩
  exact Table.mem_live.mp (hq.live (List.mem_of_mem_take hr))

/-- A list that fills the cache, a deletion of the message, and a list answered before the cache
is emptied: its message was there when the first list selected it. -/
def hitBehindDelete : List Event :=
  [.arrive 0 (.list Sample.thread 50 none), .step 0 (.redis .done), .step 0 (.rows [Sample.row]),
    .step 0 (.redis .done),
    .arrive 1 (.write (.deleteMessage Sample.thread Sample.message Sample.user)),
    .step 1 (.db ⟨Sample.minute 1, Sample.message⟩), .step 1 (.db ⟨Sample.minute 1, Sample.message⟩),
    .arrive 2 (.list Sample.thread 50 none), .step 2 (.redis .done), .step 2 (.redis .done)]

theorem list_answer_snapshot_hit : ∃ tr s t tr₁ p, tr.map Transition.event = hitBehindDelete ∧
    Run (next sampleEnv) (State.init Sample.table) tr s ∧ tr = tr₁ ++ [t] ∧
    ListAnswered t 2 Sample.thread 50 p ∧
    ∃ t₀ ∈ tr₁ ++ [t], ∃ result n lib, Queried t₀ Sample.thread result ∧
      (result.take n).length ≤ 50 ∧ p = rowsPage lib (result.take n) 50 ∧
      ∀ r ∈ result.take n, r ∈ t₀.pre.table.rows ∧ r.threadId = Sample.thread ∧
        r.deletedAt = none := by
  have hrun : (exec (next sampleEnv) (State.init Sample.table) hitBehindDelete).isSome := by
    decide +kernel
  obtain ⟨s, hs⟩ := Option.isSome_iff_exists.mp hrun
  obtain ⟨htr, h⟩ := Run.of_exec hs
  obtain ⟨t, hlast⟩ : ∃ t, (trace (next sampleEnv) (State.init Sample.table)
      hitBehindDelete).getLast? = some t := ⟨_, rfl⟩
  have hsplit := List.dropLast_append_getLast? t hlast
  have hans : ListAnswered t 2 Sample.thread 50 (rowsPage .orjson [Sample.row] 50) := by
    cases hlast
    refine ⟨fun reply hb => ?_, rfl⟩
    cases hb
  exact ⟨_, s, t, _, _, htr, h, hsplit.symm, hans, list_answer_snapshot h hsplit.symm hans⟩

end MessagesApp.Handlers
