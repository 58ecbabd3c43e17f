import MessagesApp.Service.Coherence

/-!
# One list and whatever the servers do to it

A handler alone, from its arrival to its answer: at each of its awaits the table, Redis and the
outcome of the command may be anything (`Moment`). What a Redis that misbehaves or a cursor that
was made up can do to a list is a statement about `served`; a list in a run of the whole service
is served so (`served_of_run`), whatever else the run does. So a fact about all lists of moments is
one about all runs, without an invariant.

`list_survives_iff` is the account of a list and its cache. Every miss goes to the database and
comes back with a page: Redis raising, an absent entry, a text that is no JSON, JSON that is no
list, a failed `EXPIRE` (`served_database`). A hit does not: `get_recent_messages` hands on any
list it has read, and the handler makes messages of its items outside any `try` (`API.py` 202), so
the answer is a page exactly where those items read as messages (`served_fromCache`,
`answer_page`).

The database is healthy here, and so is the list of rows it returns. Redis may hold what anybody
has written under the key of the thread, which is a name that others can make.
-/

set_option autoImplicit false

namespace MessagesApp.Handlers

open Py Lib Api Cache Controller

variable {E : Env} {thread : UUID}

/-- What a list finds at one of its awaits. The database is healthy: it orders the rows as its
`ORDER BY` says. The rest is free, and may be another thing at the next await. -/
structure Moment (thread : UUID) where
  table : Table
  redis : Redis
  outcome : RedisOutcome
  order : List Row
  sorted : Sql.DescOrder table thread order

/-- What a moment gives to a list. -/
def Moment.input (m : Moment thread) : Phase → Input
  | .select _ => .rows m.order
  | _ => .redis m.outcome

/-- What a request waits for behind this moment. One that is answered waits for nothing more, and
ignores the moments that are left. -/
def await (E : Env) (r : Request) (phase : Phase) (m : Moment thread) : Phase :=
  match resume E m.table m.redis r phase (m.input phase) with
  | some (_, _, phase') => phase'
  | none => phase

/-- The list from its arrival through some moments. Four are enough for an answer, whatever they
are. -/
def served (E : Env) (r : Request) (ms : List (Moment thread)) : Phase :=
  ms.foldl (await E r) (start E r)

@[simp] theorem served_append (r : Request) (ms : List (Moment thread)) (m : Moment thread) :
    served E r (ms ++ [m]) = await E r (served E r ms) m := by
  rw [served, List.foldl_append]
  rfl

@[simp] theorem await_answered (r : Request) (reply : Reply) (m : Moment thread) :
    await E r (.answered reply) m = .answered reply := by
  cases r <;> rfl

/-! ## In a run of the service -/

/-- The servers of a step are a moment of the list that made it. -/
theorem moment_of_resume {t t' : Table} {redis redis' : Redis} {limit : Nat}
    {cursor : Option String} {phase phase' : Phase} {input : Input}
    (h : resume E t redis (.list thread limit cursor) phase input = some (t', redis', phase')) :
    ∃ m : Moment thread, await E (.list thread limit cursor) phase m = phase' := by
  obtain ⟨l, hl⟩ := Sql.exists_descOrder t thread
  have hredis : ∀ outcome, (∀ before, phase ≠ .select before) → input = .redis outcome →
      ∃ m : Moment thread, await E (.list thread limit cursor) phase m = phase' := by
    intro outcome hne hin
    subst hin
    refine ⟨⟨t, redis, outcome, l, hl⟩, ?_⟩
    have hinput : Moment.input ⟨t, redis, outcome, l, hl⟩ phase = .redis outcome := by
      unfold Moment.input
      split
      · exact absurd rfl (hne _)
      · rfl
    rw [await, hinput, h]
  cases phase with
  | select before =>
    cases input with
    | rows l' =>
      cases before with
      | none =>
        have hl' : Sql.DescOrder t thread l' := by
          cases resumed_of_resume h with
          | selected hl' => exact hl'
        exact ⟨⟨t, redis, .done, l', hl'⟩, by simp only [await, Moment.input, h]⟩
      | some before =>
        -- the query behind a cursor has one order only
        refine ⟨⟨t, redis, .done, l, hl⟩, ?_⟩
        have hsame : resume E t redis (.list thread limit cursor) (.select (some before)) (.rows l) =
            resume E t redis (.list thread limit cursor) (.select (some before)) (.rows l') := rfl
        simp only [await, Moment.input, hsame, h]
    | redis => cases h
    | db => cases h
    | published => cases h
  | cacheGet =>
    cases input with
    | redis outcome => exact hredis outcome (fun _ => by simp) rfl
    | rows => cases h
    | db => cases h
    | published => cases h
  | cacheTouch =>
    cases input with
    | redis outcome => exact hredis outcome (fun _ => by simp) rfl
    | rows => cases h
    | db => cases h
    | published => cases h
  | cacheSet =>
    cases input with
    | redis outcome => exact hredis outcome (fun _ => by simp) rfl
    | rows => cases h
    | db => cases h
    | published => cases h
  | statement => cases input <;> cases h
  | publish => cases input <;> cases h
  | cacheDelete => cases input <;> cases h
  | answered => cases input <;> cases h

/-- A list of a run is served by the moments of its own steps. What the others did in between is in
what it finds. -/
theorem served_of_run {s₀ s : State} {tr : List Step} (h : Run (next E) s₀ tr s) {i limit : Nat}
    {cursor : Option String} (hnew : s₀.reqs i = none) {phase : Phase}
    (hi : s.reqs i = some (.list thread limit cursor, phase)) :
    ∃ ms : List (Moment thread), served E (.list thread limit cursor) ms = phase := by
  induction h generalizing phase with
  | nil =>
    rw [hnew] at hi
    cases hi
  | @snoc tr s s' e _ he ih =>
    rcases next_cases he with ⟨j, r, rfl, -, -, rfl⟩ |
      ⟨j, input, r, phase', t, redis, phase'', rfl, hr, hres, rfl⟩ | ⟨key, -, rfl⟩
    · rcases update_cases hi with ⟨-, heq⟩ | ⟨-, hold⟩
      · obtain ⟨rfl, rfl⟩ := Prod.mk.inj heq
        exact ⟨[], rfl⟩
      · exact ih hold
    · rcases update_cases hi with ⟨rfl, heq⟩ | ⟨-, hold⟩
      · obtain ⟨rfl, rfl⟩ := Prod.mk.inj heq
        obtain ⟨ms, hms⟩ := ih hr
        obtain ⟨m, hm⟩ := moment_of_resume hres
        exact ⟨ms ++ [m], by rw [served_append, hms, hm]⟩
      · exact ih hold
    · exact ih hi

/-! ## Its awaits, one by one -/

variable {limit : Nat} {cursor : Option String} (m : Moment thread)

@[simp] theorem await_cacheGet : await E (.list thread limit cursor) .cacheGet m =
    afterGet E limit m.outcome (m.redis (keyRecent thread)) := rfl

@[simp] theorem await_cacheTouch (data : List Value) :
    await E (.list thread limit cursor) (.cacheTouch data) m =
      if m.outcome = .done then .answered (answer E.V (slice data limit) limit)
      else .select none := rfl

@[simp] theorem await_cacheSet (rows : List Row) :
    await E (.list thread limit cursor) (.cacheSet rows) m =
      .answered (.page (rowsPage .orjson rows limit)) := by
  rw [← answer_toValue E.V]
  rfl

theorem await_select (hlimit : validLimit limit) :
    await E (.list thread limit cursor) (.select none) m =
      if E.cfg.enabled then .cacheSet (m.order.take limit)
      else .answered (.page (rowsPage .orjson (m.order.take limit) limit)) := by
  have hrows : listMessages m.table m.order thread (some 1) (some (toString limit)) =
      some (m.order.take limit) := by
    rw [listMessages, Sql.listThreadMessagesNotDeletedDescFirst, if_pos m.sorted,
      listLimit_toString hlimit]
  simp only [await, Moment.input, resume, afterSelect, hrows, Option.map_some, answer_toValue]

/-! ## Whatever Redis does -/

/-- A page as `MessagesPageOut` promises it: no more than was asked for, and the flag as the code
has it. -/
def WellFormed (limit : Nat) (p : Page) : Prop :=
  p.items.length ≤ limit ∧ p.hasMore = (p.items.length == limit)

/-- A handler that goes to the database answers with a page, in two awaits at most. -/
theorem select_answers (E : Env) (cursor : Option String) (m : Moment thread)
    (hlimit : validLimit limit) (m' : Moment thread) :
    ∃ p, await E (.list thread limit cursor)
      (await E (.list thread limit cursor) (.select none) m) m' = .answered (.page p) ∧
      WellFormed limit p := by
  refine ⟨rowsPage .orjson (m.order.take limit) limit, ?_, ?_, ?_⟩
  · rw [await_select m hlimit]
    split
    · rw [await_cacheSet]
    · rw [await_answered]
  · rw [rowsPage_items, List.length_map]
    exact List.length_take_le _ _
  · rw [rowsPage_items, List.length_map]
    rfl

theorem mapM_isSome {α β : Type} {f : α → Option β} {l : List α} :
    (∃ l', l.mapM f = some l') ↔ ∀ a ∈ l, f a ≠ none := by
  induction l with
  | nil => simp
  | cons a l ih =>
    rw [List.forall_mem_cons, ← ih]
    cases ha : f a with
    | none => simp [List.mapM_cons, ha]
    | some b =>
      cases hl : l.mapM f with
      | none => simp [List.mapM_cons, ha, hl]
      | some l' => simp [List.mapM_cons, ha, hl]

theorem length_mapM {α β : Type} {f : α → Option β} {l : List α} {l' : List β}
    (h : l.mapM f = some l') : l'.length = l.length := by
  induction l generalizing l' with
  | nil =>
    cases h
    rfl
  | cons a l ih =>
    cases ha : f a with
    | none => simp [List.mapM_cons, ha] at h
    | some b =>
      cases hl : l.mapM f with
      | none => simp [List.mapM_cons, ha, hl] at h
      | some l₁ =>
        simp only [List.mapM_cons, ha, hl, Option.pure_def, Option.bind_eq_bind, Option.bind_some,
          Option.some.injEq] at h
        subst h
        rw [List.length_cons, List.length_cons, ih hl]

/-- The answer made of a list is a page where each of its items is a message. -/
theorem answer_page {V : Pydantic} {rows : List Value} (hlen : rows.length ≤ limit) :
    (∃ p, answer V rows limit = .page p ∧ WellFormed limit p) ↔
      ∀ v ∈ rows, toMessageOut V v ≠ none := by
  rw [← mapM_isSome]
  unfold answer pageOf
  cases hitems : rows.mapM (toMessageOut V) with
  | none => simp
  | some items =>
    have hl := length_mapM hitems
    simp [WellFormed, hl, hlen]

/-- The list a request answers with instead of asking the database: what `client.get` gave, if
`client.expire` raises nothing. A condition on the settings and on what Redis does. -/
def FromCache (E : Env) (limit : Nat) (m m' : Moment thread) (data : List Value) : Prop :=
  ((limit : Int) ≤ E.cfg.CACHE_MAX_ITEMS ∧ E.cfg.enabled = true) ∧ m.outcome = .done ∧
    readRecent (m.redis (keyRecent thread)) = some data ∧
    (E.cfg.CACHE_TOUCH_ON_HIT = true ∧ 0 < E.cfg.CACHE_TTL_SECONDS → m'.outcome = .done)

/-- As many of its items as were asked for are messages. Where the request does not answer from the
cache, nothing is asked. -/
def Readable (E : Env) (limit : Nat) (m m' : Moment thread) : Prop :=
  ∀ data, FromCache E limit m m' data → ∀ v ∈ data.take limit, toMessageOut E.V v ≠ none

theorem served_four (r : Request) (m₀ m₁ m₂ m₃ : Moment thread) :
    served E r [m₀, m₁, m₂, m₃] =
      await E r (await E r (await E r (await E r (start E r) m₀) m₁) m₂) m₃ := rfl

variable {m₀ m₁ m₂ m₃ : Moment thread}

/-- A hit is answered with the beginning of the list that was read. -/
theorem served_fromCache {data : List Value} (h : FromCache E limit m₀ m₁ data) :
    served E (.list thread limit none) [m₀, m₁, m₂, m₃] =
      .answered (answer E.V (data.take limit) limit) := by
  obtain ⟨hasked, hget, hread, htouch⟩ := h
  have hstart : start E (.list thread limit none) = .cacheGet := if_pos hasked
  rw [served_four, hstart, await_cacheGet]
  simp only [afterGet, hget, hread]
  split
  · rename_i hon
    rw [await_cacheTouch, if_pos (htouch hon), slice_nat, await_answered, await_answered]
  · rw [slice_nat, await_answered, await_answered, await_answered]

/-- Everything else goes to the database, and is answered with a page whatever Redis does to the
fill. -/
theorem served_database (hlimit : validLimit limit) (h : ∀ data, ¬ FromCache E limit m₀ m₁ data) :
    ∃ p, served E (.list thread limit none) [m₀, m₁, m₂, m₃] = .answered (.page p) ∧
      WellFormed limit p := by
  rw [served_four]
  -- to the database at its first, its second or its third await
  have hfirst : ∃ p, await E (.list thread limit none) (await E (.list thread limit none)
      (await E (.list thread limit none) (await E (.list thread limit none) (.select none) m₀) m₁)
      m₂) m₃ = .answered (.page p) ∧ WellFormed limit p := by
    obtain ⟨p, hp, hwell⟩ := select_answers E none m₀ hlimit m₁
    exact ⟨p, by rw [hp, await_answered, await_answered], hwell⟩
  have hsecond : ∃ p, await E (.list thread limit none) (await E (.list thread limit none)
      (await E (.list thread limit none) (.select none) m₁) m₂) m₃ = .answered (.page p) ∧
      WellFormed limit p := by
    obtain ⟨p, hp, hwell⟩ := select_answers E none m₁ hlimit m₂
    exact ⟨p, by rw [hp, await_answered], hwell⟩
  have hthird := select_answers E none m₂ hlimit m₃
  by_cases hasked : (limit : Int) ≤ E.cfg.CACHE_MAX_ITEMS ∧ E.cfg.enabled = true
  · have hstart : start E (.list thread limit none) = .cacheGet := if_pos hasked
    rw [hstart, await_cacheGet]
    cases hget : m₀.outcome with
    | raised applied => exact hsecond
    | done =>
      cases hread : readRecent (m₀.redis (keyRecent thread)) with
      | none =>
        simp only [afterGet, hread]
        exact hsecond
      | some data =>
        simp only [afterGet, hread]
        split
        · rename_i hon
          have hraised : m₁.outcome ≠ .done := fun hdone =>
            h data ⟨hasked, hget, hread, fun _ => hdone⟩
          rw [await_cacheTouch, if_neg hraised]
          exact hthird
        · rename_i hoff
          exact absurd ⟨hasked, hget, hread, fun hon => absurd hon hoff⟩ (h data)
  · have hstart : start E (.list thread limit none) = .select none := if_neg hasked
    rw [hstart]
    exact hfirst

/-- **A list survives its cache where what it takes from it reads as messages.** On the way to the
database nothing that Redis holds or raises keeps it from a page. -/
theorem list_survives_iff (hlimit : validLimit limit) (m₀ m₁ m₂ m₃ : Moment thread) :
    (∃ p, served E (.list thread limit none) [m₀, m₁, m₂, m₃] = .answered (.page p) ∧
      WellFormed limit p) ↔ Readable E limit m₀ m₁ := by
  by_cases hcache : ∃ data, FromCache E limit m₀ m₁ data
  · obtain ⟨data, hdata⟩ := hcache
    rw [served_fromCache hdata]
    have hpage := answer_page (V := E.V) (List.length_take_le limit data)
    simp only [Phase.answered.injEq]
    rw [hpage]
    constructor
    · intro hall data' hdata'
      have hsame : data = data' := Option.some.inj (hdata.2.2.1.symm.trans hdata'.2.2.1)
      exact hsame ▸ hall
    · exact fun hreadable => hreadable data hdata
  · refine ⟨fun _ data hdata => absurd ⟨data, hdata⟩ hcache, fun _ => ?_⟩
    exact served_database hlimit fun data hdata => hcache ⟨data, hdata⟩

/-- Redis up, with nothing in it but an entry of the thread, and the table of one message. -/
def holding (v : Stored) : Moment Sample.thread where
  table := Sample.table
  redis := Function.update (fun _ => none) (keyRecent Sample.thread) (some v)
  outcome := .done
  order := [Sample.row]
  sorted := by decide

theorem list_survives_text : ∃ p, served sampleEnv (.list Sample.thread 50 none)
    [holding (.text "]"), holding (.text "]"), holding (.text "]"), holding (.text "]")] =
      .answered (.page p) ∧ WellFormed 50 p := by
  refine (list_survives_iff ⟨by decide, by decide⟩ _ _ _ _).mpr fun data hdata => ?_
  have hread : readRecent ((holding (.text "]")).redis (keyRecent Sample.thread)) = none := by
    simp [holding, readRecent, loads]
  have hsome := hdata.2.2.1
  rw [hread] at hsome
  cases hsome

/-- The text `[1]`: a list of no messages, and an exception that leaves the handler. -/
theorem list_broken_by_cache :
    served sampleEnv (.list Sample.thread 50 none)
      [holding (.json (.list [.int 1])), holding (.json (.list [.int 1])),
        holding (.json (.list [.int 1])), holding (.json (.list [.int 1]))] = .answered .raised ∧
    listFirst sampleEnv.V Sample.table [Sample.row] Sample.thread 50 =
      some (.page (rowsPage .orjson [Sample.row] 50)) := by
  refine ⟨?_, listFirst_eq (by decide) ⟨by decide, by decide⟩⟩
  have hcache : FromCache sampleEnv 50 (holding (.json (.list [.int 1])))
      (holding (.json (.list [.int 1]))) [.int 1] := by
    refine ⟨⟨by decide, rfl⟩, rfl, ?_, fun _ => rfl⟩
    simp [holding, readRecent, loads]
  rw [served_fromCache hcache]
  rfl

end MessagesApp.Handlers
