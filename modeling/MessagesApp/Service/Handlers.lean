import MessagesApp.Service.Cache
import MessagesApp.Service.RowHistory

/-!
# The handlers, await by await

Every request the service has in hand, the table and Redis. A handler runs from one `await` to
the next without interruption, so a step is one command of Redis, one statement, or the end of
the publication, together with the code behind it up to the next `await`. Entries of Redis may
expire between any two steps.

`Phase` is the await a request stands at, with what it has in hand there; `start`, `afterGet`,
`afterSelect`, `afterStatement` and `invalidate` are the stretches of code between two awaits
(`API.py` 90–230, `cache.py` 40–99), and `resume` puts them together. The statements of a write are
those of `Controller`, one at a time. What the servers do is the input of a step: the order of a
list's rows, the `NOW()` of a statement, whether a command of Redis raises, and whether it was
carried out all the same.

`Resumed` says once what a step of a request can do, and the invariants of `Coherence`,
`Snapshots`, `CacheAgreement` and `Uncached` are case analyses over it. What the writes rely on
between their two statements is `Asserted`, taken over from `Controller`.

Requests here have passed FastAPI's checks, and the settings have been read and parse. Two ways to
fail are left out. A write statement that the database refuses, as it does a content with U+0000,
is answered 500 and writes nothing. A `SendEvent` that raises, as it does where the settings of the
queue do not parse, is answered 500 behind the commit and skips the deletion of the entry; what is
said here of the cache is about a service whose settings do. Both are in `Atomicity`. A command
that never ends keeps its request waiting, which a run may do anyway.
-/

set_option autoImplicit false

namespace MessagesApp.Handlers

open Py Lib Api Cache Controller

/-- A request that has reached its handler, with its arguments read and its user known. -/
inductive Request
  | list (thread : UUID) (limit : Nat) (cursor : Option String)
  | write (c : Call)
deriving DecidableEq

def Request.thread : Request → UUID
  | .list thread .. => thread
  | .write c => c.thread

/-- What FastAPI lets through to the handler. -/
def Request.valid : Request → Prop
  | .list _ limit _ => validLimit limit
  | .write _ => True

instance : DecidablePred Request.valid := fun r => by
  cases r with
  | list => exact inferInstanceAs (Decidable (_ ∧ _))
  | write => exact .isTrue trivial

/-- What a request waits for, with what it will use when it goes on. Between two phases nothing else
runs. -/
inductive Phase
  /-- `client.get` -/
  | cacheGet
  /-- `client.expire`, with the list that was read -/
  | cacheTouch (data : List Value)
  /-- the `SELECT` of a list -/
  | select (before : Option (ParsedDateTime × UUID))
  /-- `client.set`, with the rows that were selected -/
  | cacheSet (rows : List Row)
  /-- a statement of the controller -/
  | statement (pc : Pc)
  /-- the executor that publishes the event -/
  | publish (row : Row)
  /-- `client.delete`, with the row that was written -/
  | cacheDelete (row : Row)
  | answered (r : Reply)

/-- How a command of Redis ends. One that raises may have been carried out all the same, since the
answer can be lost and not the command. -/
inductive RedisOutcome
  | done
  | raised (applied : Bool)
deriving DecidableEq

def RedisOutcome.applied : RedisOutcome → Bool
  | .done => true
  | .raised applied => applied

/-- What the servers give to a step. -/
inductive Input
  | redis (outcome : RedisOutcome)
  /-- an order of the thread's rows -/
  | rows (l : List Row)
  | db (x : Supplied)
  | published

abbrev Redis := String → Option Stored

/-- What the service runs with: its settings, pydantic, and the text of a refused parameter. None of
it changes in a run. -/
structure Env where
  cfg : Settings
  V : Pydantic
  bindError : ParsedDateTime → String

/-- A handler up to its first `await`. The cache is looked at for a first page whose limit it can
hold, and a cursor that does not parse is answered at once. -/
def start (E : Env) : Request → Phase
  | .list _ limit none =>
      if (limit : Int) ≤ E.cfg.CACHE_MAX_ITEMS ∧ E.cfg.enabled then .cacheGet else .select none
  | .list _ _ (some cursor) =>
      match requestCursor (some cursor) with
      | .error e => .answered (.http e)
      | .ok before => .select before
  | .write _ => .statement .begin

/-- The answer to a write that succeeded. -/
def writeReply (V : Pydantic) (c : Call) (row : Row) : Reply :=
  match c with
  | .createMessage .. => messageReply V 201 row
  | .updateMessage .. => messageReply V 200 row
  | .deleteMessage .. => .noContent
where
  messageReply (V : Pydantic) (status : Nat) (row : Row) : Reply :=
    match toMessageOut V (toValue row) with
    | some m => .message status m
    | none => .raised

/-- `invalidate_thread` up to its `await`. -/
def invalidate (E : Env) (c : Call) (row : Row) : Phase :=
  if E.cfg.enabled then .cacheDelete row else .answered (writeReply E.V c row)

/-- A write behind the statement that answered. A create goes on to its publication, the others to
the deletion of the cached list. -/
def afterStatement (E : Env) (c : Call) : Progress Pc Result → Phase
  | .running pc => .statement pc
  | .answered (.error e) => .answered (.http (mapErrorToHttp e))
  | .answered (.ok row) => match c with
      | .createMessage .. => .publish row
      | _ => invalidate E c row

/-- `get_recent_messages` behind `client.get`. Whatever is no list, and whatever raises, is a miss;
a list is cut to what was asked for. -/
def afterGet (E : Env) (limit : Nat) (outcome : RedisOutcome) (val : Option Stored) : Phase :=
  match outcome, readRecent val with
  | .done, some data =>
      if E.cfg.CACHE_TOUCH_ON_HIT ∧ 0 < E.cfg.CACHE_TTL_SECONDS then .cacheTouch data
      else .answered (answer E.V (slice data limit) limit)
  | _, _ => .select none

/-- The `SELECT` of a list and the code behind it. Only a first page is cached, and its rows are
those of this one statement. -/
def afterSelect (E : Env) (t : Table) (thread : UUID) (limit : Nat)
    (before : Option (ParsedDateTime × UUID)) (l : List Row) : Option Phase :=
  match before with
  | none =>
      (listMessages t l thread (some 1) (some (toString limit))).map fun rows =>
        if E.cfg.enabled then .cacheSet rows
        else .answered (answer E.V (rows.map toValue) limit)
  | some (ts, mid) =>
      match listMessagesBefore E.bindError t thread ts mid limit with
      | .error e => some (.answered (.http (mapErrorToHttp e)))
      | .ok rows => some (.answered (answer E.V (rows.map toValue) limit))

/-- A step of a request: what it does to the table and to Redis, and what it waits for next. `none`
is an input that the phase does not take. A command that raises is swallowed by `cache.py`, so that
the handler goes on in the same way with or without the entry. -/
def resume (E : Env) (t : Table) (redis : Redis) :
    Request → Phase → Input → Option (Table × Redis × Phase)
  | .list thread limit _, .cacheGet, .redis outcome =>
      some (t, redis, afterGet E limit outcome (redis (keyRecent thread)))
  | .list _ limit _, .cacheTouch data, .redis outcome =>
      some (t, redis, if outcome = .done then .answered (answer E.V (slice data limit) limit)
        else .select none)
  | .list thread limit _, .select before, .rows l =>
      (afterSelect E t thread limit before l).map fun phase => (t, redis, phase)
  | .list thread limit _, .cacheSet rows, .redis outcome =>
      some (t,
        if outcome.applied then
          Function.update redis (keyRecent thread) (some (recentOf E.cfg (rows.map toValue)))
        else redis,
        .answered (answer E.V (rows.map toValue) limit))
  | .write c, .statement pc, .db x =>
      (Controller.statement c pc x t).map fun (t', g) => (t', redis, afterStatement E c g)
  | .write c, .publish row, .published => some (t, redis, invalidate E c row)
  | .write c, .cacheDelete row, .redis outcome =>
      some (t, if outcome.applied then Function.update redis (keyRecent c.thread) none else redis,
        .answered (writeReply E.V c row))
  | _, _, _ => none

/-- The table, what Redis holds, and every request that came with its phase. An answered request
stays, with its reply. -/
structure State where
  table : Table
  redis : Redis
  reqs : Nat → Option (Request × Phase)

inductive Event
  | arrive (i : Nat) (r : Request)
  | step (i : Nat) (input : Input)
  | expire (key : String)

/-- The table `o`, an empty Redis, no requests. -/
def State.init (o : Table) : State := ⟨o, fun _ => none, fun _ => none⟩

/-- The interleaving: a request arrives under a number that is free, a request makes its next step
on whatever the servers give it, or an entry expires. Every order is possible, and every number of
requests. A statement of a write that the database refuses is no step here, nor is a `SendEvent`
that raises: a publication always ends, and the request goes on to delete the entry. -/
def next (E : Env) (s : State) : Event → Option State
  | .arrive i r =>
      if s.reqs i = none ∧ r.valid then
        some { s with reqs := Function.update s.reqs i (some (r, start E r)) }
      else none
  | .step i input =>
      match s.reqs i with
      | some (r, phase) => (resume E s.table s.redis r phase input).map fun (t, redis, phase') =>
          ⟨t, redis, Function.update s.reqs i (some (r, phase'))⟩
      | none => none
  | .expire key => some { s with redis := Function.update s.redis key none }

abbrev Step := Transition State Event

variable {E : Env} {s s' : State}

/-- Everything a step can be. The proofs about runs begin with it. -/
theorem next_cases {e : Event} (h : next E s e = some s') :
    (∃ i r, e = .arrive i r ∧ s.reqs i = none ∧ r.valid ∧
      s' = { s with reqs := Function.update s.reqs i (some (r, start E r)) }) ∨
    (∃ i input r phase t redis phase', e = .step i input ∧ s.reqs i = some (r, phase) ∧
      resume E s.table s.redis r phase input = some (t, redis, phase') ∧
      s' = ⟨t, redis, Function.update s.reqs i (some (r, phase'))⟩) ∨
    (∃ key, e = .expire key ∧ s' = { s with redis := Function.update s.redis key none }) := by
  cases e with
  | arrive i r =>
    simp only [next] at h
    split at h
    · rename_i hi
      exact Or.inl ⟨i, r, rfl, hi.1, hi.2, by simpa using h.symm⟩
    · cases h
  | step i input =>
    simp only [next] at h
    split at h
    · rename_i r phase hr
      obtain ⟨⟨t, redis, phase'⟩, hres, rfl⟩ := Option.map_eq_some_iff.mp h
      exact Or.inr (Or.inl ⟨i, input, r, phase, t, redis, phase', rfl, hr, hres, rfl⟩)
    · cases h
  | expire key => exact Or.inr (Or.inr ⟨key, rfl, by simpa [next] using h.symm⟩)

/-! ## What a request waits for next -/

theorem start_cases {r : Request} : start E r = .cacheGet ∨
    (∃ before, start E r = .select before) ∨ (∃ reply, start E r = .answered reply) ∨
    ∃ c, r = .write c ∧ start E r = .statement .begin := by
  unfold start
  split
  · split
    · exact Or.inl rfl
    · exact Or.inr (Or.inl ⟨_, rfl⟩)
  · split
    · exact Or.inr (Or.inr (Or.inl ⟨_, rfl⟩))
    · exact Or.inr (Or.inl ⟨_, rfl⟩)
  · exact Or.inr (Or.inr (Or.inr ⟨_, rfl, rfl⟩))

theorem start_cacheSet {r : Request} {rows : List Row} : start E r ≠ .cacheSet rows := by
  intro h
  rcases start_cases with hp | ⟨_, hp⟩ | ⟨_, hp⟩ | ⟨_, -, hp⟩ <;> cases h.symm.trans hp

theorem start_cacheTouch {r : Request} {data : List Value} : start E r ≠ .cacheTouch data := by
  intro h
  rcases start_cases with hp | ⟨_, hp⟩ | ⟨_, hp⟩ | ⟨_, -, hp⟩ <;> cases h.symm.trans hp

theorem afterGet_cases {limit : Nat} {outcome : RedisOutcome} {val : Option Stored} :
    (∃ data, readRecent val = some data ∧ afterGet E limit outcome val = .cacheTouch data) ∨
    afterGet E limit outcome val = .select none ∨
    ∃ reply, afterGet E limit outcome val = .answered reply := by
  unfold afterGet
  split
  · rename_i data hd
    split
    · exact Or.inl ⟨data, hd, rfl⟩
    · exact Or.inr (Or.inr ⟨_, rfl⟩)
  · exact Or.inr (Or.inl rfl)

theorem invalidate_cases {c : Call} {row : Row} : invalidate E c row = .cacheDelete row ∨
    invalidate E c row = .answered (writeReply E.V c row) := by
  unfold invalidate
  split
  · exact Or.inl rfl
  · exact Or.inr rfl

theorem afterStatement_cases {c : Call} {g : Progress Pc Result} :
    (∃ pc, g = .running pc ∧ afterStatement E c g = .statement pc) ∨
    (∃ row, afterStatement E c g = .publish row) ∨
    (∃ row, afterStatement E c g = .cacheDelete row) ∨
    ∃ reply, afterStatement E c g = .answered reply := by
  unfold afterStatement
  split
  · exact Or.inl ⟨_, rfl, rfl⟩
  · exact Or.inr (Or.inr (Or.inr ⟨_, rfl⟩))
  · split
    · exact Or.inr (Or.inl ⟨_, rfl⟩)
    · rcases invalidate_cases with hp | hp
      · exact Or.inr (Or.inr (Or.inl ⟨_, hp⟩))
      · exact Or.inr (Or.inr (Or.inr ⟨_, hp⟩))

/-! ## What a step of a request does -/

/-- Everything a step of a request can do, one case for each await. With the table and Redis before
and after, so that a proof by cases needs nothing of `resume`. -/
inductive Resumed (E : Env) (t : Table) (redis : Redis) :
    Request → Phase → Input → Table → Redis → Phase → Prop
  | got {thread : UUID} {limit : Nat} {cursor : Option String} {outcome : RedisOutcome} :
      Resumed E t redis (.list thread limit cursor) .cacheGet (.redis outcome) t redis
        (afterGet E limit outcome (redis (keyRecent thread)))
  | touched {thread : UUID} {limit : Nat} {cursor : Option String} {data : List Value}
      {outcome : RedisOutcome} :
      Resumed E t redis (.list thread limit cursor) (.cacheTouch data) (.redis outcome) t redis
        (if outcome = .done then .answered (answer E.V (slice data limit) limit) else .select none)
  | selected {thread : UUID} {limit : Nat} {cursor : Option String} {l rows : List Row} :
      Sql.DescOrder t thread l →
      rows = l.take (listLimit (some 1) (some (toString limit))).toNat →
      Resumed E t redis (.list thread limit cursor) (.select none) (.rows l) t redis
        (if E.cfg.enabled then .cacheSet rows else .answered (answer E.V (rows.map toValue) limit))
  | selectedBefore {thread : UUID} {limit : Nat} {cursor : Option String}
      {before : ParsedDateTime × UUID} {l : List Row} {reply : Reply} :
      Resumed E t redis (.list thread limit cursor) (.select (some before)) (.rows l) t redis
        (.answered reply)
  | stored {thread : UUID} {limit : Nat} {cursor : Option String} {rows : List Row}
      {outcome : RedisOutcome} :
      Resumed E t redis (.list thread limit cursor) (.cacheSet rows) (.redis outcome) t
        (if outcome.applied then
          Function.update redis (keyRecent thread) (some (recentOf E.cfg (rows.map toValue)))
        else redis)
        (.answered (answer E.V (rows.map toValue) limit))
  | ran {c : Call} {pc : Pc} {x : Supplied} {t' : Table} {g : Progress Pc Result} :
      Did x t c pc t' g →
      Resumed E t redis (.write c) (.statement pc) (.db x) t' redis (afterStatement E c g)
  | published {c : Call} {row : Row} :
      Resumed E t redis (.write c) (.publish row) .published t redis (invalidate E c row)
  | invalidated {c : Call} {row : Row} {outcome : RedisOutcome} :
      Resumed E t redis (.write c) (.cacheDelete row) (.redis outcome) t
        (if outcome.applied then Function.update redis (keyRecent c.thread) none else redis)
        (.answered (writeReply E.V c row))

theorem resumed_of_resume {t t' : Table} {redis redis' : Redis} {r : Request}
    {phase phase' : Phase} {input : Input}
    (h : resume E t redis r phase input = some (t', redis', phase')) :
    Resumed E t redis r phase input t' redis' phase' := by
  unfold resume at h
  split at h
  · cases h
    exact .got
  · cases h
    exact .touched
  · rename_i thread limit cursor before l
    obtain ⟨q, hq, he⟩ := Option.map_eq_some_iff.mp h
    cases he
    cases before with
    | none =>
      obtain ⟨rows, hrows, rfl⟩ := Option.map_eq_some_iff.mp hq
      unfold listMessages Sql.listThreadMessagesNotDeletedDescFirst at hrows
      split at hrows
      · rename_i hl
        cases hrows
        exact .selected hl rfl
      · cases hrows
    | some before =>
      obtain ⟨ts, mid⟩ := before
      simp only [afterSelect] at hq
      split at hq
      · cases hq
        exact .selectedBefore
      · cases hq
        exact .selectedBefore
  · cases h
    exact .stored
  · obtain ⟨q, hq, he⟩ := Option.map_eq_some_iff.mp h
    cases he
    exact .ran (statement_did hq)
  · cases h
    exact .published
  · cases h
    exact .invalidated
  · cases h

/-- A request that makes a step has not been answered. -/
theorem Resumed.running {t t' : Table} {redis redis' : Redis} {r : Request} {phase phase' : Phase}
    {input : Input} (h : Resumed E t redis r phase input t' redis' phase') :
    ∀ reply, phase ≠ .answered reply := by
  intro reply he
  subst he
  cases h

/-- Rows wait to be cached only behind the `SELECT` of a first page. -/
theorem Resumed.cacheSet {t t' : Table} {redis redis' : Redis} {r : Request} {phase : Phase}
    {input : Input} {rows : List Row}
    (h : Resumed E t redis r phase input t' redis' (.cacheSet rows)) :
    ∃ thread limit cursor l, r = .list thread limit cursor ∧ phase = .select none ∧
      input = .rows l ∧ t' = t ∧ Sql.DescOrder t thread l ∧
      rows = l.take (listLimit (some 1) (some (toString limit))).toNat := by
  generalize hphase : Phase.cacheSet rows = phase' at h
  cases h with
  | got =>
    rcases afterGet_cases with ⟨_, _, hp⟩ | hp | ⟨_, hp⟩
    · cases hphase.trans hp
    · cases hphase.trans hp
    · cases hphase.trans hp
  | touched => split at hphase <;> cases hphase
  | selected hl hrows =>
    split at hphase
    · cases hphase
      exact ⟨_, _, _, _, rfl, rfl, rfl, rfl, hl, hrows⟩
    · cases hphase
  | selectedBefore => cases hphase
  | stored => cases hphase
  | ran => rcases afterStatement_cases with ⟨_, _, hp⟩ | ⟨_, hp⟩ | ⟨_, hp⟩ | ⟨_, hp⟩ <;>
      cases hphase.trans hp
  | published => rcases invalidate_cases with hp | hp <;> cases hphase.trans hp
  | invalidated => cases hphase

/-- A list has a page in hand only behind the `GET` that found it. -/
theorem Resumed.cacheTouch {t t' : Table} {redis redis' : Redis} {r : Request} {phase : Phase}
    {input : Input} {data : List Value}
    (h : Resumed E t redis r phase input t' redis' (.cacheTouch data)) :
    ∃ thread limit cursor, r = .list thread limit cursor ∧ phase = .cacheGet ∧ t' = t ∧
      readRecent (redis (keyRecent thread)) = some data := by
  generalize hphase : Phase.cacheTouch data = phase' at h
  cases h with
  | got =>
    rcases afterGet_cases with ⟨_, hd, hp⟩ | hp | ⟨_, hp⟩
    · cases hphase.trans hp
      exact ⟨_, _, _, rfl, rfl, rfl, hd⟩
    · cases hphase.trans hp
    · cases hphase.trans hp
  | touched => split at hphase <;> cases hphase
  | selected => split at hphase <;> cases hphase
  | selectedBefore => cases hphase
  | stored => cases hphase
  | ran => rcases afterStatement_cases with ⟨_, _, hp⟩ | ⟨_, hp⟩ | ⟨_, hp⟩ | ⟨_, hp⟩ <;>
      cases hphase.trans hp
  | published => rcases invalidate_cases with hp | hp <;> cases hphase.trans hp
  | invalidated => cases hphase

/-- A list that comes to the database from the cache asks for the first page. -/
theorem Resumed.select {t t' : Table} {redis redis' : Redis} {r : Request} {phase : Phase}
    {input : Input} {before : Option (ParsedDateTime × UUID)}
    (h : Resumed E t redis r phase input t' redis' (.select before)) : before = none := by
  generalize hphase : Phase.select before = phase' at h
  cases h with
  | got =>
    rcases afterGet_cases with ⟨_, _, hp⟩ | hp | ⟨_, hp⟩
    · cases hphase.trans hp
    · cases hphase.trans hp
      rfl
    · cases hphase.trans hp
  | touched =>
    split at hphase
    · cases hphase
    · cases hphase
      rfl
  | selected => split at hphase <;> cases hphase
  | selectedBefore => cases hphase
  | stored => cases hphase
  | ran => rcases afterStatement_cases with ⟨_, _, hp⟩ | ⟨_, hp⟩ | ⟨_, hp⟩ | ⟨_, hp⟩ <;>
      cases hphase.trans hp
  | published => rcases invalidate_cases with hp | hp <;> cases hphase.trans hp
  | invalidated => cases hphase

/-- An entry was there before, or is what a list of its thread writes. -/
theorem Resumed.entry {t t' : Table} {redis redis' : Redis} {r : Request} {phase phase' : Phase}
    {input : Input} (h : Resumed E t redis r phase input t' redis' phase') {thread : UUID}
    {v : Stored} (hv : redis' (keyRecent thread) = some v) :
    redis (keyRecent thread) = some v ∨ ∃ limit cursor rows,
      r = .list thread limit cursor ∧ phase = .cacheSet rows ∧
      v = recentOf E.cfg (rows.map toValue) := by
  cases h with
  | @stored thread' limit cursor rows outcome =>
    split at hv
    · by_cases ht : thread = thread'
      · subst ht
        rw [Function.update_self, Option.some.injEq] at hv
        exact Or.inr ⟨limit, cursor, rows, rfl, rfl, hv.symm⟩
      · rw [Function.update_of_ne fun hk => ht (keyRecent_injective hk)] at hv
        exact Or.inl hv
    · exact Or.inl hv
  | @invalidated c row outcome =>
    split at hv
    · by_cases hk : keyRecent thread = keyRecent c.thread
      · rw [hk, Function.update_self] at hv
        cases hv
      · rw [Function.update_of_ne hk] at hv
        exact Or.inl hv
    · exact Or.inl hv
  | got => exact Or.inl hv
  | touched => exact Or.inl hv
  | selected => exact Or.inl hv
  | selectedBefore => exact Or.inl hv
  | ran => exact Or.inl hv
  | published => exact Or.inl hv

/-- `next_cases`, with what a request did in the place of the function. -/
theorem step_cases {e : Event} (h : next E s e = some s') :
    (∃ i r, e = .arrive i r ∧ s.reqs i = none ∧ r.valid ∧
      s' = { s with reqs := Function.update s.reqs i (some (r, start E r)) }) ∨
    (∃ i input r phase t redis phase', e = .step i input ∧ s.reqs i = some (r, phase) ∧
      Resumed E s.table s.redis r phase input t redis phase' ∧
      s' = ⟨t, redis, Function.update s.reqs i (some (r, phase'))⟩) ∨
    (∃ key, e = .expire key ∧ s' = { s with redis := Function.update s.redis key none }) := by
  rcases next_cases h with h | ⟨i, input, r, phase, t, redis, phase', he, hr, hres, hs'⟩ | h
  · exact Or.inl h
  · exact Or.inr (Or.inl ⟨i, input, r, phase, t, redis, phase', he, hr, resumed_of_resume hres, hs'⟩)
  · exact Or.inr (Or.inr h)

theorem absent_of_run {tr : List Step} (h : Run (next E) s tr s') {j : Nat}
    (hn : s.reqs j = none) (hj : ∀ t ∈ tr, ∀ r, t.event ≠ .arrive j r) : s'.reqs j = none := by
  refine h.historyInv (C := fun t => ∀ r, t.event ≠ .arrive j r)
    (I := fun _ s => s.reqs j = none) hn ?_ hj
  intro tr' m e m' _ hm he hC
  rcases step_cases he with ⟨i, r, rfl, -, -, rfl⟩ |
    ⟨i, input, r, phase, t, redis, phase', -, hr, -, rfl⟩ | ⟨key, -, rfl⟩
  · have hij : j ≠ i := fun hij => hC r (by rw [hij])
    simp only [Function.update_of_ne hij]
    exact hm
  · have hij : j ≠ i := by
      intro hij
      rw [hij, hr] at hm
      cases hm
    simp only [Function.update_of_ne hij]
    exact hm
  · exact hm

/-! ## What running writes rely on -/

/-- A write whose check has passed has its row in its thread. The one invariant of writes, which the
cache has no part in. -/
def Asserted (s : State) : Prop :=
  ∀ i c pc, s.reqs i = some (.write c, .statement pc) → Checked c pc s.table

theorem asserted_step {e : Event} (hA : Asserted s) (he : next E s e = some s') : Asserted s' := by
  intro j c pc hj
  rcases step_cases he with ⟨i, r, -, -, -, rfl⟩ |
    ⟨i, input, r, phase, t, redis, phase', -, hr, hres, rfl⟩ | ⟨key, -, rfl⟩
  · rcases update_cases hj with ⟨-, heq⟩ | ⟨-, hold⟩
    · rcases start_cases with hp | ⟨_, hp⟩ | ⟨_, hp⟩ | ⟨_, -, hp⟩
      · cases (Prod.mk.inj heq).2.symm.trans hp
      · cases (Prod.mk.inj heq).2.symm.trans hp
      · cases (Prod.mk.inj heq).2.symm.trans hp
      · cases (Prod.mk.inj heq).2.symm.trans hp
        intro hpc
        cases hpc
    · exact hA j c pc hold
  · -- the request that made the step, and the others
    rcases update_cases hj with ⟨rfl, heq⟩ | ⟨-, hold⟩
    · obtain ⟨rfl, hphase⟩ := Prod.mk.inj heq
      cases hres with
      | @ran _ _ _ _ g hdid =>
        rcases afterStatement_cases (E := E) (c := c) (g := g) with
          ⟨_, rfl, hp⟩ | ⟨_, hp⟩ | ⟨_, hp⟩ | ⟨_, hp⟩
        · -- the statement did not answer
          cases hphase.symm.trans hp
          cases hdid with
          | passed hm hrow hpass =>
            intro _
            exact ⟨_, _, hm, hrow, hpass.thread⟩
        · cases hphase.symm.trans hp
        · cases hphase.symm.trans hp
        · cases hphase.symm.trans hp
      | published => rcases invalidate_cases with hp | hp <;> cases hphase.symm.trans hp
      | invalidated => cases hphase
    · have hc := hA j c pc hold
      cases hres with
      | ran hdid => exact hdid.checked_stable hc
      | got => exact hc
      | touched => exact hc
      | selected => exact hc
      | selectedBefore => exact hc
      | stored => exact hc
      | published => exact hc
      | invalidated => exact hc
  · exact hA j c pc hj

theorem asserted_of_run {o : Table} {tr : List Step} (h : Run (next E) (State.init o) tr s) :
    Asserted s := by
  refine h.inv (I := Asserted) ?_ fun _ _ _ hA he => asserted_step hA he
  intro i c pc hi
  cases hi

/-- A statement that changes the live rows of a thread is a write of that thread that succeeds. So
whoever changes a list has its deletion from the cache before it. -/
theorem live_changed {c : Call} {pc : Pc} {x : Supplied} {t t' : Table} {g : Progress Pc Result}
    (h : Did x t c pc t' g) (hA : Checked c pc t) (thread : UUID) :
    t'.live thread = t.live thread ∨ c.thread = thread ∧ ∃ row, g = .answered (.ok row) := by
  by_cases ht : c.thread = thread
  · cases h with
    | created => exact Or.inr ⟨ht, _, rfl⟩
    | wrote => exact Or.inr ⟨ht, _, rfl⟩
    | refused => exact Or.inl rfl
    | passed => exact Or.inl rfl
    | lost => exact Or.inl rfl
  · refine Or.inl ?_
    cases h with
    | created hins => exact Table.live_insert_of_ne hins ht
    | refused => rfl
    | passed => rfl
    | lost => rfl
    | @wrote c m r hm hr hrep =>
      obtain ⟨m', r', hm', hr', hthread⟩ := hA rfl
      have hmm : m = m' := Option.some.inj (hm.symm.trans hm')
      subst hmm
      rw [hr, Option.some.injEq] at hr'
      subst hr'
      have hid : (c.written x.now r).id = m := by rw [Call.written_id, Table.byId_id hr]
      refine Table.live_set_of_ne (by rw [hid]; exact hr) (hthread ▸ ht) ?_
      rw [(c.written_identity x.now r).threadId, hthread]
      exact ht

end MessagesApp.Handlers
