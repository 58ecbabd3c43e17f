import MessagesApp.Clients.Rabbitmq
import MessagesApp.Service.Handlers

/-!
# A write and its answer

One write from its header to its answer, with whatever the database, the broker and Redis raise on
the way. Its row is committed before the connection is given back, before the event is published
and before the cache is invalidated, and two of these three are not as best-effort as they look:
the settings of the queue and of Redis are read outside any `try` (`rabbitmq.py` 83, `redis.py`
51–69, called at `cache.py` 88–90). The third is the release of the connection, which is inside the
`try` of the controller and turns into its error.

The definitions follow the call from the inside: a statement (`fetchrow`), the statements of a
call, the connection around them, the controller with its event, the invalidation, the handler.
Each has a lemma of the form "it raised and nothing was written, or the row was written and it
raised in these cases"; `handle_cases` is the last of them.

`Commits` and `Quiet` say the two conditions of `handle_atomic_iff` apart: the statements of the
call change the table, and nothing raises behind them. They speak of the settings, of what the
servers do and of the table before, and of nothing that the handler computes.

A failure that leaves it open whether a statement was applied, as a connection lost at its commit,
is left out: a statement that raises is not applied. Other requests in between are in `Handlers`.
-/

set_option autoImplicit false

namespace MessagesApp.Writes

open Py Lib Api Controller Clients

/-- A write as FastAPI hands it to its handler, with a body that has passed its schema. The user
comes from the header. -/
inductive Request
  | createMessage (thread : UUID) (content : String) (type : Option MsgType)
      (paths : Option (List String))
  | updateMessage (thread message : UUID) (content : Option String) (paths : Option (List String))
  | deleteMessage (thread message : UUID)

def Request.call (user : UUID) : Request → Call
  | .createMessage thread content type paths => .createMessage thread user (some content) type paths
  | .updateMessage thread message content paths =>
      .updateMessage thread message user content none paths
  | .deleteMessage thread message => .deleteMessage thread message user

/-- What the calls to `asyncpg` raise, if they do. A statement that raises is not applied. -/
structure Postgres where
  getPool : Option String
  acquire : Option String
  fetchrow : Pc → Option String
  /-- leaving `async with pool.acquire()`, which resets the connection -/
  release : Option String

def Postgres.up : Postgres := ⟨none, none, fun _ => none, none⟩

/-- What a request runs with and against: its settings, the texts of exceptions, and what each
server does when it is asked. -/
structure Backends where
  env : Environ
  T : ErrorTexts
  V : Pydantic
  lib : RedisLib
  pg : Postgres
  supplied : Supplied
  broker : Broker

variable (B : Backends)

/-! ## The controller -/

/-- `await conn.fetchrow(…)` and the code behind it. -/
def fetchrow (c : Call) (pc : Pc) (t : Table) : Table × Progress Pc Result :=
  match B.pg.fetchrow pc with
  | some e => (t, .answered (.error e))
  | none => (statement c pc B.supplied t).getD (t, .answered (.error B.T.duplicateKey))

/-- The statements of a call: the check and the write of an update or a delete, and the `INSERT` of
a create. -/
def statements (c : Call) (t : Table) : Table × Result :=
  match fetchrow B c .begin t with
  | (t', .answered r) => (t', r)
  | (t', .running pc) =>
      match fetchrow B c pc t' with
      | (t'', .answered r) => (t'', r)
      -- no call has a third statement
      | (t'', .running _) => (t'', .error c.noRow)

/-- The statements of a call within `async with pool.acquire()`. What the release raises takes the
place of what they gave, and they are committed by then. -/
def withConnection (c : Call) (t : Table) : Table × Result :=
  match B.pg.getPool with
  | some e => (t, .error e)
  | none => match B.pg.acquire with
    | some e => (t, .error e)
    | none => match B.pg.release with
      | some e => ((statements B c t).1, .error e)
      | none => statements B c t

/-- `CreateMessage`, `UpdateMessage` and `DeleteMessage`. The event is sent within the `try`, and
the error that `SendEvent` gives back is logged; one that it raises is the call's error. -/
def controller (c : Call) (g : Globals) (t : Table) : Table × Result × Globals :=
  match withConnection B c t with
  | (t', .error e) => (t', .error e, g)
  | (t', .ok row) => match c with
    | .createMessage .. =>
        match sendEvent B.T B.env B.lib B.broker "CREATE" ⟨"messages_service", row⟩ g with
        | (.error e, g') => (t', .error e, g')
        | (.ok _, g') => (t', .ok row, g')
    | _ => (t', .ok row, g)

/-! ## The handler -/

/-- `invalidate_thread`. What `client.delete` raises is logged, what asking for the client raises is
not caught. -/
def invalidateThread (g : Globals) : Except String Unit :=
  let (enabled, g) := cacheEnabled B.env B.lib g
  if !enabled then .ok ()
  else (getClient B.T B.env B.lib g).1.map fun _ => ()

/-- `create_message`, `update_message` and `delete_message`, with `get_user_id`. An exception of the
invalidation leaves the handler. -/
def handle (header : String) (r : Request) (g : Globals) (t : Table) : Table × Reply :=
  match UUID.parse header.toList with
  | none => (t, .http ⟨400, B.T.uuid header⟩)
  | some user =>
      match controller B (r.call user) g t with
      | (t', .error e, _) => (t', .http (mapErrorToHttp e))
      | (t', .ok row, g') =>
          match invalidateThread B g' with
          | .error _ => (t', .raised)
          | .ok () => (t', Handlers.writeReply B.V (r.call user) row)

/-! ## Atomicity -/

/-- The status of an answer; an exception has none. -/
def status? : Reply → Option Nat
  | .page _ => some 200
  | .message status _ => some status
  | .noContent => some 204
  | .http e => some e.status
  | .raised => none

/-- The row of the request was inserted, updated or deleted, and no other. For an update or a delete
the row passed its check. -/
def Written (c : Call) (x : Supplied) (t t' : Table) : Prop :=
  match c with
  | .createMessage thread user content typeM path =>
      t.insert (Call.created thread user content typeM path x) = some t'
  | .updateMessage _ message .. | .deleteMessage _ message _ =>
      ∃ r, t.byId message = some r ∧ c.passes r ∧ t' = t.set (c.written x.now r)

/-- The answer tells whether the table was written: an error means that it was not, a success that
exactly the row of the request was. -/
structure Atomic (header : String) (r : Request) (x : Supplied) (t t' : Table) (reply : Reply) :
    Prop where
  failed : (∀ s, status? reply = some s → 400 ≤ s) → t' = t
  done : ∀ s, status? reply = some s → 200 ≤ s → s < 300 →
    ∃ user, UUID.parse header.toList = some user ∧ Written (r.call user) x t t'

/-- The database takes the statements of a call, and they leave it `t'`. A condition on the servers
and the table before. -/
structure Runs (c : Call) (t t' : Table) : Prop where
  getPool : B.pg.getPool = none
  acquire : B.pg.acquire = none
  first : B.pg.fetchrow .begin = none
  second : c.message? ≠ none → B.pg.fetchrow .checked = none
  written : Written c B.supplied t t'

/-- They change it. -/
def Commits (c : Call) (t : Table) : Prop := ∃ t', Runs B c t t' ∧ t' ≠ t

/-- Nothing raises behind them: the release, the settings of the queue where an event is sent, and
those of Redis where a client has to be made. -/
structure Quiet (c : Call) (g : Globals) : Prop where
  release : B.pg.release = none
  queue : c.message? = none → queueEnabled B.env = true → QueueConfigured B.T B.env
  cache : (cacheEnabled B.env B.lib g).1 = true → g.client = false → ClientConfigured B.T B.env B.lib

variable {B} {c : Call} {g : Globals} {t t' t'' : Table} {x : Supplied} {m : UUID}

theorem written_iff (hm : c.message? = some m) : Written c x t t' ↔
    ∃ r, t.byId m = some r ∧ c.passes r ∧ t' = t.set (c.written x.now r) := by
  cases c with
  | createMessage => cases hm
  | updateMessage =>
    cases hm
    exact Iff.rfl
  | deleteMessage =>
    cases hm
    exact Iff.rfl

theorem Written.unique (h : Written c x t t') (h' : Written c x t t'') : t' = t'' := by
  cases hm : c.message? with
  | none =>
    cases c with
    | createMessage => exact Option.some.inj (h.symm.trans h')
    | updateMessage => cases hm
    | deleteMessage => cases hm
  | some m =>
    obtain ⟨r, hr, -, rfl⟩ := (written_iff hm).mp h
    obtain ⟨r', hr', -, rfl⟩ := (written_iff hm).mp h'
    rw [hr, Option.some.injEq] at hr'
    rw [hr']

/-! ## What the controller does -/

theorem passes_replaces {r : Row} (h : c.passes r) : c.replaces r := by
  cases c with
  | createMessage => exact h
  | updateMessage => exact trivial
  | deleteMessage => exact h.2

/-- A first statement that has no outcome is an insertion of a taken id. -/
theorem not_written_of_statement (h : statement c .begin x t = none) : ¬ Written c x t t' := by
  intro hw
  cases c with
  | createMessage thread user content typeM path =>
    simp only [statement, Sql.createMessage, Option.map_eq_none_iff] at h
    exact Option.some_ne_none _ (hw.symm.trans h)
  | updateMessage =>
    simp only [statement] at h
    split at h
    · cases h
    · split at h <;> cases h
  | deleteMessage =>
    simp only [statement] at h
    split at h
    · cases h
    · split at h <;> cases h

theorem statement_checked (hm : c.message? = some m) : statement c .checked x t ≠ none := by
  intro h
  cases c with
  | createMessage => cases hm
  | updateMessage =>
    simp only [statement] at h
    split at h <;> cases h
  | deleteMessage =>
    simp only [statement] at h
    split at h <;> cases h

/-- **A call's statements write its row, or raise and write nothing.** -/
theorem statements_cases (hpool : B.pg.getPool = none) (hacquire : B.pg.acquire = none) :
    (∃ e, statements B c t = (t, .error e) ∧ ∀ t', ¬ Runs B c t t') ∨
      ∃ t' row, statements B c t = (t', .ok row) ∧ Runs B c t t' := by
  unfold statements fetchrow
  cases hfirst : B.pg.fetchrow .begin with
  | some e =>
    refine Or.inl ⟨e, rfl, fun t' h => ?_⟩
    rw [h.first] at hfirst
    cases hfirst
  | none =>
    cases hs : statement c .begin B.supplied t with
    | none => exact Or.inl ⟨_, rfl, fun t' h => not_written_of_statement hs h.written⟩
    | some q =>
      obtain ⟨t₁, p⟩ := q
      simp only [Option.getD_some]
      cases statement_did hs with
      | created hins =>
        exact Or.inr ⟨_, _, rfl, hpool, hacquire, hfirst, fun hne => absurd rfl hne, hins⟩
      | refused hm hno =>
        refine Or.inl ⟨_, rfl, fun t' h => ?_⟩
        obtain ⟨r, hr, hp, -⟩ := (written_iff hm).mp h.written
        exact hno r hr hp
      | @passed _ m r hm hr hp =>
        dsimp only
        cases hsecond : B.pg.fetchrow .checked with
        | some e =>
          refine Or.inl ⟨e, rfl, fun t' h => ?_⟩
          rw [h.second (by rw [hm]; exact Option.some_ne_none m)] at hsecond
          cases hsecond
        | none =>
          cases hs' : statement c .checked B.supplied t with
          | none => exact absurd hs' (statement_checked hm)
          | some q =>
            obtain ⟨t₂, p⟩ := q
            dsimp only
            cases statement_did hs' with
            | @lost _ m' hm' hno =>
              rw [hm, Option.some.injEq] at hm'
              subst hm'
              exact absurd (passes_replaces hp) (hno r hr)
            | @wrote _ m' r' hm' hr' hrep =>
              rw [hm, Option.some.injEq] at hm'
              subst hm'
              rw [hr, Option.some.injEq] at hr'
              subst hr'
              exact Or.inr ⟨_, _, rfl, hpool, hacquire, hfirst, fun _ => hsecond,
                (written_iff hm).mpr ⟨r, hr, hp, rfl⟩⟩

theorem withConnection_cases :
    (∃ e, withConnection B c t = (t, .error e) ∧ ∀ t', ¬ Runs B c t t') ∨
      ∃ t' result, withConnection B c t = (t', result) ∧ Runs B c t t' ∧
        ((∃ e, result = .error e) ↔ B.pg.release ≠ none) := by
  unfold withConnection
  cases hpool : B.pg.getPool with
  | some e =>
    refine Or.inl ⟨e, rfl, fun t' h => ?_⟩
    rw [h.getPool] at hpool
    cases hpool
  | none =>
    cases hacquire : B.pg.acquire with
    | some e =>
      refine Or.inl ⟨e, rfl, fun t' h => ?_⟩
      rw [h.acquire] at hacquire
      cases hacquire
    | none =>
      rcases statements_cases (c := c) (t := t) hpool hacquire with ⟨e, hs, hno⟩ | ⟨t', row, hs, hr⟩
      · cases hrelease : B.pg.release with
        | some e' => exact Or.inl ⟨e', by simp only [hs], hno⟩
        | none => exact Or.inl ⟨e, by simp only [hs], hno⟩
      · cases hrelease : B.pg.release with
        | some e' => exact Or.inr ⟨t', _, by simp only [hs]; rfl, hr, by simp⟩
        | none => exact Or.inr ⟨t', _, by simp only [hs]; rfl, hr, by simp⟩

/-- **The controller's error, where a row was written: the release or the settings of the queue.**
Where none was written, it is an error and the table is as it was. -/
theorem controller_cases :
    (∃ e, (controller B c g t).1 = t ∧ (controller B c g t).2.1 = .error e ∧
      ∀ t', ¬ Runs B c t t') ∨
      Runs B c t (controller B c g t).1 ∧
        ((∃ e, (controller B c g t).2.1 = .error e) ↔ B.pg.release ≠ none ∨
          c.message? = none ∧ queueEnabled B.env = true ∧ ¬ QueueConfigured B.T B.env) := by
  unfold controller
  rcases withConnection_cases (B := B) (c := c) (t := t) with
    ⟨e, hw, hno⟩ | ⟨t', result, hw, hr, herror⟩
  · rw [hw]
    exact Or.inl ⟨e, rfl, rfl, hno⟩
  · rw [hw]
    refine Or.inr ?_
    cases result with
    | error e => exact ⟨hr, by simp [herror.mp ⟨e, rfl⟩]⟩
    | ok row =>
      have hrelease : B.pg.release = none := by
        by_contra hne
        obtain ⟨e, he⟩ := herror.mpr hne
        cases he
      cases hc : c.message? with
      | none =>
        cases c with
        | createMessage =>
          have hsend := sendEvent_error_iff B.T B.env B.lib B.broker "CREATE"
            ⟨"messages_service", row⟩ g
          dsimp only
          generalize sendEvent B.T B.env B.lib B.broker "CREATE" ⟨"messages_service", row⟩ g = q
            at hsend ⊢
          obtain ⟨sent, g'⟩ := q
          cases sent with
          | error e =>
            obtain ⟨hon, hconf⟩ := hsend.mp ⟨e, rfl⟩
            exact ⟨hr, by simp [hon, hconf]⟩
          | ok error =>
            have hquiet : ¬ (queueEnabled B.env = true ∧ ¬ QueueConfigured B.T B.env) := by
              intro h
              obtain ⟨e, he⟩ := hsend.mpr h
              cases he
            exact ⟨hr, by simp [hrelease, hquiet]⟩
        | updateMessage => cases hc
        | deleteMessage => cases hc
      | some m =>
        cases c with
        | createMessage => cases hc
        | updateMessage => exact ⟨hr, by simp [hrelease]⟩
        | deleteMessage => exact ⟨hr, by simp [hrelease]⟩

/-- What is asked of Redis later fares as it would have before the event. -/
theorem getClient_controller :
    (∃ e, (getClient B.T B.env B.lib (controller B c g t).2.2).1 = .error e) ↔
      ∃ e, (getClient B.T B.env B.lib g).1 = .error e := by
  unfold controller
  split
  · exact Iff.rfl
  · rename_i t' row heq
    split
    · have hsend := getClient_sendEvent B.T B.env B.lib B.broker "CREATE"
        ⟨"messages_service", row⟩ g
      split
      · rename_i heq
        rw [heq] at hsend
        exact hsend
      · rename_i heq
        rw [heq] at hsend
        exact hsend
    · exact Iff.rfl

/-! ## What the handler answers -/

theorem invalidateThread_error_iff :
    (∃ e, invalidateThread B g = .error e) ↔ ∃ e, (getClient B.T B.env B.lib g).1 = .error e := by
  have hagain := cacheEnabled_again B.env B.lib g
  have hclient := cacheEnabled_client B.env B.lib g
  have hsame : (∃ e, (getClient B.T B.env B.lib (cacheEnabled B.env B.lib g).2).1 = .error e) ↔
      ∃ e, (getClient B.T B.env B.lib g).1 = .error e := by
    rw [getClient_error_iff, getClient_error_iff, hagain, hclient]
  rw [← hsame]
  unfold invalidateThread
  cases hon : (cacheEnabled B.env B.lib g).1 with
  | false =>
    have hno : ¬ ∃ e, (getClient B.T B.env B.lib (cacheEnabled B.env B.lib g).2).1 = .error e := by
      rw [getClient_error_iff, hagain, hon]
      simp
    simp [hon, hno]
  | true =>
    cases hget : (getClient B.T B.env B.lib (cacheEnabled B.env B.lib g).2).1 with
    | error e => simp [hon, hget, Except.map]
    | ok made => simp [hon, hget, Except.map]

def Failed (reply : Reply) : Prop := ∀ s, status? reply = some s → 400 ≤ s

theorem failed_raised : Failed .raised := by
  intro s hs
  cases hs

theorem failed_mapErrorToHttp (e : String) : Failed (.http (mapErrorToHttp e)) := by
  intro s hs
  cases hs
  unfold mapErrorToHttp
  dsimp only
  split
  · show 400 ≤ 404
    omega
  · show 400 ≤ 500
    omega

theorem writeReply_status (V : Pydantic) (c : Call) (row : Row) :
    ∃ s, status? (Handlers.writeReply V c row) = some s ∧ 200 ≤ s ∧ s < 300 := by
  unfold Handlers.writeReply Handlers.writeReply.messageReply
  rw [toMessageOut_toValue]
  cases c with
  | createMessage => exact ⟨201, rfl, by omega, by omega⟩
  | updateMessage => exact ⟨200, rfl, by omega, by omega⟩
  | deleteMessage => exact ⟨204, rfl, by omega, by omega⟩

variable {header : String} {r : Request} {user : UUID}

/-- **A handler whose call wrote its row answers with a success where nothing raised behind.** Else
the answer is a failure, with the row written or without. -/
theorem handle_cases (hu : UUID.parse header.toList = some user) :
    (handle B header r g t).1 = t ∧ Failed (handle B header r g t).2 ∧
        (∀ t', ¬ Runs B (r.call user) t t') ∨
      Runs B (r.call user) t (handle B header r g t).1 ∧
        (Quiet B (r.call user) g ∧
            (∃ row, (handle B header r g t).2 = Handlers.writeReply B.V (r.call user) row) ∨
          ¬ Quiet B (r.call user) g ∧ Failed (handle B header r g t).2) := by
  have hg := getClient_controller (B := B) (c := r.call user) (g := g) (t := t)
  unfold handle
  rw [hu]
  dsimp only
  rcases controller_cases (B := B) (c := r.call user) (g := g) (t := t) with
    ⟨e, ht, herror, hno⟩ | ⟨hr, herror⟩
  · generalize controller B (r.call user) g t = q at ht herror ⊢
    obtain ⟨t', result, g'⟩ := q
    cases herror
    exact Or.inl ⟨ht, failed_mapErrorToHttp e, hno⟩
  · refine Or.inr ?_
    generalize controller B (r.call user) g t = q at hr herror hg ⊢
    obtain ⟨t', result, g'⟩ := q
    have hinv := (invalidateThread_error_iff (B := B) (g := g')).trans hg
    cases result with
    | error e =>
      refine ⟨hr, Or.inr ⟨fun hq => ?_, failed_mapErrorToHttp e⟩⟩
      rcases herror.mp ⟨e, rfl⟩ with h | ⟨hc, hon, hconf⟩
      · exact h hq.release
      · exact hconf (hq.queue hc hon)
    | ok row =>
      have hok : ¬ (B.pg.release ≠ none ∨ (r.call user).message? = none ∧
          queueEnabled B.env = true ∧ ¬ QueueConfigured B.T B.env) := by
        intro h
        obtain ⟨e, he⟩ := herror.mpr h
        cases he
      rw [getClient_error_iff] at hinv
      cases hi : invalidateThread B g' with
      | error e =>
        obtain ⟨hon, hclient, hconf⟩ := hinv.mp ⟨e, hi⟩
        simp only [hi]
        exact ⟨hr, Or.inr ⟨fun hq => hconf (hq.cache hon hclient), failed_raised⟩⟩
      | ok _ =>
        simp only [hi]
        refine ⟨hr, Or.inl ⟨⟨?_, ?_, ?_⟩, row, rfl⟩⟩
        · by_contra hne
          exact hok (Or.inl hne)
        · intro hc hon
          by_contra hconf
          exact hok (Or.inr ⟨hc, hon, hconf⟩)
        · intro hon hclient
          by_contra hconf
          obtain ⟨e, he⟩ := hinv.mpr ⟨hon, hclient, hconf⟩
          rw [hi] at he
          cases he

/-- **A write is atomic exactly where it changes nothing or nothing raises behind it.** A request
whose header is no UUID is refused before, and is atomic. -/
theorem handle_atomic_iff :
    Atomic header r B.supplied t (handle B header r g t).1 (handle B header r g t).2 ↔
      ∀ user, UUID.parse header.toList = some user → Commits B (r.call user) t →
        Quiet B (r.call user) g := by
  constructor
  · rintro h user hu ⟨t', hr, hne⟩
    rcases handle_cases (B := B) (r := r) (g := g) (t := t) hu with
      ⟨-, -, hno⟩ | ⟨hr', ⟨hq, -⟩ | ⟨-, hfailed⟩⟩
    · exact absurd hr (hno t')
    · exact hq
    · have hsame := h.failed hfailed
      rw [hr'.written.unique hr.written] at hsame
      exact absurd hsame hne
  · intro h
    cases hu : UUID.parse header.toList with
    | none =>
      have hh : handle B header r g t = (t, .http ⟨400, B.T.uuid header⟩) := by
        unfold handle
        rw [hu]
      rw [hh]
      refine ⟨fun _ => rfl, fun s hs _ hlt => ?_⟩
      have hstatus : 400 = s := Option.some.inj hs
      omega
    | some user =>
      rcases handle_cases (B := B) (r := r) (g := g) (t := t) hu with
        ⟨ht, hfailed, -⟩ | ⟨hr, ⟨hq, row, hreply⟩ | ⟨hq, hfailed⟩⟩
      · refine ⟨fun _ => ht, fun s hs _ hlt => ?_⟩
        have := hfailed s hs
        omega
      · obtain ⟨s, hs, -, hlt⟩ := writeReply_status B.V (r.call user) row
        refine ⟨fun hf => ?_, fun _ _ _ _ => ⟨user, hu, hr.written⟩⟩
        rw [hreply] at hf
        have := hf s hs
        omega
      · refine ⟨fun _ => ?_, fun s hs _ hlt => ?_⟩
        · by_contra hne
          exact hq (h user hu ⟨_, hr, hne⟩)
        · have := hfailed s hs
          omega

/-- Servers that answer everything, under the settings `env`. -/
def healthy (env : Environ) : Backends where
  env := env
  T := ⟨fun _ => "badly formed hexadecimal UUID string",
    fun s => "invalid literal for int() with base 10: '" ++ s ++ "'",
    fun s => "could not convert string to float: '" ++ s ++ "'", "duplicate key"⟩
  V := .python
  lib := ⟨true, fun _ => none⟩
  pg := .up
  supplied := ⟨Sample.minute 0, Sample.message⟩
  broker := .up

def create (env : Environ) : Table × Reply :=
  handle (healthy env) "00000000-0000-0000-0000-000000000003"
    (.createMessage Sample.thread "hola" none none) ⟨none, false⟩ .empty

/-- Under `QUEUE_PORT=abc` a create answers 500, and its message is there. -/
theorem create_not_atomic : ¬ Atomic "00000000-0000-0000-0000-000000000003"
    (.createMessage Sample.thread "hola" none none) ⟨Sample.minute 0, Sample.message⟩ .empty
    (create fun name => if name = "QUEUE_PORT" then some "abc" else none).1
    (create fun name => if name = "QUEUE_PORT" then some "abc" else none).2 := by
  intro h
  have hstatus : status? (create fun name => if name = "QUEUE_PORT" then some "abc" else none).2 =
      some 500 := by decide +kernel
  have hsame := h.failed fun s hs => by
    rw [hstatus, Option.some.injEq] at hs
    omega
  revert hsame
  decide +kernel

end MessagesApp.Writes
