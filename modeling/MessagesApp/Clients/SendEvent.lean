import MessagesApp.Clients.Rabbitmq

/-!
# `SendEvent` on any data

`Clients.Rabbitmq` has the `SendEvent` of a message. Here it is on its own: any `event_type`, any
`dict` for `data` (its values are of a type `α`, and `dumps` is `json.dumps(…, default=str)` on
them, which may raise), and any call of `pika` may raise. The log has every call that was made,
with what it raised.

The function is written as the source is, in a monad of exceptions over the log, so that a call
that raises ends its block and stays in the log. `caught` is the `except`, and what stands behind
the block in `session` is the `finally`.

`sendEvent_total_iff` says when the docstring's "nunca levanta una excepción" holds, and with it
that what is returned is truthful: `None` means that the queue is off or that the body was handed
to `basic_publish` once without error, and a connection that was opened is closed. It holds where
the queue is off or its settings can be read; they are read before the `try`. The proof is by the
blocks: what `publish` returns (`publish_handed`), how a connection is opened
(`openConnection_cases`), the `try` with its `finally` (`session_spec`), and the fallback, which
adds nothing that counts (`sendEvent_session`).

`sendEvent_eventDict` ties the two models: on the data of a message this one is the other, the
whole function from its first setting to the fallback.
-/

set_option autoImplicit false

namespace MessagesApp.SendEvent

open Py Clients

/-- A call that `SendEvent` makes. -/
inductive Call (α : Type)
  /-- `pika.PlainCredentials` -/
  | plainCredentials
  /-- `pika.BlockingConnection`, with its `ConnectionParameters` -/
  | blockingConnection
  | channel
  | queueDeclare (queue : α)
  | basicPublish (routingKey : α) (body : String)
  | close
  /-- `loop.create_task` of the fallback -/
  | createTask
  /-- `asyncio.run` of it -/
  | run
deriving DecidableEq

/-- What each call raises, if it does. The credentials and the connection are two calls here, the
first of which opens nothing. -/
structure Pika (α : Type) where
  plainCredentials : QueueParams → Option String
  blockingConnection : QueueParams → Option String
  channel : Option String
  queueDeclare : α → Option String
  basicPublish : α → String → Option String
  close : Option String

/-- `asyncio` as the fallback finds it: whether a loop that is not closed runs in this thread, and
what the two ways to start the save raise. -/
structure Asyncio where
  running : Bool
  createTask : Option String
  run : Option String

/-- The calls so far, each with what it raised. -/
abbrev Log (α : Type) := List (Call α × Option String)

/-- A block that may raise; the log stays. The monad of everything inside the `try`. -/
abbrev Block (α β : Type) := ExceptT String (StateM (Log α)) β

variable {α : Type}

def call (c : Call α) (raises : Option String) : Block α Unit := do
  modify fun log => log ++ [(c, raises)]
  match raises with
  | some e => throw e
  | none => pure ()

/-- `data[key]`, with the `KeyError`. -/
def item (data : List (String × α)) (key : String) : Block α α :=
  match data.lookup key with
  | some v => pure v
  | none => throw ("'" ++ key ++ "'")

/-- The `try` up to the connection. -/
def openConnection (P : Pika α) (params : QueueParams) : Block α Unit := do
  call .plainCredentials (P.plainCredentials params)
  call .blockingConnection (P.blockingConnection params)

/-- The `try` behind the connection: the value of `error` where nothing raises. A missing key, a
body that cannot be written and any call of `pika` end it. -/
def publish (P : Pika α) (dumps : α → Except String String) (eventType : String)
    (data : List (String × α)) : Block α (Option String) := do
  call .channel P.channel
  let tag ← item data "tag"
  call (.queueDeclare tag) (P.queueDeclare tag)
  if eventType = "CREATE" then
    let message ← item data "message"
    let body ← liftExcept (dumps message)
    let tag ← item data "tag"
    call (.basicPublish tag body) (P.basicPublish tag body)
    return none
  else
    return some "Unsupported event type"

/-- `except Exception as e: error = e`. -/
def caught : Except String (Option String) × Log α → Option String × Log α
  | (.error e, log) => (some e, log)
  | (.ok error, log) => (error, log)

/-- `SendEvent` up to its fallback: `error`, and the calls. Where no connection was opened, there is
none to close. -/
def session (P : Pika α) (dumps : α → Except String String) (params : QueueParams)
    (eventType : String) (data : List (String × α)) : Option String × Log α :=
  match (openConnection P params).run.run [] with
  -- `connection` is still `None`
  | (.error e, log) => (some e, log)
  | (.ok (), log) =>
      let (error, log) := caught ((publish P dumps eventType data).run.run log)
      -- what `close` raises is dropped
      (error, log ++ [(.close, P.close)])

/-- The fallback. What it raises is dropped. -/
def fallback (A : Asyncio) : Call α × Option String :=
  if A.running then (.createTask, A.createTask) else (.run, A.run)

/-- `SendEvent`. The settings are read outside the `try`, so what reading them raises leaves the
function. -/
def sendEvent (T : ErrorTexts) (env : Environ) (P : Pika α) (dumps : α → Except String String)
    (A : Asyncio) (eventType : String) (data : List (String × α)) :
    Except String (Option String) × Log α :=
  if !queueEnabled env then (.ok none, [])
  else match queueParams T env with
    | .error e => (.error e, [])
    | .ok params => match session P dumps params eventType data with
      | (none, log) => (.ok none, log)
      | (some e, log) => (.ok (some e), log ++ [fallback A])

/-! ## What it promises -/

def Call.isPublish : Call α → Bool
  | .basicPublish _ _ => true
  | _ => false

/-- The body of the message was handed to `basic_publish` once, and it raised nothing. It is a
statement about the log, and so about what was really called. -/
def Handed (dumps : α → Except String String) (data : List (String × α)) (log : Log α) : Prop :=
  ∃ tag message body, data.lookup "tag" = some tag ∧ data.lookup "message" = some message ∧
    dumps message = .ok body ∧
    log.filter (fun c => c.1.isPublish) = [(.basicPublish tag body, none)]

/-- `SendEvent` gave `error` back, and made these calls. What it gives back says what the calls came
to, and no connection stays open. -/
structure Truthful (env : Environ) (dumps : α → Except String String) (data : List (String × α))
    (error : Option String) (log : Log α) : Prop where
  /-- It gives `None` where the queue is off or the event was published, else an exception. -/
  none_iff : error = none ↔ queueEnabled env = false ∨ Handed dumps data log
  /-- A connection that was opened is closed, or closing it was tried. -/
  closed : (.blockingConnection, none) ∈ log → ∃ e, (.close, e) ∈ log

/-- It raises nothing, and what it gives back is truthful: what the docstring of `SendEvent`
promises. -/
def Total (T : ErrorTexts) (env : Environ) (P : Pika α) (dumps : α → Except String String)
    (A : Asyncio) (eventType : String) (data : List (String × α)) : Prop :=
  ∃ error, (sendEvent T env P dumps A eventType data).1 = .ok error ∧
    Truthful env dumps data error (sendEvent T env P dumps A eventType data).2

/-! ## The blocks -/

variable {T : ErrorTexts} {env : Environ} {P : Pika α} {dumps : α → Except String String}
  {A : Asyncio} {params : QueueParams} {eventType : String} {data : List (String × α)}
  {log : Log α} {β γ : Type}

theorem run_pure (b : β) : (pure b : Block α β).run.run log = (.ok b, log) := rfl

theorem run_throw (e : String) (f : γ → Block α β) :
    ((throw e : Block α γ) >>= f).run.run log = (.error e, log) := rfl

/-- A call that raises ends the block. -/
theorem run_call_some {c : Call α} (e : String) (f : Unit → Block α β) :
    (call c (some e) >>= f).run.run log = (.error e, log ++ [(c, some e)]) := rfl

theorem run_call_none {c : Call α} (f : Unit → Block α β) :
    (call c none >>= f).run.run log = (f ()).run.run (log ++ [(c, none)]) := rfl

theorem run_lift_error (e : String) (f : γ → Block α β) :
    (liftExcept (Except.error e : Except String γ) >>= f).run.run log = (.error e, log) := rfl

theorem run_lift_ok (c : γ) (f : γ → Block α β) :
    (liftExcept (Except.ok c : Except String γ) >>= f).run.run log = (f c).run.run log := rfl

/-- The calls of a connection that is open. -/
def opened : Log α := [(.plainCredentials, none), (.blockingConnection, none)]

theorem not_handed {calls : Log α} (h : ∀ tag body, (.basicPublish tag body, none) ∉ calls) :
    ¬ Handed dumps data calls := by
  rintro ⟨tag, message, body, -, -, -, hf⟩
  have hmem : (Call.basicPublish tag body, none) ∈ calls.filter fun c => c.1.isPublish := by
    rw [hf]
    exact List.mem_singleton_self _
  exact h tag body (List.mem_filter.mp hmem).1

/-- **Behind the connection** nothing is raised and there is no `error` where the event was
published. By the calls, in the order in which they can raise. -/
theorem publish_handed : ((publish P dumps eventType data).run.run opened).1 = .ok none ↔
    Handed dumps data ((publish P dumps eventType data).run.run opened).2 := by
  unfold publish
  cases P.channel with
  | some e =>
    rw [run_call_some]
    exact iff_of_false (by simp) (not_handed (by simp [opened]))
  | none =>
    rw [run_call_none]
    unfold item
    cases htag : data.lookup "tag" with
    | none =>
      rw [run_throw]
      exact iff_of_false (by simp) (not_handed (by simp [opened]))
    | some tag =>
      simp only [pure_bind]
      cases P.queueDeclare tag with
      | some e =>
        rw [run_call_some]
        exact iff_of_false (by simp) (not_handed (by simp [opened]))
      | none =>
        rw [run_call_none]
        by_cases hevent : eventType = "CREATE"
        · rw [if_pos hevent]
          cases hmessage : data.lookup "message" with
          | none =>
            rw [run_throw]
            exact iff_of_false (by simp) (not_handed (by simp [opened]))
          | some message =>
            simp only [pure_bind]
            cases hbody : dumps message with
            | error e =>
              rw [run_lift_error]
              exact iff_of_false (by simp) (not_handed (by simp [opened]))
            | ok body =>
              rw [run_lift_ok]
              cases P.basicPublish tag body with
              | some e =>
                rw [run_call_some]
                exact iff_of_false (by simp) (not_handed (by simp [opened]))
              | none =>
                rw [run_call_none, run_pure]
                exact iff_of_true rfl ⟨tag, message, body, htag, hmessage, hbody, rfl⟩
        · rw [if_neg hevent, run_pure]
          exact iff_of_false (by simp) (not_handed (by simp [opened]))

/-- Handing over is not undone by what comes after. -/
theorem handed_append {calls rest : Log α} (h : ∀ c ∈ rest, c.1.isPublish = false) :
    Handed dumps data (calls ++ rest) ↔ Handed dumps data calls := by
  have hrest : rest.filter (fun c => c.1.isPublish) = [] :=
    List.filter_eq_nil_iff.mpr fun c hc => by rw [h c hc]; exact Bool.false_ne_true
  unfold Handed
  rw [List.filter_append, hrest, List.append_nil]

/-- Opening a connection: it is open, or what was raised is the error. -/
theorem openConnection_cases (P : Pika α) (params : QueueParams) :
    (∃ e calls, (openConnection P params).run.run [] = (.error e, calls) ∧
      (.blockingConnection, none) ∉ calls ∧ ∀ c ∈ calls, c.1.isPublish = false) ∨
    (openConnection P params).run.run [] = (.ok (), opened) := by
  unfold openConnection
  cases P.plainCredentials params with
  | some e => exact Or.inl ⟨e, _, rfl, by simp, by simp [Call.isPublish]⟩
  | none => cases P.blockingConnection params with
    | some e => exact Or.inl ⟨e, _, rfl, by simp, by simp [Call.isPublish]⟩
    | none => exact Or.inr rfl

/-- **The `try` and its `finally`**: there is no error exactly where the body was handed over, and
`close` is called on a connection that was opened. -/
theorem session_spec (P : Pika α) (dumps : α → Except String String) (params : QueueParams)
    (eventType : String) (data : List (String × α)) : ((session P dumps params eventType data).1 = none ↔
      Handed dumps data (session P dumps params eventType data).2) ∧
    ((.blockingConnection, none) ∈ (session P dumps params eventType data).2 →
      (.close, P.close) ∈ (session P dumps params eventType data).2) := by
  unfold session
  rcases openConnection_cases P params with ⟨e, calls, hopen, hclosed, hpub⟩ | hopen
  · simp only [hopen]
    refine ⟨iff_of_false (by simp) (not_handed fun tag body hmem => ?_), fun h => absurd h hclosed⟩
    exact absurd (hpub _ hmem) (by simp [Call.isPublish])
  · simp only [hopen]
    have hhanded : ((publish P dumps eventType data).run.run opened).1 = .ok none ↔
        Handed dumps data ((publish P dumps eventType data).run.run opened).2 := publish_handed
    have hclose : ∀ c ∈ [((.close : Call α), P.close)], c.1.isPublish = false := by
      simp [Call.isPublish]
    generalize (publish P dumps eventType data).run.run opened = r at hhanded ⊢
    obtain ⟨error, calls⟩ := r
    cases error with
    | error e => exact ⟨by simpa [caught, handed_append hclose] using hhanded, by simp⟩
    | ok error => exact ⟨by simpa [caught, handed_append hclose] using hhanded, by simp⟩

/-- The fallback only adds to the log. -/
theorem sendEvent_session (P : Pika α) (dumps : α → Except String String) (A : Asyncio)
    (eventType : String) (data : List (String × α)) (hq : queueEnabled env = true)
    (hp : queueParams T env = .ok params) :
    ∃ rest, sendEvent T env P dumps A eventType data =
        (.ok (session P dumps params eventType data).1,
          (session P dumps params eventType data).2 ++ rest) ∧
      (∀ c ∈ rest, c.1.isPublish = false) ∧ (.blockingConnection, none) ∉ rest := by
  unfold sendEvent
  simp only [hq, hp]
  generalize session P dumps params eventType data = out
  obtain ⟨error, calls⟩ := out
  cases error with
  | none => exact ⟨[], by simp, by simp, by simp⟩
  | some e => cases hr : A.running with
    | true => exact ⟨[fallback A], by simp, by simp [fallback, hr, Call.isPublish], by simp [fallback, hr]⟩
    | false => exact ⟨[fallback A], by simp, by simp [fallback, hr, Call.isPublish], by simp [fallback, hr]⟩

/-- **`SendEvent` is total and truthful exactly where the queue is off or its settings can be
read**: they are read before the `try`. Everything behind that is caught. -/
theorem sendEvent_total_iff : Total T env P dumps A eventType data ↔
    (queueEnabled env = true → QueueConfigured T env) := by
  cases hq : queueEnabled env with
  | false =>
    have hoff : sendEvent T env P dumps A eventType data = (.ok none, []) := by
      simp [sendEvent, hq]
    unfold Total
    rw [hoff]
    exact iff_of_true ⟨none, rfl, iff_of_true rfl (Or.inl hq), by simp⟩ (by simp)
  | true =>
    unfold QueueConfigured
    cases hp : queueParams T env with
    | error e =>
      have herror : sendEvent T env P dumps A eventType data = (.error e, []) := by
        simp [sendEvent, hq, hp]
      simp [Total, herror]
    | ok params =>
      obtain ⟨hnone, hclose⟩ := session_spec P dumps params eventType data
      obtain ⟨rest, hsend, hpub, hconn⟩ := sendEvent_session P dumps A eventType data hq hp
      unfold Total
      rw [hsend]
      refine iff_of_true ⟨_, rfl, ?_, fun h => ⟨P.close, ?_⟩⟩ fun _ => ⟨params, rfl⟩
      · rw [hnone, handed_append hpub]
        simp [hq]
      · exact List.mem_append_left _ (hclose ((List.mem_append.mp h).resolve_right hconn))

/-! ## The event of a message -/

/-- The `dict` that `CreateMessage` sends. -/
def eventDict (data : EventData) : List (String × (String ⊕ Row)) :=
  [("tag", .inl data.tag), ("message", .inr data.message)]

/-- `pika` as the `Broker` of a message; a body that cannot be written is not published either. The
two calls of opening a connection are one there. -/
def broker (P : Pika (String ⊕ Row)) (dumps : String ⊕ Row → Except String String) : Broker where
  connect params := (P.plainCredentials params).or (P.blockingConnection params)
  channel := P.channel
  queueDeclare queue := P.queueDeclare (.inl queue)
  basicPublish data := match dumps (.inr data.message) with
    | .error e => some e
    | .ok body => P.basicPublish (.inl data.tag) body
  close := P.close

/-- The calls of the log that the broker carried out. -/
def carried (data : EventData) (log : Log (String ⊕ Row)) : List BrokerCall :=
  log.filterMap fun
    | (.blockingConnection, none) => some .connect
    | (.channel, none) => some .channel
    | (.queueDeclare (.inl queue), none) => some (.queueDeclare queue)
    | (.basicPublish _ _, none) => some (.basicPublish data)
    | (.close, none) => some .close
    | _ => none

theorem publish_eventDict (P : Pika (String ⊕ Row)) (dumps : String ⊕ Row → Except String String)
    (eventType : String) (data : EventData) :
    ((caught ((publish P dumps eventType (eventDict data)).run.run opened)).1,
      carried data (caught ((publish P dumps eventType (eventDict data)).run.run opened)).2) =
      ((onConnection (broker P dumps) eventType data).1,
        .connect :: (onConnection (broker P dumps) eventType data).2) := by
  have htag : (eventDict data).lookup "tag" = some (.inl data.tag) := rfl
  have hmessage : (eventDict data).lookup "message" = some (.inr data.message) := rfl
  unfold publish item
  rw [htag, hmessage]
  simp only [pure_bind, onConnection, broker]
  cases P.channel with
  | some e =>
    rw [run_call_some]
    rfl
  | none =>
    rw [run_call_none]
    cases P.queueDeclare (.inl data.tag) with
    | some e =>
      rw [run_call_some]
      rfl
    | none =>
      rw [run_call_none]
      by_cases hevent : eventType = "CREATE"
      · simp only [if_pos hevent]
        cases dumps (.inr data.message) with
        | error e =>
          rw [run_lift_error]
          rfl
        | ok body =>
          rw [run_lift_ok]
          dsimp only
          cases P.basicPublish (.inl data.tag) body with
          | some e =>
            rw [run_call_some]
            rfl
          | none =>
            rw [run_call_none, run_pure]
            rfl
      · simp only [if_neg hevent]
        rw [run_pure]
        rfl

theorem carried_close (data : EventData) (log : Log (String ⊕ Row)) (e : Option String) :
    carried data (log ++ [(.close, e)]) =
      carried data log ++ if e.isSome then [] else [.close] := by
  unfold carried
  rw [List.filterMap_append]
  cases e <;> rfl

/-- The two agree on the `try` and its `finally`: the same error, and the calls that the broker has
carried out. -/
theorem session_eventDict (P : Pika (String ⊕ Row)) (dumps : String ⊕ Row → Except String String)
    (params : QueueParams) (eventType : String) (data : EventData) :
    ((session P dumps params eventType (eventDict data)).1,
      carried data (session P dumps params eventType (eventDict data)).2) =
      Clients.session (broker P dumps) params eventType data := by
  have hopened : (openConnection P params).run.run [] =
      match P.plainCredentials params, P.blockingConnection params with
      | some e, _ => (.error e, [(.plainCredentials, some e)])
      | none, some e => (.error e, [(.plainCredentials, none), (.blockingConnection, some e)])
      | none, none => (.ok (), opened) := by
    unfold openConnection
    cases P.plainCredentials params with
    | some e => rfl
    | none => cases P.blockingConnection params <;> rfl
  have hconnect : (broker P dumps).connect params =
    (P.plainCredentials params).or (P.blockingConnection params) := rfl
  unfold session Clients.session
  rw [hopened, hconnect]
  cases P.plainCredentials params with
  | some e => rfl
  | none => cases P.blockingConnection params with
    | some e => rfl
    | none =>
      have hpub := Prod.mk.inj (publish_eventDict P dumps eventType data)
      simp only [Option.or, carried_close, hpub.1, hpub.2]
      rfl

/-- Starting the fallback is no call of the broker. -/
theorem carried_fallback (data : EventData) (log : Log (String ⊕ Row)) (A : Asyncio) :
    carried data (log ++ [fallback A]) = carried data log := by
  unfold carried fallback
  rw [List.filterMap_append]
  cases A.running <;> simp

/-- **On the data of a message this is the `SendEvent` of `Clients.Rabbitmq`**, from the first
setting it reads to the fallback: the same exception or the same error, the calls that the broker
carried out, and the client of the fallback asked for where there is an error. -/
theorem sendEvent_eventDict (T : ErrorTexts) (env : Environ) (lib : RedisLib)
    (P : Pika (String ⊕ Row)) (dumps : String ⊕ Row → Except String String) (A : Asyncio)
    (eventType : String) (data : EventData) (g : Globals) :
    ((sendEvent T env P dumps A eventType (eventDict data)).1.map fun error =>
        (error, carried data (sendEvent T env P dumps A eventType (eventDict data)).2)) =
      publishEvent T env (broker P dumps) eventType data ∧
    Clients.sendEvent T env lib (broker P dumps) eventType data g =
      ((sendEvent T env P dumps A eventType (eventDict data)).1,
        match (sendEvent T env P dumps A eventType (eventDict data)).1 with
        | .ok (some _) => (outboxClient T env lib g).2
        | _ => g) := by
  unfold sendEvent Clients.sendEvent publishEvent
  cases queueEnabled env with
  | false => exact ⟨rfl, rfl⟩
  | true =>
    cases queueParams T env with
    | error e => exact ⟨rfl, rfl⟩
    | ok params =>
      have hsession := session_eventDict P dumps params eventType data
      simp only [Bool.not_true, Bool.false_eq_true, if_false, Except.map, ← hsession]
      generalize session P dumps params eventType (eventDict data) = out
      obtain ⟨error, log⟩ := out
      cases error with
      | none => exact ⟨rfl, rfl⟩
      | some e => exact ⟨by rw [carried_fallback], rfl⟩

/-! ## A setting that is no number -/

def texts : ErrorTexts :=
  ⟨fun _ => "", fun s => "invalid literal for int() with base 10: '" ++ s ++ "'", fun _ => "", ""⟩

def portAbc : Environ := fun name => if name = "QUEUE_PORT" then some "abc" else none

/-- No call of it raises. -/
def upPika : Pika String := ⟨fun _ => none, fun _ => none, none, fun _ => none, fun _ _ => none, none⟩

/-- The `ValueError` leaves `SendEvent`. -/
theorem sendEvent_raises :
    (sendEvent texts portAbc upPika .ok ⟨false, none, none⟩ "CREATE"
      [("tag", "messages_service"), ("message", "hola")]).1 =
        .error "invalid literal for int() with base 10: 'abc'" ∧
    ¬ Total texts portAbc upPika .ok ⟨false, none, none⟩ "CREATE"
      [("tag", "messages_service"), ("message", "hola")] := by
  have hraise : (sendEvent texts portAbc upPika .ok ⟨false, none, none⟩ "CREATE"
      [("tag", "messages_service"), ("message", "hola")]).1 =
        .error "invalid literal for int() with base 10: 'abc'" := by
    decide +kernel
  refine ⟨hraise, ?_⟩
  rintro ⟨error, hok, -⟩
  rw [hraise] at hok
  cases hok

end MessagesApp.SendEvent
