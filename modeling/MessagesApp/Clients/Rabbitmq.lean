import MessagesApp.Clients.Redis
import MessagesApp.Db.Schema

/-!
# `clients/rabbitmq.py`

One event, published on a connection of its own. `SendEvent` (71–142) gives its exception back
instead of raising it, but reads its settings with `int` and `float` before its `try` (line 83), so
that a bad setting does leave it.

What the broker does is an input: `Broker` says of every call to `pika` whether it raises. A call
that raises enqueues nothing. `session` follows the `try` and its `finally`, and gives the error
together with the calls that were carried out, so that what is in the queue can be compared with
what `SendEvent` says of it: `session_create` is that comparison for a `CREATE`.

This is the `SendEvent` that `CreateMessage` calls, with the row as its message. The module
`Clients.SendEvent` has it for any data and any place at which `pika` may raise, and proves that
the two agree. The fallback is here only as far as it can change what the next caller finds: it
asks for the cache's client, and so may make it. What the save then does is `Clients.Outbox`.

Left out are the timeouts and the heartbeat, which only decide when a call raises.
-/

set_option autoImplicit false

namespace MessagesApp.Clients

open Py

/-- `_queue_enabled`. -/
def queueEnabled (env : Environ) : Bool := flag env "QUEUE_ENABLED" "true"

/-- `_outbox_enabled`. -/
def outboxEnabled (env : Environ) : Bool := flag env "QUEUE_OUTBOX_REDIS_ENABLED" "false"

/-- What `_queue_params` gives; the floats by their texts, since nothing computes with them. -/
structure QueueParams where
  user : String
  password : String
  host : String
  port : Int
  connectionAttempts : Int
  retryDelay : String
  socketTimeout : String
  blockedConnectionTimeout : String
  heartbeat : Int

/-- `_queue_params`. The numbers are read in the order of the source, the first that is none being
the exception. -/
def queueParams (T : ErrorTexts) (env : Environ) : Except String QueueParams := do
  let port ← intSetting T env "QUEUE_PORT" "8002"
  let connectionAttempts ← intSetting T env "QUEUE_CONN_ATTEMPTS" "1"
  let retryDelay ← floatSetting T env "QUEUE_RETRY_DELAY" "0.2"
  let socketTimeout ← floatSetting T env "QUEUE_SOCKET_TIMEOUT" "0.5"
  let blockedConnectionTimeout ← floatSetting T env "QUEUE_BLOCKED_TIMEOUT" "0.5"
  let heartbeat ← intSetting T env "QUEUE_HEARTBEAT" "30"
  return {
    user := getenv env "QUEUE_USER" "root"
    password := getenv env "QUEUE_PASSWORD" "secret"
    host := getenv env "QUEUE_HOST" "localhost"
    port, connectionAttempts, retryDelay, socketTimeout, blockedConnectionTimeout, heartbeat }

/-- `data`: the queue and the row. Its JSON can always be written, as `default=str` takes what is
left. -/
structure EventData where
  tag : String
  message : Row
deriving DecidableEq

/-- What each call to `pika` raises, if it does. `connect` is the credentials, the parameters and
the connection. -/
structure Broker where
  connect : QueueParams → Option String
  channel : Option String
  queueDeclare : String → Option String
  basicPublish : EventData → Option String
  close : Option String

def Broker.up : Broker := ⟨fun _ => none, none, fun _ => none, fun _ => none, none⟩

def Broker.down (e : String) : Broker := { Broker.up with connect := fun _ => some e }

/-- A call the broker carried out. -/
inductive BrokerCall
  | connect
  | channel
  | queueDeclare (queue : String)
  /-- the row, as JSON, under the queue's name -/
  | basicPublish (data : EventData)
  | close
deriving DecidableEq

/-- The `try` of `SendEvent` behind the connection: a channel, the queue, and the message, if it is
a `CREATE`. The first call that raises ends it. -/
def onConnection (b : Broker) (eventType : String) (data : EventData) :
    Option String × List BrokerCall :=
  match b.channel with
  | some e => (some e, [])
  | none => match b.queueDeclare data.tag with
    | some e => (some e, [.channel])
    | none =>
        if eventType = "CREATE" then
          match b.basicPublish data with
          | some e => (some e, [.channel, .queueDeclare data.tag])
          | none => (none, [.channel, .queueDeclare data.tag, .basicPublish data])
        else (some "Unsupported event type", [.channel, .queueDeclare data.tag])

/-- `SendEvent` with its `finally`: the error, and the calls that were carried out. What `close`
raises is dropped, and a connection that was not opened is not closed. -/
def session (b : Broker) (params : QueueParams) (eventType : String) (data : EventData) :
    Option String × List BrokerCall :=
  match b.connect params with
  | some e => (some e, [])
  | none =>
      let (error, calls) := onConnection b eventType data
      (error, .connect :: calls ++ (if b.close.isSome then [] else [.close]))

/-- `SendEvent` up to its fallback. -/
def publishEvent (T : ErrorTexts) (env : Environ) (b : Broker) (eventType : String)
    (data : EventData) : Except String (Option String × List BrokerCall) :=
  if !queueEnabled env then .ok (none, [])
  else (queueParams T env).map fun params => session b params eventType data

/-- `_save_to_outbox_redis` up to its `try`: whether there is a client to save with. It may raise,
as asking for the client is outside the `try`. -/
def outboxClient (T : ErrorTexts) (env : Environ) (lib : RedisLib) (g : Globals) :
    Except String Bool × Globals :=
  if !outboxEnabled env then (.ok false, g) else getClient T env lib g

/-- `SendEvent`. What the fallback raises is dropped; it may have made the client, which is all that
a later call can notice of it. -/
def sendEvent (T : ErrorTexts) (env : Environ) (lib : RedisLib) (b : Broker) (eventType : String)
    (data : EventData) (g : Globals) : Except String (Option String) × Globals :=
  match publishEvent T env b eventType data with
  | .error e => (.error e, g)
  | .ok (none, _) => (.ok none, g)
  | .ok (some e, _) => (.ok (some e), (outboxClient T env lib g).2)

/-! ## When it raises -/

/-- The settings of the queue can be read. -/
def QueueConfigured (T : ErrorTexts) (env : Environ) : Prop :=
  ∃ params, queueParams T env = .ok params

variable (T : ErrorTexts) (env : Environ) (lib : RedisLib) (b : Broker) (eventType : String)
  (data : EventData) (g : Globals)

/-- **`SendEvent` raises where the queue is on and its settings cannot be read**, and nowhere else.
The broker has no part in it. -/
theorem sendEvent_error_iff :
    (∃ e, (sendEvent T env lib b eventType data g).1 = .error e) ↔
      queueEnabled env = true ∧ ¬ QueueConfigured T env := by
  unfold sendEvent publishEvent QueueConfigured
  cases queueEnabled env with
  | false => simp
  | true =>
    cases hp : queueParams T env with
    | error e => simp [Except.map]
    | ok params =>
      simp only [Except.map, Bool.not_true, Bool.false_eq_true, if_false]
      generalize session b params eventType data = q
      obtain ⟨error, calls⟩ := q
      cases error with
      | none => simp
      | some e => simp

/-- The fallback asks for the client at most; so the next to ask fares as it would have. -/
theorem getClient_sendEvent :
    (∃ e, (getClient T env lib (sendEvent T env lib b eventType data g).2).1 = .error e) ↔
      ∃ e, (getClient T env lib g).1 = .error e := by
  unfold sendEvent outboxClient
  split
  · exact Iff.rfl
  · exact Iff.rfl
  · split
    · exact Iff.rfl
    · exact getClient_again

/-! ## What it enqueues -/

def enqueued (calls : List BrokerCall) : List EventData :=
  calls.filterMap fun
    | .basicPublish data => some data
    | _ => none

theorem onConnection_create :
    enqueued (onConnection b "CREATE" data).2 =
      if (onConnection b "CREATE" data).1 = none then [data] else [] := by
  unfold onConnection
  split
  · rfl
  · split
    · rfl
    · rw [if_pos rfl]
      split
      · rfl
      · rfl

theorem enqueued_closed (calls : List BrokerCall) :
    enqueued (.connect :: calls ++ (if b.close.isSome then [] else [.close])) = enqueued calls := by
  cases b.close with
  | none => simp [enqueued]
  | some e => simp [enqueued]

/-- **A `CREATE` is enqueued once where there was no error, and not at all where there was.** By the
calls, in their order; what `close` comes to makes no difference. -/
theorem session_create (params : QueueParams) :
    enqueued (session b params "CREATE" data).2 =
      if (session b params "CREATE" data).1 = none then [data] else [] := by
  unfold session
  split
  · rfl
  · show enqueued (.connect :: (onConnection b "CREATE" data).2 ++ _) = _
    rw [enqueued_closed]
    exact onConnection_create b data

end MessagesApp.Clients
