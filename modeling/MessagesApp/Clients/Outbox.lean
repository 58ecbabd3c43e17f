import MessagesApp.Clients.Rabbitmq
import MessagesApp.Lib.Run

/-!
# The outbox

Events the broker refused, saved in a list of Redis (`rabbitmq.py` 45–68 and 123–140). `SendEvent`
runs in a thread of the executor, which has no running loop, so its fallback is always an
`asyncio.run`: every save has an event loop of its own. The client is the cache's, with one pool of
connections for all of them, and a connection serves the loop that opened it and no other.

A step is one await: any number of saves and of the cache's commands may be under way. The cache's
run in the server's loop. Redis takes every command that reaches it.

Two things stand between a refused event and the list. With the cache off there is no client
(`redis.py` 51–53), and the save ends before it has begun. And a save may be given a connection
that another loop has opened: `rpush` on it raises, which is dropped. Whether the entry is in the
list is then open, as the client writes a command before it waits for the answer, and it is the
wait that raises; so `Event.push` says whether the command had reached Redis (`applied`).

`event_delivered_iff` is the account of every message: its event was published once or saved once,
exactly where none of these two things has lost it (`loses`), and the list is in the order of the
pushes. Its invariant says for each stage of a message where its event is (`Accounted`), and that
one which was lost had a save that was not alone (`Inv`).

Left out are the time of an entry, which is what the clock gave, and the expiry of the list, which
takes events away that were saved and which is off by default.
-/

set_option autoImplicit false

namespace MessagesApp.Outbox

open Py Lib Clients

/-- An event loop, by its number. Every `asyncio.run` makes one, which ends with it. -/
abbrev Loop := Nat

/-- The server's own. -/
def mainLoop : Loop := 0

/-- An entry of the list: the payload of `_save_to_outbox_redis`. -/
structure Entry where
  ts : Int
  eventType : String
  data : EventData
deriving DecidableEq

/-- Where the event of a message stands. `opener` is the loop whose connection a command got, which
need not be the loop it runs in. -/
inductive Stage
  /-- before the fallback -/
  | refused
  /-- at `client.rpush` -/
  | pushing (loop opener : Loop)
  /-- before `client.expire` -/
  | pushed (loop : Loop)
  /-- at `client.expire` -/
  | expiring (loop opener : Loop)
  | done
deriving DecidableEq

/-- The client and its pool, every message with the stage of its event, and what has reached the
broker and the list. -/
structure State where
  globals : Globals
  /-- The pool: the openers of its idle connections, the last released first. -/
  idle : List Loop
  nextLoop : Loop
  /-- The created messages, by their id. -/
  sends : UUID → Option (Row × Stage)
  /-- The commands of the cache under way. -/
  commands : Nat → Option Loop
  /-- What the broker took. -/
  published : List EventData
  /-- What was appended to the list. -/
  outbox : List Entry

inductive Event
  /-- `CreateMessage` has committed its row and sends the event. -/
  | send (row : Row) (b : Broker)
  /-- The fallback, up to its first command. -/
  | save (id : UUID)
  /-- Its `rpush` ends. `applied` says whether a command that raises had reached Redis before, and
  `keep` whether the connection is still open in the pool. -/
  | push (id : UUID) (ts : Int) (applied keep : Bool)
  | expire (id : UUID)
  | expired (id : UUID) (keep : Bool)
  /-- A command of the cache. -/
  | command (j : Nat)
  | commanded (j : Nat) (keep : Bool)

structure Env where
  env : Environ
  T : ErrorTexts
  lib : RedisLib

def State.init : State := ⟨⟨none, false⟩, [], mainLoop + 1, fun _ => none, fun _ => none, [], []⟩

/-- `pool.get_connection()` in a loop: the connection released last, or a new one. The pool does not
look at who opened it. -/
def getConnection (loop : Loop) : List Loop → Loop × List Loop
  | opener :: idle => (opener, idle)
  | [] => (loop, [])

def release (keep : Bool) (opener : Loop) (idle : List Loop) : List Loop :=
  if keep then opener :: idle else idle

/-- `data` of a message. -/
def eventData (row : Row) : EventData := ⟨"messages_service", row⟩

/-- Behind an `rpush` that succeeded: the TTL is read, and where it is no number the exception is
dropped, the entry being in the list already. -/
def afterPush (E : Env) (loop : Loop) : Stage :=
  match intSetting E.T E.env "QUEUE_OUTBOX_TTL_SECONDS" "0" with
  | .ok ttl => if 0 < ttl then .pushed loop else .done
  | .error _ => .done

def State.setStage (s : State) (id : UUID) (row : Row) (stage : Stage) : State :=
  { s with sends := Function.update s.sends id (some (row, stage)) }

/-- One await of the fallback, of the cache, or of `SendEvent`. The commands end as Redis and the
client make them: a push on a connection of its own loop succeeds, since Redis takes commands; on
another's it raises, and `applied` says whether the command was written before, which
`redis.asyncio` does first. A message is sent once, and what raises in its fallback ends it. -/
def next (E : Env) (s : State) : Event → Option State
  | .send row b =>
      if s.sends row.id = none then
        match publishEvent E.T E.env b "CREATE" (eventData row) with
        | .error _ => some (s.setStage row.id row .done)
        | .ok (error, calls) =>
            let stage := if error = none then Stage.done else .refused
            some { s.setStage row.id row stage with published := s.published ++ enqueued calls }
      else none
  | .save id =>
      match s.sends id with
      | some (row, .refused) =>
          let (client, globals) := outboxClient E.T E.env E.lib s.globals
          let s := { s with globals, nextLoop := s.nextLoop + 1 }
          match client with
          | .ok true =>
              let (opener, idle) := getConnection (s.nextLoop - 1) s.idle
              some { s.setStage id row (.pushing (s.nextLoop - 1) opener) with idle }
          -- without a client, or with what asking for it raises, the event is given up
          | _ => some (s.setStage id row .done)
      | _ => none
  | .push id ts applied keep =>
      match s.sends id with
      | some (row, .pushing loop opener) =>
          let idle := release keep opener s.idle
          let outbox := s.outbox ++ [⟨ts, "CREATE", eventData row⟩]
          if opener = loop then some { s.setStage id row (afterPush E loop) with idle, outbox }
          -- another loop's connection raises, and the exception is dropped; it is the answer that
          -- cannot be waited for, and the command may have been written before
          else some { s.setStage id row .done with
            idle, outbox := if applied then outbox else s.outbox }
      | _ => none
  | .expire id =>
      match s.sends id with
      | some (row, .pushed loop) =>
          let (opener, idle) := getConnection loop s.idle
          some { s.setStage id row (.expiring loop opener) with idle }
      | _ => none
  | .expired id keep =>
      match s.sends id with
      | some (row, .expiring _ opener) =>
          some { s.setStage id row .done with idle := release keep opener s.idle }
      | _ => none
  | .command j =>
      if s.commands j = none then
        let (client, globals) := getClient E.T E.env E.lib s.globals
        match client with
        | .ok true =>
            let (opener, idle) := getConnection mainLoop s.idle
            some { s with globals, idle, commands := Function.update s.commands j (some opener) }
        | _ => some { s with globals }
      else none
  | .commanded j keep =>
      match s.commands j with
      | some opener => some { s with
          idle := release keep opener s.idle, commands := Function.update s.commands j none }
      | none => none

abbrev Step := Transition State Event

/-! ## What is promised -/

/-- The queue and the outbox are on, and Redis is there: every setting that is read on the way to
the list parses. `CACHE_ENABLED` is not among them. -/
structure Configured (E : Env) : Prop where
  queue : queueEnabled E.env = true
  params : QueueConfigured E.T E.env
  outbox : outboxEnabled E.env = true
  installed : E.lib.installed = true
  redis : given E.env "REDIS_URL" = true ∨ given E.env "REDIS_HOST" = true
  client : makeClient E.T E.env E.lib = .ok true

def State.publishedOf (s : State) (id : UUID) : List EventData :=
  s.published.filter fun d => d.message.id = id

def State.savedOf (s : State) (id : UUID) : List Entry :=
  s.outbox.filter fun e => e.data.message.id = id

/-- Published once, and not in the outbox: the broker took it. -/
def Published (s : State) (row : Row) : Prop :=
  s.publishedOf row.id = [eventData row] ∧ s.savedOf row.id = []

/-- Once in the outbox, with its type and its data, and not published: the broker refused it and the
fallback kept it. -/
def Saved (s : State) (row : Row) : Prop :=
  s.publishedOf row.id = [] ∧ ∃ ts, s.savedOf row.id = [⟨ts, "CREATE", eventData row⟩]

/-- The saves, in the order in which their pushes were run. -/
def pushes (tr : List Step) : List UUID :=
  tr.filterMap fun t => match t.event with
    | .push id .. => some id
    | _ => none

/-- The push of this message is on a connection that another loop opened. -/
def foreign (s : State) (id : UUID) : Bool :=
  match s.sends id with
  | some (_, .pushing loop opener) => opener ≠ loop
  | _ => false

/-- A step that loses the event of a message. Its save finds the cache off, so `get_client` gives
it no client (redis.py 51-53); or its push raises on another loop's connection, and the command had
not reached Redis. Nothing else of a save loses anything. -/
def loses (E : Env) (id : UUID) (t : Step) : Bool :=
  match t.event with
  | .save i => i = id && !flag E.env "CACHE_ENABLED" "true"
  | .push i _ applied _ => i = id && !applied && foreign t.pre id
  | _ => false

/-- A save finds the cache on and no idle connection in the pool, so that its push is on one that
its own loop opens. A condition on the state before the step, which rules out all that loses. -/
def savesAlone (E : Env) (t : Step) : Bool :=
  match t.event with
  | .save _ => flag E.env "CACHE_ENABLED" "true" && t.pre.idle.isEmpty
  | _ => true

variable {E : Env} {s s' : State} {tr : List Step}

/-! ## One step -/

/-- Everything a step can do, where the queue is configured. Each case says what it changes, and the
invariant is proved case by case. -/
inductive Did (E : Env) (s : State) : Event → State → Prop
  | published {row : Row} {b : Broker} : s.sends row.id = none →
      Did E s (.send row b)
        { s.setStage row.id row .done with published := s.published ++ [eventData row] }
  | refused {row : Row} {b : Broker} : s.sends row.id = none →
      Did E s (.send row b) (s.setStage row.id row .refused)
  | saving {id : UUID} {row : Row} {opener : Loop} {idle : List Loop} :
      s.sends id = some (row, .refused) →
      (outboxClient E.T E.env E.lib s.globals).1 = .ok true →
      getConnection s.nextLoop s.idle = (opener, idle) →
      Did E s (.save id)
        { s.setStage id row (.pushing s.nextLoop opener) with
          globals := (outboxClient E.T E.env E.lib s.globals).2
          nextLoop := s.nextLoop + 1
          idle }
  | givenUp {id : UUID} {row : Row} :
      s.sends id = some (row, .refused) →
      (outboxClient E.T E.env E.lib s.globals).1 ≠ .ok true →
      Did E s (.save id)
        { s.setStage id row .done with
          globals := (outboxClient E.T E.env E.lib s.globals).2
          nextLoop := s.nextLoop + 1 }
  | pushed {id : UUID} {row : Row} {ts : Int} {applied keep : Bool} {loop : Loop} :
      s.sends id = some (row, .pushing loop loop) →
      Did E s (.push id ts applied keep)
        { s.setStage id row (afterPush E loop) with
          idle := release keep loop s.idle
          outbox := s.outbox ++ [⟨ts, "CREATE", eventData row⟩] }
  | raised {id : UUID} {row : Row} {ts : Int} {keep : Bool} {loop opener : Loop} :
      s.sends id = some (row, .pushing loop opener) → opener ≠ loop →
      Did E s (.push id ts true keep)
        { s.setStage id row .done with
          idle := release keep opener s.idle
          outbox := s.outbox ++ [⟨ts, "CREATE", eventData row⟩] }
  | dropped {id : UUID} {row : Row} {ts : Int} {keep : Bool} {loop opener : Loop} :
      s.sends id = some (row, .pushing loop opener) → opener ≠ loop →
      Did E s (.push id ts false keep)
        { s.setStage id row .done with idle := release keep opener s.idle }
  | expiring {id : UUID} {row : Row} {loop opener : Loop} {idle : List Loop} :
      s.sends id = some (row, .pushed loop) → getConnection loop s.idle = (opener, idle) →
      Did E s (.expire id) { s.setStage id row (.expiring loop opener) with idle }
  | expired {id : UUID} {row : Row} {loop opener : Loop} {keep : Bool} :
      s.sends id = some (row, .expiring loop opener) →
      Did E s (.expired id keep)
        { s.setStage id row .done with idle := release keep opener s.idle }
  | command {j : Nat} {opener : Loop} {idle : List Loop} :
      getConnection mainLoop s.idle = (opener, idle) →
      Did E s (.command j) { s with
        globals := (getClient E.T E.env E.lib s.globals).2
        idle
        commands := Function.update s.commands j (some opener) }
  | noCommand {j : Nat} :
      Did E s (.command j) { s with globals := (getClient E.T E.env E.lib s.globals).2 }
  | commanded {j : Nat} {opener : Loop} {keep : Bool} : s.commands j = some opener →
      Did E s (.commanded j keep) { s with
        idle := release keep opener s.idle
        commands := Function.update s.commands j none }

theorem did_send {row : Row} {b : Broker} (hE : Configured E)
    (h : next E s (.send row b) = some s') : Did E s (.send row b) s' := by
  obtain ⟨params, hparams⟩ := hE.params
  have hpub : publishEvent E.T E.env b "CREATE" (eventData row) =
      .ok (session b params "CREATE" (eventData row)) := by
    unfold publishEvent
    rw [hE.queue, hparams]
    rfl
  have hsession := session_create b (eventData row) params
  simp only [next, hpub, hsession] at h
  split at h
  · rename_i hnew
    cases h
    cases (session b params "CREATE" (eventData row)).1 with
    | none => exact .published hnew
    | some e =>
      simp only [reduceCtorEq, if_false, List.append_nil]
      exact .refused hnew
  · cases h

theorem did_save {id : UUID} (h : next E s (.save id) = some s') : Did E s (.save id) s' := by
  simp only [next] at h
  split at h
  · rename_i row hrow
    split at h
    · rename_i hclient
      cases h
      exact .saving hrow hclient rfl
    · rename_i hno
      cases h
      exact .givenUp hrow fun hc => hno hc
  · cases h

theorem did_push {id : UUID} {ts : Int} {applied keep : Bool}
    (h : next E s (.push id ts applied keep) = some s') : Did E s (.push id ts applied keep) s' := by
  simp only [next] at h
  split at h
  · rename_i row loop opener hrow
    split at h
    · rename_i hown
      subst hown
      cases h
      exact .pushed hrow
    · rename_i hne
      cases applied with
      | true =>
        cases h
        exact .raised hrow hne
      | false =>
        cases h
        exact .dropped hrow hne
  · cases h

theorem did_of_next {e : Event} (hE : Configured E) (h : next E s e = some s') : Did E s e s' := by
  cases e with
  | send row b => exact did_send hE h
  | save id => exact did_save h
  | push id ts applied keep => exact did_push h
  | expire id =>
    simp only [next] at h
    split at h
    · rename_i hrow
      cases h
      exact .expiring hrow rfl
    · cases h
  | expired id keep =>
    simp only [next] at h
    split at h
    · rename_i hrow
      cases h
      exact .expired hrow
    · cases h
  | command j =>
    simp only [next] at h
    split at h
    · split at h
      · cases h
        exact .command rfl
      · cases h
        exact .noCommand
    · cases h
  | commanded j keep =>
    simp only [next] at h
    split at h
    · rename_i hj
      cases h
      exact .commanded hj
    · cases h

theorem afterPush_cases (E : Env) (loop : Loop) :
    afterPush E loop = .pushed loop ∨ afterPush E loop = .done := by
  unfold afterPush
  split
  · split
    · exact Or.inl rfl
    · exact Or.inr rfl
  · exact Or.inr rfl

/-! ## The client -/

/-- `_enabled` is what the settings say, once it is anything; so a save fares by the setting and not
by who asked first. -/
def Remembers (E : Env) (g : Globals) : Prop :=
  ∀ b, g.enabled = some b → b = flag E.env "CACHE_ENABLED" "true"

theorem getClient_configured {g : Globals} (hE : Configured E) (hg : Remembers E g) :
    (getClient E.T E.env E.lib g).1 = .ok (flag E.env "CACHE_ENABLED" "true") ∧
      Remembers E (getClient E.T E.env E.lib g).2 := by
  have hredis : (given E.env "REDIS_URL" || given E.env "REDIS_HOST") = true := by
    rw [Bool.or_eq_true]
    exact hE.redis
  have hon : (cacheEnabled E.env E.lib g).1 = flag E.env "CACHE_ENABLED" "true" ∧
      Remembers E (cacheEnabled E.env E.lib g).2 := by
    cases hen : g.enabled with
    | none => simp [cacheEnabled, hen, hE.installed, hredis, Remembers]
    | some b =>
      have hb := hg b hen
      simp only [cacheEnabled, hen]
      exact ⟨hb, hg⟩
  unfold getClient
  generalize cacheEnabled E.env E.lib g = q at hon
  obtain ⟨enabled, g'⟩ := q
  obtain ⟨rfl, hg'⟩ := hon
  cases hflag : flag E.env "CACHE_ENABLED" "true" with
  | false => exact ⟨rfl, hg'⟩
  | true =>
    simp only [Bool.not_true, Bool.false_eq_true, if_false, hE.client]
    split
    · exact ⟨rfl, hg'⟩
    · exact ⟨rfl, hg'⟩

/-! ## Every message is accounted for -/

/-- A step has lost the event of this message. -/
def Lost (E : Env) (tr : List Step) (id : UUID) : Prop := ∃ t ∈ tr, loses E id t = true

/-- The save of this message was not alone. -/
def Shared (E : Env) (tr : List Step) (id : UUID) : Prop :=
  ∃ t ∈ tr, t.event = .save id ∧ savesAlone E t = false

def Absent (s : State) (id : UUID) : Prop := s.publishedOf id = [] ∧ s.savedOf id = []

/-- Where the event of a message is, by the stage of the message. Before its push it is nowhere; at
the end it is lost and nowhere, or in exactly one place. -/
def Accounted (s : State) (id : UUID) (lost : Prop) : Option (Row × Stage) → Prop
  | none => Absent s id ∧ ¬ lost
  | some (row, stage) => row.id = id ∧ match stage with
      | .refused => Absent s id ∧ ¬ lost
      | .pushing _ _ => Absent s id ∧ ¬ lost
      | .pushed _ => Saved s row ∧ ¬ lost
      | .expiring _ _ => Saved s row ∧ ¬ lost
      | .done => Absent s id ∧ lost ∨ (Published s row ∨ Saved s row) ∧ ¬ lost

/-- What every run keeps: where each event is, and that one which was lost, or is about to raise,
had a save that was not alone; and that the list is in the order of the pushes. -/
structure Inv (E : Env) (tr : List Step) (s : State) : Prop where
  globals : Remembers E s.globals
  accounted : ∀ id, Accounted s id (Lost E tr id) (s.sends id)
  foreign : ∀ id, foreign s id = true → Shared E tr id
  lost : ∀ id, Lost E tr id → Shared E tr id
  order : (s.outbox.map fun e => e.data.message.id).Sublist (pushes tr)

theorem lost_append {t : Step} {id : UUID} :
    Lost E (tr ++ [t]) id ↔ Lost E tr id ∨ loses E id t = true := by
  simp [Lost, or_and_right, exists_or]

theorem shared_append {t : Step} {id : UUID} : Shared E (tr ++ [t]) id ↔
    Shared E tr id ∨ t.event = .save id ∧ savesAlone E t = false := by
  simp [Shared, or_and_right, exists_or]

theorem Accounted.congr {id : UUID} {lost lost' : Prop} {x : Option (Row × Stage)}
    (h : Accounted s id lost x) (hl : lost' ↔ lost)
    (hp : s'.publishedOf id = s.publishedOf id) (ho : s'.savedOf id = s.savedOf id) :
    Accounted s' id lost' x := by
  rw [propext hl]
  cases x with
  | none => simpa only [Accounted, Absent, hp, ho] using h
  | some q =>
    obtain ⟨row, stage⟩ := q
    obtain ⟨rfl, h⟩ := h
    refine ⟨rfl, ?_⟩
    cases stage with
    | refused => simpa only [Absent, hp, ho] using h
    | pushing loop opener => simpa only [Absent, hp, ho] using h
    | pushed loop => simpa only [Saved, hp, ho] using h
    | expiring loop opener => simpa only [Saved, hp, ho] using h
    | done => simpa only [Absent, Published, Saved, hp, ho] using h

theorem Accounted.saved {id : UUID} {lost : Prop} {row : Row} {loop : Loop} (hid : row.id = id)
    (h : Saved s row) (hlost : ¬ lost) : Accounted s id lost (some (row, afterPush E loop)) := by
  rcases afterPush_cases E loop with hp | hp
  · rw [hp]
    exact ⟨hid, h, hlost⟩
  · rw [hp]
    exact ⟨hid, Or.inr ⟨Or.inr h, hlost⟩⟩

/-- A step that moves one message on leaves the others accounted for. -/
theorem accounted_update {id : UUID} {x : Option (Row × Stage)} {tr' : List Step}
    (h : ∀ id, Accounted s id (Lost E tr id) (s.sends id))
    (hs : s'.sends = Function.update s.sends id x)
    (hframe : ∀ i, i ≠ id → s'.publishedOf i = s.publishedOf i ∧ s'.savedOf i = s.savedOf i)
    (hlost : ∀ i, i ≠ id → (Lost E tr' i ↔ Lost E tr i))
    (hx : Accounted s' id (Lost E tr' id) x) :
    ∀ id, Accounted s' id (Lost E tr' id) (s'.sends id) := by
  intro i
  rw [hs]
  by_cases hi : i = id
  · subst hi
    rw [Function.update_self]
    exact hx
  · rw [Function.update_of_ne hi]
    exact (h i).congr (hlost i hi) (hframe i hi).1 (hframe i hi).2

/-- Only a message at its push can be about to raise. -/
theorem foreign_update {id i : UUID} {x : Option (Row × Stage)}
    (hs : s'.sends = Function.update s.sends id x) (h : foreign s' i = true) :
    i = id ∧ (∃ row loop opener, x = some (row, .pushing loop opener) ∧ opener ≠ loop) ∨
      foreign s i = true := by
  unfold foreign at h
  rw [hs] at h
  by_cases hi : i = id
  · subst hi
    rw [Function.update_self] at h
    refine Or.inl ⟨rfl, ?_⟩
    split at h
    · exact ⟨_, _, _, rfl, of_decide_eq_true h⟩
    · cases h
  · rw [Function.update_of_ne hi] at h
    exact Or.inr h

theorem publishedOf_append {row : Row} {id : UUID}
    (h : s'.published = s.published ++ [eventData row]) :
    s'.publishedOf id = s.publishedOf id ++ if row.id = id then [eventData row] else [] := by
  unfold State.publishedOf
  rw [h, List.filter_append]
  by_cases hid : row.id = id
  · simp [eventData, hid]
  · simp [eventData, hid]

theorem savedOf_append {row : Row} {id : UUID} {ts : Int} {eventType : String}
    (h : s'.outbox = s.outbox ++ [⟨ts, eventType, eventData row⟩]) :
    s'.savedOf id = s.savedOf id ++ if row.id = id then [⟨ts, eventType, eventData row⟩] else [] := by
  unfold State.savedOf
  rw [h, List.filter_append]
  by_cases hid : row.id = id
  · simp [eventData, hid]
  · simp [eventData, hid]

/-! ## Every run -/

theorem pushes_append (tr : List Step) (t : Step) :
    pushes (tr ++ [t]) = pushes tr ++ pushes [t] := List.filterMap_append

/-- A step that is neither a save nor a push loses nothing and takes no connection. -/
theorem loses_other {e : Event} {id : UUID} (hsave : ∀ i, e ≠ .save i)
    (hpush : ∀ i ts applied keep, e ≠ .push i ts applied keep) : loses E id ⟨s, e, s'⟩ = false := by
  unfold loses
  split
  · rename_i i he
    exact absurd he (hsave i)
  · rename_i i ts applied keep he
    exact absurd he (hpush i ts applied keep)
  · rfl

theorem inv_step {e : Event} (hE : Configured E) (h : Inv E tr s) (he : next E s e = some s') :
    Inv E (tr ++ [⟨s, e, s'⟩]) s' := by
  obtain ⟨hclient, hglobals⟩ := getClient_configured hE h.globals
  have houtbox : outboxClient E.T E.env E.lib s.globals = getClient E.T E.env E.lib s.globals := by
    unfold outboxClient
    rw [hE.outbox]
    rfl
  have hframe : ∀ {s' : State}, s'.published = s.published → s'.outbox = s.outbox →
      ∀ i, s'.publishedOf i = s.publishedOf i ∧ s'.savedOf i = s.savedOf i := by
    intro s' hp ho i
    unfold State.publishedOf State.savedOf
    rw [hp, ho]
    exact ⟨rfl, rfl⟩
  have horder : ∀ {s' : State}, s'.outbox = s.outbox →
      (s'.outbox.map fun e => e.data.message.id).Sublist (pushes (tr ++ [⟨s, e, s'⟩])) := by
    intro s' ho
    rw [pushes_append, ho]
    exact h.order.trans (List.sublist_append_left _ _)
  have hshared : ∀ {t : Step} {i}, Shared E tr i → Shared E (tr ++ [t]) i := by
    intro t i hi
    exact shared_append.mpr (Or.inl hi)
  -- what holds of a step that loses nothing
  have hsame : ∀ {s' : State}, (∀ s' i, loses E i ⟨s, e, s'⟩ = false) → ∀ i,
      (Lost E (tr ++ [⟨s, e, s'⟩]) i ↔ Lost E tr i) := by
    intro s' hno i
    rw [lost_append, hno s' i]
    simp
  have hlost : ∀ {s' : State}, (∀ s' i, loses E i ⟨s, e, s'⟩ = false) → ∀ i,
      Lost E (tr ++ [⟨s, e, s'⟩]) i → Shared E (tr ++ [⟨s, e, s'⟩]) i := by
    intro s' hno i hi
    exact hshared (h.lost i ((hsame hno i).mp hi))
  -- and of one behind which no message is newly at a push
  have hforeign : ∀ {s' : State} {id : UUID} {x : Option (Row × Stage)} {t : Step},
      s'.sends = Function.update s.sends id x →
      (∀ row loop opener, x ≠ some (row, .pushing loop opener)) →
      ∀ i, foreign s' i = true → Shared E (tr ++ [t]) i := by
    intro s' id x t hs hx i hi
    rcases foreign_update hs hi with ⟨-, row, loop, opener, hpushing, -⟩ | hold
    · exact absurd hpushing (hx row loop opener)
    · exact hshared (h.foreign i hold)
  cases did_of_next hE he with
  | @published row b hnew =>
    have hno : ∀ s' i, loses E i ⟨s, .send row b, s'⟩ = false := fun s' i => loses_other nofun nofun
    have hold := h.accounted row.id
    rw [hnew] at hold
    refine ⟨h.globals, accounted_update h.accounted rfl ?_ (fun i _ => hsame hno i)
      ⟨rfl, Or.inr ⟨Or.inl ⟨?_, hold.1.2⟩, ?_⟩⟩, hforeign rfl (by simp), hlost hno, horder rfl⟩
    · intro i hi
      rw [publishedOf_append rfl, if_neg (Ne.symm hi), List.append_nil]
      exact ⟨rfl, rfl⟩
    · rw [publishedOf_append rfl, if_pos rfl, hold.1.1]
      rfl
    · rw [hsame hno]
      exact hold.2
  | @refused row b hnew =>
    have hno : ∀ s' i, loses E i ⟨s, .send row b, s'⟩ = false := fun s' i => loses_other nofun nofun
    have hold := h.accounted row.id
    rw [hnew] at hold
    refine ⟨h.globals, accounted_update h.accounted rfl (fun i _ => hframe rfl rfl i)
      (fun i _ => hsame hno i) ⟨rfl, hold.1, ?_⟩, hforeign rfl (by simp), hlost hno, horder rfl⟩
    rw [hsame hno]
    exact hold.2
  | @saving id row opener idle hrow hsome hconn =>
    have hold := h.accounted id
    rw [hrow] at hold
    obtain ⟨hid, habsent, hnot⟩ := hold
    rw [houtbox, hclient, Except.ok.injEq] at hsome
    have hno : ∀ s' i, loses E i ⟨s, .save id, s'⟩ = false := by
      intro s' i
      simp [loses, hsome]
    refine ⟨?_, accounted_update h.accounted rfl (fun i _ => hframe rfl rfl i)
      (fun i _ => hsame hno i) ⟨hid, habsent, ?_⟩, fun i hi => ?_, hlost hno, horder rfl⟩
    · rw [houtbox]
      exact hglobals
    · rw [hsame hno]
      exact hnot
    · rcases foreign_update rfl hi with ⟨rfl, row', loop, opener', hpushing, hne⟩ | hold
      · -- a connection of another loop was idle
        cases hpushing
        refine shared_append.mpr (Or.inr ⟨rfl, ?_⟩)
        cases hidle : s.idle with
        | nil =>
          rw [hidle] at hconn
          cases hconn
          exact absurd rfl hne
        | cons l rest => simp [savesAlone, hidle]
      · exact hshared (h.foreign i hold)
  | @givenUp id row hrow hno =>
    have hold := h.accounted id
    rw [hrow] at hold
    obtain ⟨hid, habsent, hnot⟩ := hold
    rw [houtbox, hclient, Ne, Except.ok.injEq, Bool.not_eq_true] at hno
    refine ⟨?_, accounted_update h.accounted rfl (fun i _ => hframe rfl rfl i) (fun i hi => ?_)
      ⟨hid, Or.inl ⟨habsent, ?_⟩⟩, hforeign rfl (by simp), fun i hi => ?_, horder rfl⟩
    · rw [houtbox]
      exact hglobals
    · rw [lost_append]
      exact or_iff_left (by simp [loses, Ne.symm hi])
    · exact lost_append.mpr (Or.inr (by simp [loses, hno]))
    · rcases lost_append.mp hi with hi | hi
      · exact hshared (h.lost i hi)
      · simp only [loses, Bool.and_eq_true, decide_eq_true_eq] at hi
        exact shared_append.mpr (Or.inr ⟨congrArg Event.save hi.1, by simp [savesAlone, hno]⟩)
  | @pushed id row ts applied keep loop hrow =>
    have hold := h.accounted id
    rw [hrow] at hold
    obtain ⟨rfl, ⟨hp, hs⟩, hnot⟩ := hold
    have hown : foreign s row.id = false := by simp [foreign, hrow]
    have hno : ∀ s' i, loses E i ⟨s, .push row.id ts applied keep, s'⟩ = false := by
      intro s' i
      unfold loses
      by_cases hi : row.id = i
      · subst hi
        simp [hown]
      · simp [hi]
    refine ⟨h.globals, accounted_update h.accounted rfl ?_ (fun i _ => hsame hno i)
      (.saved rfl ⟨hp, ts, ?_⟩ ?_), hforeign rfl ?_, hlost hno, ?_⟩
    · intro i hi
      rw [savedOf_append rfl, if_neg (Ne.symm hi), List.append_nil]
      exact ⟨rfl, rfl⟩
    · rw [savedOf_append rfl, if_pos rfl, hs]
      rfl
    · rw [hsame hno]
      exact hnot
    · intro row' loop' opener' heq
      rcases afterPush_cases E loop with hp | hp <;> rw [hp] at heq <;> cases heq
    · rw [pushes_append, List.map_append]
      exact h.order.append (List.Sublist.refl _)
  | @raised id row ts keep loop opener hrow hne =>
    have hold := h.accounted id
    rw [hrow] at hold
    obtain ⟨rfl, ⟨hp, hs⟩, hnot⟩ := hold
    have hno : ∀ s' i, loses E i ⟨s, .push row.id ts true keep, s'⟩ = false := by
      intro s' i
      simp [loses]
    refine ⟨h.globals, accounted_update h.accounted rfl ?_ (fun i _ => hsame hno i)
      ⟨rfl, Or.inr ⟨Or.inr ⟨hp, ts, ?_⟩, ?_⟩⟩, hforeign rfl (by simp), hlost hno, ?_⟩
    · intro i hi
      rw [savedOf_append rfl, if_neg (Ne.symm hi), List.append_nil]
      exact ⟨rfl, rfl⟩
    · rw [savedOf_append rfl, if_pos rfl, hs]
      rfl
    · rw [hsame hno]
      exact hnot
    · rw [pushes_append, List.map_append]
      exact h.order.append (List.Sublist.refl _)
  | @dropped id row ts keep loop opener hrow hne =>
    have hold := h.accounted id
    rw [hrow] at hold
    obtain ⟨hid, habsent, hnot⟩ := hold
    have hforeignRow : foreign s id = true := by simp [foreign, hrow, hne]
    refine ⟨h.globals, accounted_update h.accounted rfl (fun i _ => hframe rfl rfl i)
      (fun i hi => ?_) ⟨hid, Or.inl ⟨habsent, ?_⟩⟩, hforeign rfl (by simp), fun i hi => ?_,
      horder rfl⟩
    · rw [lost_append]
      exact or_iff_left (by simp [loses, Ne.symm hi])
    · exact lost_append.mpr (Or.inr (by simp [loses, hforeignRow]))
    · rcases lost_append.mp hi with hi | hi
      · exact hshared (h.lost i hi)
      · simp only [loses, Bool.and_eq_true, decide_eq_true_eq] at hi
        exact hshared (h.foreign i hi.2)
  | @expiring id row loop opener idle hrow hconn =>
    have hno : ∀ s' i, loses E i ⟨s, .expire id, s'⟩ = false := fun s' i => loses_other nofun nofun
    have hold := h.accounted id
    rw [hrow] at hold
    refine ⟨h.globals, accounted_update h.accounted rfl (fun i _ => hframe rfl rfl i)
      (fun i _ => hsame hno i) ⟨hold.1, hold.2.1, ?_⟩, hforeign rfl (by simp), hlost hno, horder rfl⟩
    rw [hsame hno]
    exact hold.2.2
  | @expired id row loop opener keep hrow =>
    have hno : ∀ s' i, loses E i ⟨s, .expired id keep, s'⟩ = false := fun s' i => loses_other nofun nofun
    have hold := h.accounted id
    rw [hrow] at hold
    refine ⟨h.globals, accounted_update h.accounted rfl (fun i _ => hframe rfl rfl i)
      (fun i _ => hsame hno i) ⟨hold.1, Or.inr ⟨Or.inr hold.2.1, ?_⟩⟩, hforeign rfl (by simp),
      hlost hno, horder rfl⟩
    rw [hsame hno]
    exact hold.2.2
  | @command j opener idle =>
    have hno : ∀ s' i, loses E i ⟨s, .command j, s'⟩ = false := fun s' i => loses_other nofun nofun
    exact ⟨hglobals, fun i => (h.accounted i).congr (hsame hno i) rfl rfl,
      fun i hi => hshared (h.foreign i hi), hlost hno, horder rfl⟩
  | @noCommand j =>
    have hno : ∀ s' i, loses E i ⟨s, .command j, s'⟩ = false := fun s' i => loses_other nofun nofun
    exact ⟨hglobals, fun i => (h.accounted i).congr (hsame hno i) rfl rfl,
      fun i hi => hshared (h.foreign i hi), hlost hno, horder rfl⟩
  | @commanded j opener keep =>
    have hno : ∀ s' i, loses E i ⟨s, .commanded j keep, s'⟩ = false := fun s' i => loses_other nofun nofun
    exact ⟨h.globals, fun i => (h.accounted i).congr (hsame hno i) rfl rfl,
      fun i hi => hshared (h.foreign i hi), hlost hno, horder rfl⟩

theorem inv_of_run (hE : Configured E) (h : Run (next E) .init tr s) : Inv E tr s := by
  refine h.historyInv (C := fun _ => True) (I := Inv E) ?_
    (fun _ _ _ _ _ hI he _ => inv_step hE hI he) fun _ _ => trivial
  refine ⟨?_, ?_, ?_, ?_, List.Sublist.refl _⟩
  · intro b hb
    cases hb
  · intro id
    refine ⟨⟨rfl, rfl⟩, ?_⟩
    rintro ⟨t, ht, -⟩
    cases ht
  · intro id hid
    cases hid
  · rintro id ⟨t, ht, -⟩
    cases ht

/-- A message that is done was delivered once, exactly where no step has lost its event. -/
theorem delivered_iff {id : UUID} {row : Row} {lost : Prop}
    (h : Accounted s id lost (some (row, .done))) : Published s row ∨ Saved s row ↔ ¬ lost := by
  obtain ⟨rfl, ⟨⟨hp, hs⟩, hsh⟩ | ⟨hout, hnot⟩⟩ := h
  · refine iff_of_false ?_ (not_not.mpr hsh)
    rintro (⟨hp', -⟩ | ⟨-, ts, hs'⟩)
    · rw [hp] at hp'
      cases hp'
    · rw [hs] at hs'
      cases hs'
  · exact iff_of_true hout hnot

theorem not_lost_iff {id : UUID} : ¬ Lost E tr id ↔ ∀ t ∈ tr, loses E id t = false := by
  simp [Lost]

/-- **An event is published once or saved once exactly where no step of its save loses it**: the
cache is on, and the push is on a connection of its own loop or had reached Redis before it raised.
So it is where every save finds the pool empty; and the outbox is in the order of the pushes. -/
theorem event_delivered_iff (hE : Configured E) (h : Run (next E) .init tr s) :
    (∀ id row, s.sends id = some (row, .done) →
      (Published s row ∨ Saved s row ↔ ∀ t ∈ tr, loses E id t = false) ∧
      ((∀ t ∈ tr, t.event = .save id → savesAlone E t = true) → Published s row ∨ Saved s row)) ∧
    (s.outbox.map fun e => e.data.message.id).Sublist (pushes tr) := by
  have hI := inv_of_run hE h
  refine ⟨fun id row hrow => ?_, hI.order⟩
  have hdone := hI.accounted id
  rw [hrow] at hdone
  have hiff := delivered_iff hdone
  refine ⟨hiff.trans not_lost_iff, fun halone => hiff.mpr fun hlost => ?_⟩
  obtain ⟨t, ht, hsave, hshared⟩ := hI.lost id hlost
  rw [halone t ht hsave] at hshared
  cases hshared

/-- The outbox is on, Redis is `redis`, and everything else is as it comes. -/
def sampleEnv : Env where
  env := fun name =>
    if name = "QUEUE_OUTBOX_REDIS_ENABLED" then some "true"
    else if name = "REDIS_HOST" then some "redis"
    else none
  T := ⟨fun s => s, fun s => s, fun s => s, "duplicate key"⟩
  lib := ⟨true, fun _ => none⟩

theorem configured_sampleEnv : Configured sampleEnv := by
  have hparams : (queueParams sampleEnv.T sampleEnv.env).isOk = true := by decide +kernel
  refine ⟨by decide +kernel, ?_, by decide +kernel, rfl, Or.inr (by decide +kernel), ?_⟩
  · cases hq : queueParams sampleEnv.T sampleEnv.env with
    | ok params => exact ⟨params, hq⟩
    | error e =>
      rw [hq] at hparams
      cases hparams
  · decide +kernel

/-- A create while the broker is down. -/
def saved (n : Nat) (applied : Bool) : List Event :=
  [.send { Sample.row with id := Sample.uuid n } (.down "connection refused"),
    .save (Sample.uuid n), .push (Sample.uuid n) 0 applied true]

/-- Two of them. The second push gets the connection of the first, and raises behind its command. -/
theorem event_delivered_twoSaves : ∃ tr s row,
    tr.map Transition.event = saved 2 true ++ saved 4 true ∧
    Run (next sampleEnv) .init tr s ∧ Configured sampleEnv ∧
    s.sends row.id = some (row, .done) ∧ (Published s row ∨ Saved s row) ∧
    (s.outbox.map fun e => e.data.message.id).Sublist (pushes tr) := by
  have hrun : (exec (next sampleEnv) .init (saved 2 true ++ saved 4 true)).bind
      (fun s => s.sends (Sample.uuid 4)) =
        some ({ Sample.row with id := Sample.uuid 4 }, .done) := by
    decide +kernel
  obtain ⟨s, hs, hdone⟩ := Option.bind_eq_some_iff.mp hrun
  obtain ⟨htr, h⟩ := Run.of_exec hs
  have hkept : ∀ t ∈ trace (next sampleEnv) .init (saved 2 true ++ saved 4 true),
      loses sampleEnv (Sample.uuid 4) t = false := by
    decide +kernel
  obtain ⟨hiff, horder⟩ := event_delivered_iff configured_sampleEnv h
  exact ⟨_, s, { Sample.row with id := Sample.uuid 4 }, htr, h, configured_sampleEnv, hdone,
    (hiff _ _ hdone).1.mpr hkept, horder⟩

/-- The same settings with the cache off. -/
def cacheOffEnv : Env where
  env := fun name => if name = "CACHE_ENABLED" then some "false" else sampleEnv.env name
  T := sampleEnv.T
  lib := sampleEnv.lib

theorem configured_cacheOffEnv : Configured cacheOffEnv := by
  have hparams : (queueParams cacheOffEnv.T cacheOffEnv.env).isOk = true := by decide +kernel
  refine ⟨by decide +kernel, ?_, by decide +kernel, rfl, Or.inr (by decide +kernel), ?_⟩
  · cases hq : queueParams cacheOffEnv.T cacheOffEnv.env with
    | ok params => exact ⟨params, hq⟩
    | error e =>
      rw [hq] at hparams
      cases hparams
  · decide +kernel

/-- One create while the broker is down: with the cache off there is no client to save it with. -/
theorem cache_off_lost : Configured cacheOffEnv ∧ ∃ tr s row,
    tr.map Transition.event = (saved 2 true).take 2 ∧ Run (next cacheOffEnv) .init tr s ∧
      s.sends row.id = some (row, .done) ∧ ¬ (Published s row ∨ Saved s row) := by
  have hdone : (exec (next cacheOffEnv) .init ((saved 2 true).take 2)).bind
      (fun s => s.sends (Sample.uuid 2)) = some (Sample.row, .done) := by
    decide +kernel
  have hnowhere : (exec (next cacheOffEnv) .init ((saved 2 true).take 2)).map
      (fun s => (s.publishedOf (Sample.uuid 2), s.savedOf (Sample.uuid 2))) = some ([], []) := by
    decide +kernel
  obtain ⟨s, hs, hdone⟩ := Option.bind_eq_some_iff.mp hdone
  obtain ⟨htr, h⟩ := Run.of_exec hs
  rw [hs, Option.map_some, Option.some.injEq, Prod.mk.injEq] at hnowhere
  refine ⟨configured_cacheOffEnv, _, s, Sample.row, htr, h, hdone, ?_⟩
  rintro (⟨hp, -⟩ | ⟨-, ts, hsaved⟩)
  · change s.publishedOf (Sample.uuid 2) = _ at hp
    rw [hnowhere.1] at hp
    cases hp
  · change s.savedOf (Sample.uuid 2) = _ at hsaved
    rw [hnowhere.2] at hsaved
    cases hsaved

end MessagesApp.Outbox
