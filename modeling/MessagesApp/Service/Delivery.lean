import MessagesApp.Clients.Outbox
import MessagesApp.Lib.Simulation
import MessagesApp.Service.Coherence

/-!
# The table and the queue

A create commits its row and then, in a thread of the executor, sends its event
(`Controller.py` 53–71); nothing joins the two. Here the handlers of `Service.Handlers` and the
events of `Clients.Outbox` run together: the event of a create is sent while its request is at the
publication, and the request goes on when `SendEvent` has come back, behind its fallback.
Everything else of either part goes its own way.

`Inv` ties the parts together: an event is the row of one create, which is committed, and a row
that was created is being published or has been. It is kept by steps of the events (`inv_events`)
and by steps of the handlers (`inv_service`), for which the one thing to know is what leads to a
publication and out of it.

The events run by themselves (`outbox_run`), so what `Clients.Outbox` says of its runs holds here:
an event that is through was published once or saved once, exactly where no step of its save lost
it. `created_delivered` is the two together. It has three parts: about the rows of the table, about
the events that were delivered, and about the creates that were answered.

The queue is on and its settings parse (`Outbox.Configured`), since else nothing is sent or
`SendEvent` raises. The service may stop between the commit and the event: then the row is being
published for ever, and that is how the theorem has it.
-/

set_option autoImplicit false

namespace MessagesApp.Delivery

open Py Lib Clients Controller Api
open Handlers (Request Phase)

/-- The state of the handlers and that of the events. The cache's commands of the one and those of
the other are not joined, since the events only see that there are some. -/
structure State where
  service : Handlers.State
  events : Outbox.State

inductive Event
  /-- A step of the handlers, other than the end of a publication. -/
  | service (e : Handlers.Event)
  /-- `SendEvent` of the create `i`, up to its fallback. -/
  | send (i : Nat) (b : Broker)
  /-- A step of a fallback, or of the cache's commands. -/
  | outbox (e : Outbox.Event)
  /-- `SendEvent` of the create `i` comes back. -/
  | returned (i : Nat)

def State.init (o : Table) : State := ⟨.init o, .init⟩

/-- What `SendEvent` raises: the settings of the queue are read outside its `try`. Under
`Outbox.Configured` it is nothing. -/
def raised (O : Outbox.Env) : Option String :=
  if queueEnabled O.env then match queueParams O.T O.env with
    | .error e => some e
    | .ok _ => none
  else none

/-- A step of the handlers, of the events, or one that joins them: a create at its publication sends
its event, and goes on when the event is through. A publication does not end in any other way. -/
def next (E : Handlers.Env) (O : Outbox.Env) (s : State) : Event → Option State
  | .service (.step _ .published) => none
  | .service e => (Handlers.next E s.service e).map fun service => { s with service }
  | .send i b =>
      match s.service.reqs i with
      | some (.write _, .publish row) =>
          (Outbox.next O s.events (.send row b)).map fun events => { s with events }
      | _ => none
  | .outbox (.send ..) => none
  | .outbox e => (Outbox.next O s.events e).map fun events => { s with events }
  | .returned i =>
      match s.service.reqs i with
      | some (.write c, .publish row) =>
          match s.events.sends row.id with
          | some (_, .done) =>
              match raised O with
              | some e => some { s with service := { s.service with
                  reqs := Function.update s.service.reqs i
                    (some (.write c, .answered (.http (mapErrorToHttp e)))) } }
              | none =>
                  (Handlers.next E s.service (.step i .published)).map fun service =>
                    { s with service }
          | _ => none
      | _ => none

abbrev Step := Transition State Event

variable {E : Handlers.Env} {O : Outbox.Env} {o : Table} {s s' : State} {tr : List Step}

/-- Everything a step can be. -/
inductive Did (E : Handlers.Env) (O : Outbox.Env) (s : State) : Event → State → Prop
  | service {e : Handlers.Event} {service : Handlers.State} :
      (∀ i, e ≠ .step i .published) → Handlers.next E s.service e = some service →
      Did E O s (.service e) { s with service }
  | sent {i : Nat} {b : Broker} {c : Call} {row : Row} {events : Outbox.State} :
      s.service.reqs i = some (.write c, .publish row) →
      Outbox.next O s.events (.send row b) = some events →
      Did E O s (.send i b) { s with events }
  | outbox {e : Outbox.Event} {events : Outbox.State} :
      (∀ row b, e ≠ .send row b) → Outbox.next O s.events e = some events →
      Did E O s (.outbox e) { s with events }
  | returned {i : Nat} {c : Call} {row row' : Row} {service : Handlers.State} :
      s.service.reqs i = some (.write c, .publish row) →
      s.events.sends row.id = some (row', .done) →
      Handlers.next E s.service (.step i .published) = some service →
      Did E O s (.returned i) { s with service }

theorem raised_configured (hO : Outbox.Configured O) : raised O = none := by
  obtain ⟨params, hparams⟩ := hO.params
  unfold raised
  rw [hO.queue, hparams]
  rfl

theorem did_of_next (hO : Outbox.Configured O) {e : Event} (h : next E O s e = some s') :
    Did E O s e s' := by
  unfold next at h
  split at h
  · cases h
  · rename_i e hne
    obtain ⟨service, hs, rfl⟩ := Option.map_eq_some_iff.mp h
    exact .service (fun i hi => hne i hi) hs
  · split at h
    · rename_i hreq
      obtain ⟨events, hs, rfl⟩ := Option.map_eq_some_iff.mp h
      exact .sent hreq hs
    · cases h
  · cases h
  · rename_i e hne
    obtain ⟨events, hs, rfl⟩ := Option.map_eq_some_iff.mp h
    exact .outbox (fun row b hi => hne row b hi) hs
  · split at h
    · rename_i hreq
      split at h
      · rename_i hdone
        rw [raised_configured hO] at h
        obtain ⟨service, hs, rfl⟩ := Option.map_eq_some_iff.mp h
        exact .returned hreq hdone hs
      · cases h
    · cases h

/-! ## What the handlers do -/

/-- `row` is the row that the create `c` inserts. -/
def Inserts (c : Call) (row : Row) : Prop :=
  ∃ thread user content typeM path x, c = .createMessage thread user content typeM path ∧
    row = Call.created thread user content typeM path x

def IsCreate (c : Call) : Prop :=
  ∃ thread user content typeM path, c = .createMessage thread user content typeM path

/-- The rows that were there stay, and a row is new only where it goes to be published. What the
handlers promise the events. -/
structure RowsStay (t t' : Table) (phase' : Phase) : Prop where
  kept : ∀ id r, t.byId id = some r → ∃ r', t'.byId id = some r' ∧ SameIdentity r r'
  new : ∀ id r, t'.byId id = some r → t.byId id = none →
    phase' = .publish r ∧ r.id = id

theorem RowsStay.refl (t : Table) (phase' : Phase) : RowsStay t t phase' :=
  ⟨fun _ r hr => ⟨r, hr, .refl r⟩, fun id r hr hn => by rw [hr] at hn; cases hn⟩

theorem rowsStay_of_did {c : Call} {pc : Pc} {x : Supplied} {t t' : Table} {g : Progress Pc Result}
    (h : Controller.Did x t c pc t' g) : RowsStay t t' (Handlers.afterStatement E c g) := by
  refine ⟨fun id r hr => ?_, fun id r hr hn => ?_⟩
  · obtain ⟨r', hr', hsame, -⟩ := h.byId_kept hr
    exact ⟨r', hr', hsame⟩
  · cases h with
    | created hins =>
      rw [Table.byId_insert hins] at hr
      split at hr
      · rename_i hid
        cases hr
        exact ⟨rfl, hid.symm⟩
      · rw [hr] at hn
        cases hn
    | refused | passed | lost =>
      rw [hr] at hn
      cases hn
    | @wrote c m r₀ hm hr₀ hrep =>
      have hid : (c.written x.now r₀).id = m := by rw [Call.written_id, Table.byId_id hr₀]
      rw [Table.byId_set (by rw [hid]; exact hr₀), hid] at hr
      split at hr
      · rename_i heq
        subst heq
        rw [hr₀] at hn
        cases hn
      · rw [hr] at hn
        cases hn

theorem rowsStay_of_resumed {t t' : Table} {redis redis' : Handlers.Redis} {r : Request}
    {phase phase' : Phase} {input : Handlers.Input}
    (h : Handlers.Resumed E t redis r phase input t' redis' phase') : RowsStay t t' phase' := by
  cases h with
  | ran hdid => exact rowsStay_of_did hdid
  | got => exact .refl t _
  | touched => exact .refl t _
  | selected => exact .refl t _
  | selectedBefore => exact .refl t _
  | stored => exact .refl t _
  | published => exact .refl t _
  | invalidated => exact .refl t _

/-- Only the `INSERT` of a create leads to a publication, of the row it has inserted. -/
theorem publish_of_resumed {t t' : Table} {redis redis' : Handlers.Redis} {r : Request}
    {phase : Phase} {input : Handlers.Input} {row : Row}
    (h : Handlers.Resumed E t redis r phase input t' redis' (.publish row)) :
    ∃ c, r = .write c ∧ Inserts c row ∧ t.byId row.id = none ∧ t'.byId row.id = some row := by
  generalize hphase : Phase.publish row = phase' at h
  cases h with
  | @ran c pc x t' g hdid =>
    cases hdid with
    | @created thread user content typeM path t' hins =>
      cases hphase
      obtain ⟨hfree, -⟩ := Table.insert_eq_some hins
      refine ⟨_, rfl, ⟨thread, user, content, typeM, path, x, rfl, rfl⟩, hfree, ?_⟩
      rw [Table.byId_insert hins, if_pos rfl]
    | refused => cases hphase
    | passed => cases hphase
    | lost => cases hphase
    | @wrote c m r₀ hm =>
      cases c with
      | createMessage => cases hm
      | updateMessage =>
        rcases Handlers.invalidate_cases with hp | hp <;> cases hphase.trans hp
      | deleteMessage =>
        rcases Handlers.invalidate_cases with hp | hp <;> cases hphase.trans hp
  | got =>
    rcases Handlers.afterGet_cases with ⟨_, _, hp⟩ | hp | ⟨_, hp⟩ <;> cases hphase.trans hp
  | touched => split at hphase <;> cases hphase
  | selected => split at hphase <;> cases hphase
  | selectedBefore => cases hphase
  | stored => cases hphase
  | published => rcases Handlers.invalidate_cases with hp | hp <;> cases hphase.trans hp
  | invalidated => cases hphase

/-- The way of a create: its statement, its publication, the invalidation, the answer. -/
inductive CreateStep (E : Handlers.Env) (c : Call) : Phase → Handlers.Input → Phase → Prop
  | inserted {x : Supplied} {row : Row} :
      CreateStep E c (.statement .begin) (.db x) (.publish row)
  | published {row : Row} : CreateStep E c (.publish row) .published (Handlers.invalidate E c row)
  | invalidated {row : Row} {outcome : Handlers.RedisOutcome} :
      CreateStep E c (.cacheDelete row) (.redis outcome) (.answered (Handlers.writeReply E.V c row))

theorem createStep_of_resumed {t t' : Table} {redis redis' : Handlers.Redis} {c : Call}
    {phase phase' : Phase} {input : Handlers.Input} (hc : IsCreate c)
    (h : Handlers.Resumed E t redis (.write c) phase input t' redis' phase') :
    CreateStep E c phase input phase' := by
  obtain ⟨thread, user, content, typeM, path, rfl⟩ := hc
  cases h with
  | ran hdid =>
    cases hdid with
    | created hins => exact .inserted
    | refused hm => cases hm
    | passed hm => cases hm
    | lost hm => cases hm
    | wrote hm => cases hm
  | published => exact .published
  | invalidated => exact .invalidated

/-! ## What the events do -/

/-- The events that were sent stay, each with its row, and one that is done stays done. What the
events promise the handlers. -/
structure SendsStay (e : Outbox.Event) (a a' : Outbox.State) : Prop where
  kept : ∀ id row stage, a.sends id = some (row, stage) →
    ∃ stage', a'.sends id = some (row, stage') ∧ (stage = .done → stage' = .done)
  new : ∀ id row stage, a'.sends id = some (row, stage) →
    (∃ stage₀, a.sends id = some (row, stage₀)) ∨ ∃ b, e = .send row b ∧ row.id = id

theorem SendsStay.same {e : Outbox.Event} {a a' : Outbox.State} (h : a'.sends = a.sends) :
    SendsStay e a a' := by
  refine ⟨fun id row stage hs => ⟨stage, by rw [h, hs], fun hd => hd⟩,
    fun id row stage hs => ?_⟩
  rw [h] at hs
  exact Or.inl ⟨stage, hs⟩

theorem SendsStay.moved {e : Outbox.Event} {a a' : Outbox.State} {id : UUID} {row : Row}
    {stage stage' : Outbox.Stage} (hold : a.sends id = some (row, stage)) (hne : stage ≠ .done)
    (h : a'.sends = Function.update a.sends id (some (row, stage'))) : SendsStay e a a' := by
  refine ⟨fun i q st hs => ?_, fun i q st hs => ?_⟩
  · by_cases hi : i = id
    · subst hi
      rw [hold] at hs
      cases hs
      exact ⟨stage', by rw [h, Function.update_self], fun hd => absurd hd hne⟩
    · exact ⟨st, by rw [h, Function.update_of_ne hi, hs], fun hd => hd⟩
  · rw [h] at hs
    rcases update_cases hs with ⟨rfl, heq⟩ | ⟨-, hs⟩
    · cases heq
      exact Or.inl ⟨stage, hold⟩
    · exact Or.inl ⟨st, hs⟩

theorem SendsStay.first {row : Row} {b : Broker} {a a' : Outbox.State} {stage' : Outbox.Stage}
    (hold : a.sends row.id = none)
    (h : a'.sends = Function.update a.sends row.id (some (row, stage'))) :
    SendsStay (.send row b) a a' := by
  refine ⟨fun i q st hs => ?_, fun i q st hs => ?_⟩
  · have hi : i ≠ row.id := by
      rintro rfl
      rw [hold] at hs
      cases hs
    exact ⟨st, by rw [h, Function.update_of_ne hi, hs], fun hd => hd⟩
  · rw [h] at hs
    rcases update_cases hs with ⟨rfl, heq⟩ | ⟨-, hs⟩
    · cases heq
      exact Or.inr ⟨b, rfl, rfl⟩
    · exact Or.inl ⟨st, hs⟩

theorem sendsStay_of_next (hO : Outbox.Configured O) {e : Outbox.Event} {a a' : Outbox.State}
    (h : Outbox.next O a e = some a') : SendsStay e a a' := by
  cases Outbox.did_of_next hO h with
  | published hnew => exact .first hnew rfl
  | refused hnew => exact .first hnew rfl
  | saving hrow => exact .moved hrow (by simp) rfl
  | givenUp hrow => exact .moved hrow (by simp) rfl
  | pushed hrow => exact .moved hrow (by simp) rfl
  | raised hrow => exact .moved hrow (by simp) rfl
  | dropped hrow => exact .moved hrow (by simp) rfl
  | expiring hrow => exact .moved hrow (by simp) rfl
  | expired hrow => exact .moved hrow (by simp) rfl
  | command => exact .same rfl
  | noCommand => exact .same rfl
  | commanded => exact .same rfl

/-! ## The two together -/

def Publishing (s : State) (row : Row) : Prop :=
  ∃ i c, s.service.reqs i = some (.write c, .publish row)

/-- A row that was inserted since `o`; only its content, its paths and its dates can be another's by
now. -/
def Committed (o : Table) (s : State) (row : Row) : Prop :=
  o.byId row.id = none ∧ ∃ r, s.service.table.byId row.id = some r ∧ SameIdentity row r

/-- The event of the row has been sent, and its fallback is through. -/
def SentDone (s : State) (row : Row) : Prop := s.events.sends row.id = some (row, .done)

/-- Where the creates and their events have come to. No two creates publish under one id, every
event is of a create that publishes or has done so, and a create that is past its publication has
its event through. -/
structure Inv (E : Handlers.Env) (o : Table) (s : State) : Prop where
  base : ∀ id r, o.byId id = some r → ∃ r', s.service.table.byId id = some r'
  publishing : ∀ i c row, s.service.reqs i = some (.write c, .publish row) →
    Inserts c row ∧ Committed o s row
  once : ∀ i j c c' row row', s.service.reqs i = some (.write c, .publish row) →
    s.service.reqs j = some (.write c', .publish row') → row.id = row'.id → i = j
  sent : ∀ id row stage, s.events.sends id = some (row, stage) →
    row.id = id ∧ Committed o s row ∧ (stage = .done ∨ Publishing s row)
  own : ∀ row, Publishing s row → ∀ row' stage, s.events.sends row.id = some (row', stage) →
    row' = row
  every : ∀ id r, s.service.table.byId id = some r → o.byId id = none →
    ∃ row, row.id = id ∧ (Publishing s row ∨ SentDone s row)
  finished : ∀ i c phase, s.service.reqs i = some (.write c, phase) → IsCreate c →
    phase = .statement .begin ∨ (∃ row, phase = .publish row) ∨
    ∃ row, Inserts c row ∧ SentDone s row ∧
      (phase = .cacheDelete row ∨ phase = .answered (Handlers.writeReply E.V c row))

theorem inv_init (E : Handlers.Env) (o : Table) : Inv E o (State.init o) where
  base _ r hr := ⟨r, hr⟩
  publishing _ _ _ h := by cases h
  once _ _ _ _ _ _ h := by cases h
  sent _ _ _ h := by cases h
  own _ h := by
    obtain ⟨_, _, h⟩ := h
    cases h
  every _ r hr hn := by
    change o.byId _ = some r at hr
    rw [hr] at hn
    cases hn
  finished _ _ _ h := by cases h

/-- A step of the events: a new one is the event of a create that is publishing. -/
theorem inv_events {e : Outbox.Event} {events : Outbox.State} (hI : Inv E o s)
    (hsends : SendsStay e s.events events) (hsend : ∀ row b, e = .send row b → Publishing s row) :
    Inv E o { s with events } where
  base := hI.base
  publishing := hI.publishing
  once := hI.once
  sent id row stage hs := by
    rcases hsends.new id row stage hs with ⟨stage₀, hold⟩ | ⟨b, he, hid⟩
    · obtain ⟨hid, hcom, hst⟩ := hI.sent id row stage₀ hold
      refine ⟨hid, hcom, hst.imp_left fun hd => ?_⟩
      obtain ⟨stage', hs', hdone⟩ := hsends.kept id row stage₀ hold
      change events.sends id = some (row, stage) at hs
      rw [hs, Option.some.injEq, Prod.mk.injEq] at hs'
      rw [hs'.2]
      exact hdone hd
    · have hpub := hsend row b he
      obtain ⟨i, c, hreq⟩ := hpub
      exact ⟨hid, (hI.publishing i c row hreq).2, Or.inr ⟨i, c, hreq⟩⟩
  own row hpub row' stage hs := by
    rcases hsends.new row.id row' stage hs with ⟨stage₀, hold⟩ | ⟨b, he, hid⟩
    · exact hI.own row hpub row' stage₀ hold
    · obtain ⟨i, c, hi⟩ := hpub
      obtain ⟨j, c', hj⟩ := hsend row' b he
      have hij := hI.once j i c' c row' row hj hi hid
      subst hij
      change s.service.reqs j = _ at hi
      rw [hj] at hi
      cases hi
      rfl
  every id r hr hn := by
    obtain ⟨row, hid, hst⟩ := hI.every id r hr hn
    refine ⟨row, hid, hst.imp_right fun hd => ?_⟩
    obtain ⟨stage', hs', hdone⟩ := hsends.kept _ _ _ hd
    rw [hdone rfl] at hs'
    exact hs'
  finished i c phase hi hc := by
    rcases hI.finished i c phase hi hc with h | h | ⟨row, hins, hd, hphase⟩
    · exact Or.inl h
    · exact Or.inr (Or.inl h)
    · obtain ⟨stage', hs', hdone⟩ := hsends.kept _ _ _ hd
      rw [hdone rfl] at hs'
      exact Or.inr (Or.inr ⟨row, hins, hs', hphase⟩)

theorem Committed.kept {service : Handlers.State} {row : Row} (h : Committed o s row)
    (hkept : ∀ id r, s.service.table.byId id = some r →
      ∃ r', service.table.byId id = some r' ∧ SameIdentity r r') :
    Committed o { s with service } row := by
  obtain ⟨hfree, r, hr, hsame⟩ := h
  obtain ⟨r', hr', hsame'⟩ := hkept _ r hr
  exact ⟨hfree, r', hr', hsame.trans hsame'⟩

/-- A step of a request: one that leaves its publication has its event sent. -/
theorem inv_resumed {i : Nat} {r : Request} {phase phase' : Phase} {input : Handlers.Input}
    {t : Table} {redis : Handlers.Redis} (hI : Inv E o s)
    (hr : s.service.reqs i = some (r, phase))
    (hres : Handlers.Resumed E s.service.table s.service.redis r phase input t redis phase')
    (hret : ∀ row, phase = .publish row → ∃ row', s.events.sends row.id = some (row', .done)) :
    Inv E o { s with
      service := ⟨t, redis, Function.update s.service.reqs i (some (r, phase'))⟩ } := by
  obtain ⟨hkept, hnew⟩ := rowsStay_of_resumed hres
  -- what `i` was publishing has been sent
  have hdone : ∀ c row, s.service.reqs i = some (.write c, .publish row) → SentDone s row := by
    intro c row hi
    rw [hr] at hi
    obtain ⟨rfl, rfl⟩ := Prod.mk.inj (Option.some.inj hi)
    obtain ⟨row', hs⟩ := hret row rfl
    have hown := hI.own row ⟨i, c, hr⟩ row' _ hs
    rw [hown] at hs
    exact hs
  -- what `i` goes on to publish is a new row
  have hfresh : ∀ row, phase' = .publish row →
      s.service.table.byId row.id = none ∧ t.byId row.id = some row := by
    rintro row rfl
    obtain ⟨-, -, -, hfree, hin⟩ := publish_of_resumed hres
    exact ⟨hfree, hin⟩
  have hpub : ∀ row, Publishing s row → Publishing { s with
      service := ⟨t, redis, Function.update s.service.reqs i (some (r, phase'))⟩ } row ∨
        SentDone s row := by
    rintro row ⟨j, c, hj⟩
    by_cases hji : j = i
    · rw [hji] at hj
      exact Or.inr (hdone c row hj)
    · exact Or.inl ⟨j, c, by simp only [Function.update_of_ne hji, hj]⟩
  refine ⟨?_, ?_, ?_, ?_, ?_, ?_, ?_⟩
  · intro id q hq
    obtain ⟨q', hq'⟩ := hI.base id q hq
    obtain ⟨q'', hq'', -⟩ := hkept id q' hq'
    exact ⟨q'', hq''⟩
  · intro j c row hj
    rcases update_cases hj with ⟨-, heq⟩ | ⟨-, hold⟩
    · obtain ⟨rfl, rfl⟩ := Prod.mk.inj heq
      obtain ⟨c', hc', hins, hfree, hin⟩ := publish_of_resumed hres
      cases hc'
      refine ⟨hins, ?_, row, hin, .refl row⟩
      cases hob : o.byId row.id with
      | none => rfl
      | some q =>
        obtain ⟨q', hq'⟩ := hI.base _ q hob
        rw [hfree] at hq'
        cases hq'
    · obtain ⟨hins, hcom⟩ := hI.publishing j c row hold
      exact ⟨hins, hcom.kept hkept⟩
  · intro j k c c' row row' hj hk hid
    rcases update_cases hj with ⟨hji, heq⟩ | ⟨-, hjold⟩
    · rcases update_cases hk with ⟨hki, -⟩ | ⟨-, hkold⟩
      · rw [hji, hki]
      · obtain ⟨hfree, -⟩ := hfresh row (Prod.mk.inj heq).2
        obtain ⟨-, -, q, hq, -⟩ := hI.publishing k c' row' hkold
        rw [hid, hq] at hfree
        cases hfree
    · rcases update_cases hk with ⟨-, heq⟩ | ⟨-, hkold⟩
      · obtain ⟨hfree, -⟩ := hfresh row' (Prod.mk.inj heq).2
        obtain ⟨-, -, q, hq, -⟩ := hI.publishing j c row hjold
        rw [← hid, hq] at hfree
        cases hfree
      · exact hI.once j k c c' row row' hjold hkold hid
  · intro id row stage hs
    obtain ⟨hid, hcom, hst⟩ := hI.sent id row stage hs
    refine ⟨hid, hcom.kept hkept, ?_⟩
    rcases hst with hd | hp
    · exact Or.inl hd
    · rcases hpub row hp with hp | hd
      · exact Or.inr hp
      · change s.events.sends id = _ at hs
        rw [SentDone, hid, hs] at hd
        cases hd
        exact Or.inl rfl
  · intro row hp row' stage hs
    obtain ⟨j, c, hj⟩ := hp
    rcases update_cases hj with ⟨-, heq⟩ | ⟨-, hold⟩
    · obtain ⟨hfree, -⟩ := hfresh row (Prod.mk.inj heq).2
      obtain ⟨hid, ⟨-, q, hq, -⟩, -⟩ := hI.sent row.id row' stage hs
      rw [hid, hfree] at hq
      cases hq
    · exact hI.own row ⟨j, c, hold⟩ row' stage hs
  · intro id q hq hn
    cases hold : s.service.table.byId id with
    | none =>
      obtain ⟨hphase, hid⟩ := hnew id q hq hold
      subst hphase
      obtain ⟨c, rfl, -⟩ := publish_of_resumed hres
      exact ⟨q, hid, Or.inl ⟨i, c, Function.update_self ..⟩⟩
    | some q₀ =>
      obtain ⟨row, hid, hst⟩ := hI.every id q₀ hold hn
      refine ⟨row, hid, ?_⟩
      rcases hst with hp | hd
      · exact hpub row hp
      · exact Or.inr hd
  · intro j c ph hj hc
    rcases update_cases hj with ⟨rfl, heq⟩ | ⟨-, hold⟩
    · obtain ⟨rfl, rfl⟩ := Prod.mk.inj heq
      cases createStep_of_resumed hc hres with
      | inserted => exact Or.inr (Or.inl ⟨_, rfl⟩)
      | @published row =>
        refine Or.inr (Or.inr ⟨row, (hI.publishing j c row hr).1, hdone c row hr, ?_⟩)
        exact Handlers.invalidate_cases
      | @invalidated row outcome =>
        rcases hI.finished j c _ hr hc with h | ⟨_, h⟩ | ⟨row', hins, hd, h | h⟩
        · cases h
        · cases h
        · cases h
          exact Or.inr (Or.inr ⟨row, hins, hd, Or.inr rfl⟩)
        · cases h
    · exact hI.finished j c ph hold hc

theorem inv_service {e : Handlers.Event} {service : Handlers.State} (hI : Inv E o s)
    (he : Handlers.next E s.service e = some service)
    (hret : ∀ i, e = .step i .published → ∀ c row,
      s.service.reqs i = some (.write c, .publish row) →
        ∃ row', s.events.sends row.id = some (row', .done)) :
    Inv E o { s with service } := by
  rcases Handlers.step_cases he with ⟨i, r, -, hi, -, rfl⟩ |
    ⟨i, input, r, phase, t, redis, phase', rfl, hr, hres, rfl⟩ | ⟨key, -, rfl⟩
  · -- an arrival waits for its first statement at most
    have hreqs : ∀ j q, Function.update s.service.reqs i (some (r, Handlers.start E r)) j =
        some q → s.service.reqs j = some q ∨ q = (r, Handlers.start E r) := by
      intro j q hj
      rcases update_cases hj with ⟨-, rfl⟩ | ⟨-, hold⟩
      · exact Or.inr rfl
      · exact Or.inl hold
    have hstart : ∀ row, Handlers.start E r ≠ .publish row := by
      intro row hp
      rcases Handlers.start_cases (E := E) (r := r) with h | ⟨_, h⟩ | ⟨_, h⟩ | ⟨_, -, h⟩ <;>
        cases h.symm.trans hp
    have hpub : ∀ j c row, Function.update s.service.reqs i (some (r, Handlers.start E r)) j =
        some (.write c, .publish row) → s.service.reqs j = some (.write c, .publish row) := by
      intro j c row hj
      rcases hreqs j _ hj with hold | heq
      · exact hold
      · exact absurd (Prod.mk.inj heq).2.symm (hstart row)
    have hkeep : ∀ row, Publishing s row → Publishing { s with service := { s.service with
        reqs := Function.update s.service.reqs i (some (r, Handlers.start E r)) } } row := by
      rintro row ⟨j, c, hj⟩
      have hji : j ≠ i := by
        rintro rfl
        rw [hi] at hj
        cases hj
      exact ⟨j, c, by simp only [Function.update_of_ne hji, hj]⟩
    refine ⟨hI.base, fun j c row hj => hI.publishing j c row (hpub j c row hj), ?_, ?_, ?_, ?_, ?_⟩
    · intro j k c c' row row' hj hk hid
      exact hI.once j k c c' row row' (hpub j c row hj) (hpub k c' row' hk) hid
    · intro id row stage hs
      obtain ⟨hid, hcom, hst⟩ := hI.sent id row stage hs
      exact ⟨hid, hcom, hst.imp_right (hkeep row)⟩
    · rintro row ⟨j, c, hj⟩ row' stage hs
      exact hI.own row ⟨j, c, hpub j c row hj⟩ row' stage hs
    · intro id q hq hn
      obtain ⟨row, hid, hst⟩ := hI.every id q hq hn
      exact ⟨row, hid, hst.imp_left (hkeep row)⟩
    · intro j c phase hj hc
      rcases hreqs j _ hj with hold | heq
      · exact hI.finished j c phase hold hc
      · obtain ⟨rfl, rfl⟩ := Prod.mk.inj heq
        exact Or.inl rfl
  · refine inv_resumed hI hr hres ?_
    rintro row rfl
    cases hres with
    | published => exact hret i rfl _ row hr
  · exact ⟨hI.base, hI.publishing, hI.once, hI.sent, hI.own, hI.every, hI.finished⟩

/-- **A step keeps the table and the queue together**, whichever part makes it. -/
theorem inv_step (hO : Outbox.Configured O) {e : Event} (hI : Inv E o s)
    (he : next E O s e = some s') : Inv E o s' := by
  cases did_of_next hO he with
  | service hne hs => exact inv_service hI hs fun i hi => absurd hi (hne i)
  | @sent i b c row events hreq hs =>
    refine inv_events hI (sendsStay_of_next hO hs) fun row' b' h => ?_
    cases h
    exact ⟨i, c, hreq⟩
  | outbox hne hs =>
    exact inv_events hI (sendsStay_of_next hO hs) fun row b h => absurd h (hne row b)
  | @returned i c row row' service hreq hdone hs =>
    refine inv_service hI hs fun j hj c' row'' hreq' => ?_
    cases hj
    rw [hreq] at hreq'
    cases hreq'
    exact ⟨row', hdone⟩

theorem inv_of_run (hO : Outbox.Configured O) (h : Run (next E O) (State.init o) tr s) :
    Inv E o s :=
  h.inv (I := Inv E o) (inv_init E o) fun _ _ _ hI he => inv_step hO hI he

/-! ## The events run by themselves -/

/-- The step of the events that a step is. -/
def outboxEvent? (t : Step) : Option Outbox.Event :=
  match t.event with
  | .send i b => match t.pre.service.reqs i with
      | some (.write _, .publish row) => some (.send row b)
      | _ => none
  | .outbox e => some e
  | _ => none

/-- **The events are a run of `Clients.Outbox`**: the steps of the whole that are theirs. -/
theorem outbox_run (hO : Outbox.Configured O) (h : Run (next E O) (State.init o) tr s) :
    Run (Outbox.next O) .init (partSteps State.events outboxEvent? tr) s.events := by
  refine h.part (f := State.events) (fun s e s' e' he hg => ?_) (fun s e s' he hg => ?_)
  · cases did_of_next hO he with
    | service => cases hg
    | sent hreq hs =>
      simp only [outboxEvent?, hreq, Option.some.injEq] at hg
      subst hg
      exact hs
    | outbox hne hs =>
      cases hg
      exact hs
    | returned => cases hg
  · cases did_of_next hO he with
    | service => rfl
    | sent hreq =>
      simp only [outboxEvent?, hreq] at hg
      cases hg
    | outbox => cases hg
    | returned => rfl

/-! ## Every create and its event -/

/-- Published once and not saved, or saved once and not published. Never both. -/
def Delivered (s : State) (row : Row) : Prop :=
  Outbox.Published s.events row ∨ Outbox.Saved s.events row

/-- A step that loses the event of a message: its save finds the cache off, or its push raises on
another loop's connection before the command has reached Redis. -/
def loses (O : Outbox.Env) (id : UUID) (t : Step) : Bool :=
  match t.event with
  | .outbox e => Outbox.loses O id ⟨t.pre.events, e, t.post.events⟩
  | _ => false

/-- No step has lost the event of this message. -/
def Kept (O : Outbox.Env) (tr : List Step) (id : UUID) : Prop := ∀ t ∈ tr, loses O id t = false

theorem kept_iff_not_lost (id : UUID) :
    Kept O tr id ↔ ¬ Outbox.Lost O (partSteps State.events outboxEvent? tr) id := by
  have hsame : ∀ (t : Step) e, outboxEvent? t = some e →
      loses O id t = Outbox.loses O id ⟨t.pre.events, e, t.post.events⟩ := by
    intro t e he
    unfold outboxEvent? at he
    unfold loses
    split at he
    · rename_i hevent
      split at he
      · -- sending the event loses nothing
        cases he
        rw [hevent]
        rfl
      · cases he
    · rename_i hevent
      cases he
      rw [hevent]
    · cases he
  constructor
  · rintro hkept ⟨t', ht', hlost⟩
    obtain ⟨t, ht, e, he, rfl⟩ := mem_partSteps.mp ht'
    rw [← hsame t e he, hkept t ht] at hlost
    cases hlost
  · intro hnot t ht
    by_contra hlost
    rw [Bool.not_eq_false] at hlost
    cases he : outboxEvent? t with
    | some e =>
      exact hnot ⟨_, mem_partSteps.mpr ⟨t, ht, e, he, rfl⟩, (hsame t e he) ▸ hlost⟩
    | none =>
      unfold loses at hlost
      split at hlost
      · rename_i hevent
        rw [outboxEvent?, hevent] at he
        cases he
      · cases hlost

/-- What was published or saved under an id is the event that was sent for it. -/
theorem events_of_accounted {a : Outbox.State} {id : UUID} {lost : Prop}
    {x : Option (Row × Outbox.Stage)} (h : Outbox.Accounted a id lost x) :
    (∀ d ∈ a.publishedOf id, ∃ row stage, x = some (row, stage) ∧ d = Outbox.eventData row) ∧
    ∀ e ∈ a.savedOf id, ∃ row stage, x = some (row, stage) ∧ e.data = Outbox.eventData row := by
  have habsent : Outbox.Absent a id → (∀ d ∈ a.publishedOf id, ∃ row stage,
      x = some (row, stage) ∧ d = Outbox.eventData row) ∧ ∀ e ∈ a.savedOf id, ∃ row stage,
        x = some (row, stage) ∧ e.data = Outbox.eventData row := by
    rintro ⟨hp, hs⟩
    rw [hp, hs]
    exact ⟨fun d hd => by simp at hd, fun e he => by simp at he⟩
  cases x with
  | none => exact habsent h.1
  | some q =>
    obtain ⟨row, stage⟩ := q
    obtain ⟨rfl, h⟩ := h
    have hpub : Outbox.Published a row → (∀ d ∈ a.publishedOf row.id, ∃ row' stage',
        some (row, stage) = some (row', stage') ∧ d = Outbox.eventData row') ∧
        ∀ e ∈ a.savedOf row.id, ∃ row' stage', some (row, stage) = some (row', stage') ∧
          e.data = Outbox.eventData row' := by
      rintro ⟨hp, hs⟩
      rw [hp, hs]
      refine ⟨fun d hd => ⟨row, stage, rfl, ?_⟩, fun e he => by simp at he⟩
      simpa using hd
    have hsav : Outbox.Saved a row → (∀ d ∈ a.publishedOf row.id, ∃ row' stage',
        some (row, stage) = some (row', stage') ∧ d = Outbox.eventData row') ∧
        ∀ e ∈ a.savedOf row.id, ∃ row' stage', some (row, stage) = some (row', stage') ∧
          e.data = Outbox.eventData row' := by
      rintro ⟨hp, ts, hs⟩
      rw [hp, hs]
      refine ⟨fun d hd => by simp at hd, fun e he => ⟨row, stage, rfl, ?_⟩⟩
      rw [List.mem_singleton] at he
      rw [he]
    cases stage with
    | refused => exact habsent h.1
    | pushing => exact habsent h.1
    | pushed => exact hsav h.1
    | expiring => exact hsav h.1
    | done =>
      rcases h with ⟨ha, -⟩ | ⟨hp | hs, -⟩
      · exact habsent ha
      · exact hpub hp
      · exact hsav hs

/-- **The table and the queue agree.** A row that was created is being published, or its event was
delivered once, exactly where no step of its save lost it; no event is delivered that is not the row
of a create, committed before; and a create is not answered before its event is through. -/
theorem created_delivered (hO : Outbox.Configured O) (h : Run (next E O) (State.init o) tr s) :
    (∀ id r, s.service.table.byId id = some r → o.byId id = none →
      ∃ row, row.id = id ∧ SameIdentity row r ∧
        (Publishing s row ∨ SentDone s row ∧ (Delivered s row ↔ Kept O tr id))) ∧
    (∀ d, (d ∈ s.events.published ∨ ∃ e ∈ s.events.outbox, e.data = d) →
      d.tag = "messages_service" ∧ Committed o s d.message) ∧
    (∀ i c reply, s.service.reqs i = some (.write c, .answered reply) → IsCreate c →
      ∃ row, Inserts c row ∧ Committed o s row ∧ reply = Handlers.writeReply E.V c row ∧
        (Delivered s row ↔ Kept O tr row.id)) := by
  have hI := inv_of_run hO h
  have hout := Outbox.inv_of_run hO (outbox_run hO h)
  have hdelivered : ∀ row, SentDone s row → (Delivered s row ↔ Kept O tr row.id) := by
    intro row hd
    have hacc := hout.accounted row.id
    rw [hd] at hacc
    rw [kept_iff_not_lost]
    exact Outbox.delivered_iff hacc
  refine ⟨fun id r hr hn => ?_, fun d hd => ?_, fun i c reply hi hc => ?_⟩
  · obtain ⟨row, rfl, hst⟩ := hI.every id r hr hn
    have hsame : SameIdentity row r := by
      have hcom : Committed o s row := by
        rcases hst with ⟨i, c, hreq⟩ | hd
        · exact (hI.publishing i c row hreq).2
        · exact (hI.sent _ row _ hd).2.1
      obtain ⟨-, r', hr', hsame⟩ := hcom
      rw [hr, Option.some.injEq] at hr'
      rw [hr']
      exact hsame
    exact ⟨row, rfl, hsame, hst.imp_right fun hd => ⟨hd, hdelivered row hd⟩⟩
  · obtain ⟨row, stage, hs, rfl⟩ : ∃ row stage,
        s.events.sends d.message.id = some (row, stage) ∧ d = Outbox.eventData row := by
      have hev := events_of_accounted (hout.accounted d.message.id)
      rcases hd with hp | ⟨e, he, rfl⟩
      · exact hev.1 d (List.mem_filter.mpr ⟨hp, by simp⟩)
      · exact hev.2 e (List.mem_filter.mpr ⟨he, by simp⟩)
    exact ⟨rfl, (hI.sent _ row stage hs).2.1⟩
  · rcases hI.finished i c _ hi hc with hp | ⟨_, hp⟩ | ⟨row, hins, hd, hp | hp⟩
    · cases hp
    · cases hp
    · cases hp
    · cases hp
      exact ⟨row, hins, (hI.sent _ row _ hd).2.1, rfl, hdelivered row hd⟩

/-- Two creates while the broker is down for the first; its save is alone. The second is published,
and is not answered yet. -/
def twoCreates : List Event :=
  [.service (.arrive 0 (.write (.createMessage Sample.thread Sample.user (some "uno") none none))),
    .service (.arrive 1 (.write (.createMessage Sample.thread Sample.user (some "dos") none none))),
    .service (.step 0 (.db ⟨Sample.minute 1, Sample.uuid 4⟩)),
    .send 0 (.down "connection refused"),
    .service (.step 1 (.db ⟨Sample.minute 2, Sample.uuid 5⟩)),
    .outbox (.save (Sample.uuid 4)),
    .send 1 .up,
    .outbox (.push (Sample.uuid 4) 7 true true),
    .returned 0,
    .service (.step 0 (.redis .done))]

theorem created_delivered_twoCreates : ∃ tr s row reply,
    tr.map Transition.event = twoCreates ∧
    Run (next Handlers.sampleEnv Outbox.sampleEnv) (State.init Sample.table) tr s ∧
    s.service.reqs 0 = some (.write (.createMessage Sample.thread Sample.user (some "uno") none none),
      .answered reply) ∧
    Committed Sample.table s row ∧ Delivered s row := by
  have hrun : ((exec (next Handlers.sampleEnv Outbox.sampleEnv) (State.init Sample.table)
      twoCreates).bind fun s => s.service.reqs 0).isSome := by
    decide +kernel
  obtain ⟨q, hq⟩ := Option.isSome_iff_exists.mp hrun
  obtain ⟨s, hs, hreq⟩ := Option.bind_eq_some_iff.mp hq
  obtain ⟨htr, h⟩ := Run.of_exec hs
  have hanswered : ((exec (next Handlers.sampleEnv Outbox.sampleEnv) (State.init Sample.table)
      twoCreates).bind fun s => s.service.reqs 0).map (fun q => (q.1, Handlers.isAnswered (some q))) =
      some (.write (.createMessage Sample.thread Sample.user (some "uno") none none), true) := by
    decide +kernel
  rw [hq, Option.map_some, Option.some.injEq, Prod.mk.injEq] at hanswered
  obtain ⟨r, phase⟩ := q
  obtain ⟨rfl, hphase⟩ := hanswered
  have hon : flag Outbox.sampleEnv.env "CACHE_ENABLED" "true" = true := by decide +kernel
  have hkept : ∀ id, Kept Outbox.sampleEnv (trace (next Handlers.sampleEnv Outbox.sampleEnv)
      (State.init Sample.table) twoCreates) id := by
    intro id t ht
    have hmem : t.event ∈ twoCreates := htr ▸ List.mem_map_of_mem ht
    simp only [twoCreates, List.mem_cons, List.not_mem_nil, or_false] at hmem
    unfold loses
    rcases hmem with he | he | he | he | he | he | he | he | he | he <;> rw [he] <;>
      simp [Outbox.loses, hon]
  cases phase with
  | answered reply =>
    obtain ⟨row, hins, hcom, -, hiff⟩ := (created_delivered Outbox.configured_sampleEnv h).2.2 0 _
      reply hreq ⟨_, _, _, _, _, rfl⟩
    exact ⟨_, s, row, reply, htr, h, hreq, hcom, hiff.mpr (hkept row.id)⟩
  | _ => cases hphase

end MessagesApp.Delivery
