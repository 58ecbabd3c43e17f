import MessagesApp.Service.Atomicity
import MessagesApp.Service.Linearizable
import MessagesApp.Lib.Interference

/-!
# Whose requests affect a message

`get_user_id` wants a UUID in `X-User-Id`; what it reads becomes the `user_id` of a message that is
created. `UpdateMessage` and `DeleteMessage` take it and do not look at it (`Controller.py` 78–154),
nor does any statement they run. What keeps a request from a message is its path: the check of both
compares the thread.

Here requests arrive with their headers, and the calls they make are interleaved statement by
statement. To say that a request has no effect takes two runs, one with it and one without, and the
library's `Without` relates them. `follows` is the step: a request that is left out was misdirected
and writes nothing (`misdirected_quiet`), and the calls of the others run the same statements
whoever sent them (`alike_call`).

A misdirected request on the message has a header that is no UUID, so that it makes no call, or a
path with another thread, so that its check refuses it. The second needs that a row's thread is
what it will be (`inThread_before`): the message is known from the end of the run, and the check may
have come before it was created.

Whether the service should know its users is not for it to say: the header is whatever the caller
puts there, and a gateway in front of it may check it.
-/

set_option autoImplicit false

namespace MessagesApp.Authors

open Py Lib Controller

/-- The requests by their numbers, each with its `X-User-Id`. -/
abbrev Requests := Nat → String × Writes.Request

inductive Event
  /-- the request of this number reaches its handler -/
  | arrive (i : Nat)
  /-- the next statement of its call -/
  | step (i : Nat) (x : Supplied)

def Event.caller : Event → Nat
  | .arrive i => i
  | .step i _ => i

/-- What happens to the calls. A header that is no UUID is answered 400, and there is no call; its
later steps are none. -/
def serviceEvent (reqs : Requests) : Event → Option Controller.Event
  | .arrive i => (UUID.parse (reqs i).1.toList).map fun user => .invoke i ((reqs i).2.call user)
  | .step i x => some (.step i x)

def next (reqs : Requests) (s : Controller.State) (e : Event) : Option Controller.State :=
  match serviceEvent reqs e with
  | none => some s
  | some e => service.next s e

abbrev Step := Transition Controller.State Event

/-- The message in the path of an update or a delete. -/
def message? : Writes.Request → Option UUID
  | .createMessage .. => none
  | .updateMessage _ message .. => some message
  | .deleteMessage _ message => some message

/-- The thread in the path. -/
def thread : Writes.Request → UUID
  | .createMessage thread .. => thread
  | .updateMessage thread .. => thread
  | .deleteMessage thread _ => thread

/-- An update or a delete of the message that does not come from its author, by the ids that the
headers give. -/
def foreign (reqs : Requests) (r : Row) (i : Nat) : Bool :=
  message? (reqs i).2 = some r.id ∧ UUID.parse (reqs i).1.toList ≠ some r.userId

/-- One whose header is no UUID, or whose path has another thread. It can be read off the request
and the message, without the run. -/
def misdirected (reqs : Requests) (r : Row) (i : Nat) : Bool :=
  message? (reqs i).2 = some r.id ∧
    (UUID.parse (reqs i).1.toList = none ∨ thread (reqs i).2 ≠ r.threadId)

/-- Without the requests in `removed` a message of the table has the same content, paths and
`deleted_at`. The other events of the run stay as they were and in their order. -/
def NotAffectedBy (reqs : Requests) (removed : Row → Nat → Bool) (o : Table) : Prop :=
  ∀ tr s r, Run (next reqs) (Service.State.init o) tr s → r ∈ s.obj.rows →
    ∃ tr' s' r', Run (next reqs) (Service.State.init o) tr' s' ∧
      tr'.map Transition.event =
        (tr.map Transition.event).filter (fun e => !removed r e.caller) ∧
      s'.obj.byId r.id = some r' ∧ r'.content = r.content ∧ r'.paths = r.paths ∧
      r'.deletedAt = r.deletedAt

/-- The same requests, but for who sends the updates and deletes. A header that is a UUID stays one,
and creates keep their user. -/
def SameButUser (reqs reqs' : Requests) : Prop :=
  ∀ i, (reqs' i).2 = (reqs i).2 ∧
    (UUID.parse (reqs' i).1.toList = none ↔ UUID.parse (reqs i).1.toList = none) ∧
    (message? (reqs i).2 = none →
      UUID.parse (reqs' i).1.toList = UUID.parse (reqs i).1.toList)

/-! ## Calls -/

variable {reqs reqs' : Requests} {s s' : Controller.State} {e : Event} {o : Table}

/-- Calls that run the same statements. -/
def Alike (c c' : Call) : Prop := statement c' = statement c

/-- **An update or a delete does not look at its user**: with another one it runs the same
statements. -/
theorem alike_call (r : Writes.Request) {user user' : UUID}
    (h : message? r = none → user' = user) : Alike (r.call user) (r.call user') := by
  cases r with
  | createMessage =>
    rw [h rfl]
    exact Eq.refl _
  | updateMessage => rfl
  | deleteMessage => rfl

theorem serviceEvent_related (h : SameButUser reqs reqs') (e : Event) :
    Option.Rel (Service.Event.Related Alike) (serviceEvent reqs e) (serviceEvent reqs' e) := by
  cases e with
  | step i x => exact .some .step
  | arrive i =>
    obtain ⟨hreq, hnone, hcreate⟩ := h i
    simp only [serviceEvent, hreq]
    cases hu : UUID.parse (reqs i).1.toList with
    | none =>
      rw [hnone.mpr hu]
      exact .none
    | some user =>
      cases hu' : UUID.parse (reqs' i).1.toList with
      | none =>
        rw [hnone.mp hu'] at hu
        cases hu
      | some user' =>
        refine .some (.invoke (alike_call _ fun hm => ?_))
        have hsame := hcreate hm
        rw [hu, hu', Option.some.injEq] at hsame
        exact hsame

theorem serviceEvent_caller {e' : Controller.Event} (h : serviceEvent reqs e = some e') :
    e'.caller = e.caller := by
  cases e with
  | step i x =>
    cases h
    rfl
  | arrive i =>
    obtain ⟨user, -, rfl⟩ := Option.map_eq_some_iff.mp h
    rfl

/-- The calls of a run are a run of the service. -/
theorem run_service {tr : List Step} (h : Run (next reqs) (Service.State.init o) tr s) :
    ∃ tr', Run service.next (Service.State.init o) tr' s := by
  induction h with
  | nil => exact ⟨[], .nil⟩
  | @snoc tr m s e _ he ih =>
    obtain ⟨tr', hr⟩ := ih
    unfold next at he
    cases hse : serviceEvent reqs e with
    | none =>
      rw [hse] at he
      cases he
      exact ⟨tr', hr⟩
    | some e' =>
      rw [hse] at he
      exact ⟨_, hr.snoc he⟩

/-- Every call is of its request: it has the arguments of the path and the body, and the user of the
header. -/
def Called (reqs : Requests) (s : Controller.State) : Prop :=
  ∀ i c g, s.calls i = some (c, g) →
    ∃ user, UUID.parse (reqs i).1.toList = some user ∧ c = (reqs i).2.call user

theorem called_step (h : Called reqs s) (he : next reqs s e = some s') : Called reqs s' := by
  unfold next at he
  cases hse : serviceEvent reqs e with
  | none =>
    rw [hse] at he
    cases he
    exact h
  | some e' =>
    rw [hse] at he
    intro j c g hj
    rcases step_cases he with ⟨i, c', rfl, -, rfl⟩ | ⟨i, x, c', pc, t', g', rfl, hc, -, rfl⟩
    · rcases update_cases hj with ⟨rfl, hcg⟩ | ⟨-, hj⟩
      · cases e with
        | step i x => cases hse
        | arrive i =>
          obtain ⟨user, hu, hev⟩ := Option.map_eq_some_iff.mp hse
          cases hev
          cases hcg
          exact ⟨user, hu, rfl⟩
      · exact h j c g hj
    · rcases update_cases hj with ⟨rfl, hcg⟩ | ⟨-, hj⟩
      · cases hcg
        exact h j _ _ hc
      · exact h j c g hj

theorem called_of_run {tr : List Step} (h : Run (next reqs) (Service.State.init o) tr s) :
    Called reqs s :=
  h.inv (I := Called reqs) (fun _ _ _ hc => by cases hc) fun _ _ _ hc he => called_step hc he

theorem call_message (r : Writes.Request) (user : UUID) : (r.call user).message? = message? r := by
  cases r <;> rfl

theorem call_thread (r : Writes.Request) (user : UUID) : (r.call user).thread = thread r := by
  cases r <;> rfl

/-! ## Requests that come to nothing -/

/-- The row of the message, where it is there, is of this thread. -/
def InThread (id threadId : UUID) (t : Table) : Prop :=
  ∀ r, t.byId id = some r → r.threadId = threadId

/-- A row's thread is what it will be. -/
theorem inThread_before {id threadId : UUID} (h : InThread id threadId s'.obj)
    (he : next reqs s e = some s') : InThread id threadId s.obj := by
  intro r hr
  unfold next at he
  cases hse : serviceEvent reqs e with
  | none =>
    rw [hse] at he
    cases he
    exact h r hr
  | some e' =>
    rw [hse] at he
    obtain ⟨r', hr', hsame, -⟩ := row_stays (.snoc .nil he) hr
    exact hsame.threadId.symm.trans (h r' hr')

/-- **A misdirected request does not write.** It has made no call, or its check refuses it, or there
is no such message yet. -/
theorem misdirected_quiet {tr : List Step} {r : Row}
    (h : Run (next reqs) (Service.State.init o) tr s) (he : next reqs s e = some s')
    (hr : InThread r.id r.threadId s.obj) (hm : misdirected reqs r e.caller = true) :
    s'.obj = s.obj := by
  unfold misdirected at hm
  obtain ⟨hmsg, hwrong⟩ := of_decide_eq_true hm
  obtain ⟨tr', hrun⟩ := run_service h
  have hcalled := called_of_run h
  unfold next at he
  cases hse : serviceEvent reqs e with
  | none =>
    rw [hse] at he
    cases he
    rfl
  | some e' =>
    rw [hse] at he
    have hcaller := serviceEvent_caller hse
    rcases step_cases he with ⟨i, c, rfl, -, rfl⟩ | ⟨i, x, c, pc, t', g, rfl, hc, hdid, rfl⟩
    · rfl
    · obtain ⟨user, hu, hcall⟩ := hcalled i c (.running pc) hc
      rw [← hcaller] at hmsg hwrong
      have hcm : c.message? = some r.id := by
        rw [hcall, call_message]
        exact hmsg
      have hct : c.thread ≠ r.threadId := by
        rw [hcall, call_thread]
        exact hwrong.resolve_left fun hnone => absurd (hu.symm.trans hnone) (by simp)
      cases hdid with
      | created => cases hcm
      | refused => rfl
      | passed => rfl
      | lost => rfl
      | @wrote c m r' hm' hr' hrep =>
        -- its check has seen the row in the thread it names
        obtain ⟨m', r₁, hm₁, hr₁, ht₁⟩ := checked_of_run hrun i _ _ hc rfl
        rw [hcm, Option.some.injEq] at hm₁
        exact absurd (ht₁.symm.trans (hr r₁ (hm₁ ▸ hr₁))) hct

/-! ## Two runs -/

/-- The run without the misdirected requests follows: every other event is one of it too, and the
table stays the same. By induction on the run. -/
theorem follows (hsame : SameButUser reqs reqs') {tr : List Step} {r : Row}
    (h : Run (next reqs) (Service.State.init o) tr s) (hr : InThread r.id r.threadId s.obj) :
    ∃ tr' s', Run (next reqs') (Service.State.init o) tr' s' ∧
      tr'.map Transition.event =
        (tr.map Transition.event).filter (fun e => !misdirected reqs r e.caller) ∧
      Service.Without Alike (fun i => misdirected reqs r i = true) s s' := by
  induction h with
  | nil => exact ⟨[], _, .nil, rfl, .init o⟩
  | @snoc tr m s e hrun he ih =>
    have hrm := inThread_before hr he
    obtain ⟨tr', s', hrun', hevents, hw⟩ := ih hrm
    have hcut : ((tr ++ [Transition.mk m e s]).map Transition.event).filter
          (fun e => !misdirected reqs r e.caller) =
        tr'.map Transition.event ++ if misdirected reqs r e.caller then [] else [e] := by
      rw [List.map_append, List.filter_append, ← hevents]
      cases hm : misdirected reqs r e.caller <;> simp [hm]
    rw [hcut]
    have hrel := serviceEvent_related hsame e
    cases hm : misdirected reqs r e.caller with
    | true =>
      have hquiet := misdirected_quiet hrun he hrm hm
      refine ⟨tr', s', hrun', by simp, ?_⟩
      unfold next at he
      cases hse : serviceEvent reqs e with
      | none =>
        rw [hse] at he
        cases he
        exact hw
      | some e₁ =>
        rw [hse] at he
        refine hw.dropped he ?_ hquiet
        rw [serviceEvent_caller hse]
        exact hm
    | false =>
      have hnext : ∃ s₁, next reqs' s' e = some s₁ ∧
          Service.Without Alike (fun i => misdirected reqs r i = true) s s₁ := by
        unfold next at he ⊢
        generalize serviceEvent reqs' e = e' at hrel
        cases hse : serviceEvent reqs e with
        | none =>
          rw [hse] at he hrel
          cases he
          cases hrel
          exact ⟨s', rfl, hw⟩
        | some e₁ =>
          rw [hse] at he hrel
          cases hrel with
          | some hee =>
            refine hw.kept (fun _ _ h => h) he hee ?_
            rw [serviceEvent_caller hse, hm]
            exact Bool.false_ne_true
      obtain ⟨s₁, hs₁, hw₁⟩ := hnext
      exact ⟨_, s₁, hrun'.snoc hs₁, by simp, hw₁⟩

/-- **Whose requests they are does not matter, and the misdirected ones do nothing**: the table is
the same in the run without them, and whoever sends the other updates and deletes. -/
theorem misdirected_no_effect (hsame : SameButUser reqs reqs') {tr : List Step} {r : Row}
    (h : Run (next reqs) (Service.State.init o) tr s) (hr : r ∈ s.obj.rows) :
    ∃ tr' s', Run (next reqs') (Service.State.init o) tr' s' ∧
      tr'.map Transition.event =
        (tr.map Transition.event).filter (fun e => !misdirected reqs r e.caller) ∧
      s'.obj = s.obj := by
  have hthread : InThread r.id r.threadId s.obj := by
    intro r' hr'
    rw [Table.mem_iff_byId.mp hr, Option.some.injEq] at hr'
    rw [← hr']
  obtain ⟨tr', s', hrun, hevents, hw⟩ := follows hsame h hthread
  exact ⟨tr', s', hrun, hevents, hw.obj⟩

/-! ## Another user's update -/

def author : String := "00000000-0000-0000-0000-000000000003"

def other : String := "00000000-0000-0000-0000-000000000004"

/-- A message of the author, and an update of it by someone; a deletion whose header is no UUID, and
one on the path of another thread. -/
def updatedBy (user : String) : Requests
  | 0 => (author, .createMessage Sample.thread "hola" none none)
  | 2 => ("felipe", .deleteMessage Sample.thread Sample.message)
  | 3 => (user, .deleteMessage (Sample.uuid 9) Sample.message)
  | _ => (user, .updateMessage Sample.thread Sample.message (some "adiós") none)

def createUpdate : List Event :=
  [.arrive 0, .step 0 ⟨Sample.minute 0, Sample.message⟩, .arrive 1,
    .step 1 ⟨Sample.minute 1, Sample.message⟩, .step 1 ⟨Sample.minute 2, Sample.message⟩]

/-- The same with the two deletions, the second between the statements of the update. -/
def withDeletions : List Event :=
  [.arrive 0, .step 0 ⟨Sample.minute 0, Sample.message⟩, .arrive 2, .arrive 1,
    .step 1 ⟨Sample.minute 1, Sample.message⟩, .arrive 3,
    .step 3 ⟨Sample.minute 1, Sample.message⟩, .step 1 ⟨Sample.minute 2, Sample.message⟩]

/-- The message behind the update. -/
def updated : Row :=
  { Sample.row with type := none, content := some "adiós", updatedAt := some (Sample.minute 2) }

theorem run_updated (reqs : Requests) (events : List Event)
    (h : (exec (next reqs) (Service.State.init .empty) events).map (fun s => s.obj.rows) =
      some [updated]) :
    ∃ tr s, tr.map Transition.event = events ∧
      Run (next reqs) (Service.State.init .empty) tr s ∧ updated ∈ s.obj.rows := by
  obtain ⟨s, hs, hrows⟩ := Option.map_eq_some_iff.mp h
  obtain ⟨htr, hrun⟩ := Run.of_exec hs
  refine ⟨_, s, htr, hrun, ?_⟩
  rw [hrows]
  exact List.mem_singleton_self _

theorem sameButUser_updatedBy : SameButUser (updatedBy other) (updatedBy author) := by
  have hparse : UUID.parse author.toList = none ↔ UUID.parse other.toList = none := by decide
  intro i
  match i with
  | 0 => exact ⟨rfl, Iff.rfl, fun _ => rfl⟩
  | 1 => exact ⟨rfl, hparse, fun h => by cases h⟩
  | 2 => exact ⟨rfl, Iff.rfl, fun h => by cases h⟩
  | 3 => exact ⟨rfl, hparse, fun h => by cases h⟩
  | i + 4 => exact ⟨rfl, hparse, fun h => by cases h⟩

/-- The table is the same without the two deletions, and when the author sends the update. -/
theorem misdirected_no_effect_update : ∃ tr s, tr.map Transition.event = withDeletions ∧
    Run (next (updatedBy other)) (Service.State.init .empty) tr s ∧
    ∃ tr' s', Run (next (updatedBy author)) (Service.State.init .empty) tr' s' ∧
      tr'.map Transition.event = createUpdate ∧ s'.obj = s.obj := by
  obtain ⟨tr, s, htr, hrun, hrow⟩ := run_updated (updatedBy other) withDeletions
    (by decide +kernel)
  obtain ⟨tr', s', hrun', hevents, hobj⟩ := misdirected_no_effect sameButUser_updatedBy hrun hrow
  refine ⟨tr, s, htr, hrun, tr', s', hrun', ?_, hobj⟩
  have h₀ : misdirected (updatedBy other) updated 0 = false := by decide
  have h₁ : misdirected (updatedBy other) updated 1 = false := by decide
  have h₂ : misdirected (updatedBy other) updated 2 = true := by decide
  have h₃ : misdirected (updatedBy other) updated 3 = true := by decide
  rw [hevents, htr]
  simp [withDeletions, createUpdate, Event.caller, h₀, h₁, h₂, h₃]

/-- Another user's update is in the message. -/
theorem other_user_affects :
    ¬ NotAffectedBy (updatedBy other) (foreign (updatedBy other)) .empty := by
  intro h
  obtain ⟨tr, s, htr, hrun, hrow⟩ := run_updated (updatedBy other) createUpdate
    (by decide +kernel)
  obtain ⟨tr', s', r', hrun', hevents, hr', hcontent, -, -⟩ := h tr s updated hrun hrow
  have hcreate : foreign (updatedBy other) updated 0 = false := by decide
  have hupdate : foreign (updatedBy other) updated 1 = true := by decide
  have hes : tr'.map Transition.event =
      [.arrive 0, .step 0 ⟨Sample.minute 0, Sample.message⟩] := by
    rw [hevents, htr]
    simp [createUpdate, Event.caller, hcreate, hupdate]
  have hexec := hrun'.exec_eq
  rw [hes] at hexec
  have hcontents : (exec (next (updatedBy other)) (Service.State.init .empty)
      [.arrive 0, .step 0 ⟨Sample.minute 0, Sample.message⟩]).map
      (fun s => (s.obj.byId updated.id).map Row.content) = some (some (some "hola")) := by
    decide +kernel
  rw [hexec, Option.map_some, hr', Option.map_some, hcontent] at hcontents
  revert hcontents
  decide

end MessagesApp.Authors
