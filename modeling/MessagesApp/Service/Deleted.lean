import MessagesApp.Service.Linearizable
import MessagesApp.Service.Api

/-!
# Deleted messages

`DeleteMessage` asks for a live row in its check and again in its `UPDATE`. `UpdateMessage` asks
for it in neither (`Controller.py` 97–111, `messages.py` 237–245), so a deleted row can be written,
and the answer is a success. Nothing else can happen to it: where no statement of an update comes
to a deleted row of its thread, deleted rows stay as they are, and every update or delete of them
is answered as a message that does not exist.

`updatesDeleted` is that one kind of step. It looks at the state before the step and at the call
that makes it, and not at what the statement then does. `deleted_frozen` is about the runs without
such a step: it is proved along the run from what one step does to a deleted row (`frozen_step`)
and to a call that was made after the deletion (`refused_step`).

An update whose check came before a deletion and whose `UPDATE` comes behind it is such a step as
well, so the condition is one on schedules and not only on what clients ask for. A list does not
show a deleted row in any case, which is part of its query.
-/

set_option autoImplicit false

namespace MessagesApp.Controller

open Py Lib

/-- A statement of an `UpdateMessage` runs when the row it names, in its thread, is deleted. A
condition on the state before the step; a message of another thread is refused anyway. -/
def updatesDeleted (t : Step) : Bool :=
  match t.event with
  | .invoke .. => false
  | .step i _ => match t.pre.calls i with
      | some (.updateMessage thread message .., .running _) =>
          match t.pre.obj.byId message with
          | some r => decide (r.threadId = thread ∧ r.deletedAt ≠ none)
          | none => false
      | _ => false

theorem updatesDeleted_step {s s' : State} {i : Nat} {x : Supplied} {thread message user : UUID}
    {content : Option String} {typeM : Option MsgType} {path : Option (List String)} {pc : Pc}
    {r : Row}
    (hc : s.calls i = some (.updateMessage thread message user content typeM path, .running pc))
    (hr : s.obj.byId message = some r) (ht : r.threadId = thread) (hd : r.deletedAt ≠ none) :
    updatesDeleted ⟨s, .step i x, s'⟩ = true := by
  simp [updatesDeleted, hc, hr, ht, hd]

/-- What is claimed of the deleted rows of a run: they keep every field, and what is asked of them
after their deletion is answered with an error that is a 404. -/
structure DeletedFrozen (o : Table) (tr : List Step) (s : State) : Prop where
  frozen : ∀ tr₁ tr₂ m, tr = tr₁ ++ tr₂ → Run service.next (Service.State.init o) tr₁ m →
    ∀ id r, m.obj.byId id = some r → r.deletedAt ≠ none → s.obj.byId id = some r
  /-- A call made after the deletion has not run a statement, or has got its error. -/
  refused : ∀ tr₁ tr₂ m, tr = tr₁ ++ tr₂ → Run service.next (Service.State.init o) tr₁ m →
    ∀ id r, m.obj.byId id = some r → r.deletedAt ≠ none →
    ∀ i c g, c.message? = some id → m.calls i = none → s.calls i = some (c, g) →
      g = .running .begin ∨
      g = .answered (.error c.noRow) ∧ (Api.mapErrorToHttp c.noRow).status = 404

theorem noRow_status (c : Call) : (Api.mapErrorToHttp c.noRow).status = 404 := by
  cases c with
  | createMessage =>
    show (Api.mapErrorToHttp "No row returned when creating message").status = 404
    decide
  | updateMessage =>
    show (Api.mapErrorToHttp "No row returned when updating message").status = 404
    decide
  | deleteMessage =>
    show (Api.mapErrorToHttp "No row returned when deleting message").status = 404
    decide

/-- A step that is no update of a deleted row leaves the deleted rows as they are. A delete needs a
live row, and a create an id that is free. -/
theorem frozen_step {s s' : State} {e : Event} (hA : Service.Asserted Checked s)
    (he : service.next s e = some s') (hno : updatesDeleted ⟨s, e, s'⟩ = false) {id : UUID} {r : Row}
    (hr : s.obj.byId id = some r) (hd : r.deletedAt ≠ none) : s'.obj.byId id = some r := by
  rcases step_cases he with ⟨i, c, rfl, -, rfl⟩ | ⟨i, x, c, pc, t', g, rfl, hc, hdid, rfl⟩
  · exact hr
  · cases hdid with
    | created hins =>
      obtain ⟨hfree, -⟩ := Table.insert_eq_some hins
      rw [Table.byId_insert hins]
      split
      · rename_i hid
        rw [hid, hfree] at hr
        cases hr
      · exact hr
    | refused => exact hr
    | passed => exact hr
    | lost => exact hr
    | @wrote c m r₀ hm hr₀ hrep =>
      have hid : (c.written x.now r₀).id = m := by rw [Call.written_id, Table.byId_id hr₀]
      rw [Table.byId_set (by rw [hid]; exact hr₀), hid]
      split
      · -- the write is on this row, so it is an update in its thread
        rename_i heq
        subst heq
        rw [hr, Option.some.injEq] at hr₀
        subst hr₀
        cases c with
        | createMessage => exact hrep.elim
        | deleteMessage => exact absurd hrep hd
        | updateMessage thread message user content typeM path =>
          cases hm
          obtain ⟨m', r', hm', hr', ht⟩ := hA i _ .checked hc rfl
          cases hm'
          rw [hr, Option.some.injEq] at hr'
          subst hr'
          rw [updatesDeleted_step hc hr ht hd] at hno
          cases hno
      · exact hr

/-- The first statement of a call on a deleted row answers its error, unless it is an update in the
row's thread. -/
theorem refused_step {s s' : State} {e : Event} (he : service.next s e = some s')
    (hno : updatesDeleted ⟨s, e, s'⟩ = false) {id : UUID} {r : Row} (hr : s.obj.byId id = some r)
    (hd : r.deletedAt ≠ none) {i : Nat} {c : Call} (hm : c.message? = some id)
    (hbefore : ∀ c g, c.message? = some id → s.calls i = some (c, g) →
      g = .running .begin ∨ g = .answered (.error c.noRow))
    {g : Progress Pc Result} (hafter : s'.calls i = some (c, g)) :
    g = .running .begin ∨ g = .answered (.error c.noRow) := by
  rcases step_cases he with ⟨j, c', rfl, -, rfl⟩ | ⟨j, x, c', pc, t', g', rfl, hc, hdid, rfl⟩
  · rcases update_cases hafter with ⟨-, heq⟩ | ⟨-, hold⟩
    · cases heq
      exact Or.inl rfl
    · exact hbefore c g hm hold
  · rcases update_cases hafter with ⟨rfl, heq⟩ | ⟨-, hold⟩
    · cases heq
      have hpc : pc = .begin := by
        rcases hbefore _ _ hm hc with h | h
        · cases h
          rfl
        · cases h
      subst hpc
      cases hdid with
      | created hins => cases hm
      | refused => exact Or.inr rfl
      | @passed _ m r' hm' hr' hp =>
        -- only an update passes its check on a deleted row
        have hmm : m = id := Option.some.inj (hm'.symm.trans hm)
        subst hmm
        rw [hr, Option.some.injEq] at hr'
        subst hr'
        cases c with
        | createMessage => cases hm
        | deleteMessage => exact absurd hp.2 hd
        | updateMessage thread message user content typeM path =>
          cases hm
          rw [updatesDeleted_step hc hr hp hd] at hno
          cases hno
    · exact hbefore c g hm hold

/-- **Deleted messages are frozen in every run whose updates come to live rows.** By induction on
the rest of the run behind the deletion, for the row and for a call. -/
theorem deleted_frozen {o : Table} {tr : List Step} {s : State}
    (h : Run service.next (Service.State.init o) tr s) (hlive : ∀ t ∈ tr, updatesDeleted t = false) :
    DeletedFrozen o tr s := by
  -- from any state of the run on, both hold together
  have hall : ∀ tr₁ tr₂ m, tr = tr₁ ++ tr₂ → Run service.next (Service.State.init o) tr₁ m →
      ∀ id r, m.obj.byId id = some r → r.deletedAt ≠ none → s.obj.byId id = some r ∧
      ∀ i, m.calls i = none → ∀ c g, c.message? = some id → s.calls i = some (c, g) →
        g = .running .begin ∨ g = .answered (.error c.noRow) := by
    intro tr₁ tr₂ m htr h₁ id r hr hd
    subst htr
    obtain ⟨m', h₁', h₂⟩ := h.split
    have hmm : m = m' := h₁.state_unique h₁'
    subst hmm
    refine h₂.historyInv (C := fun t => updatesDeleted t = false) (I := fun _ s => s.obj.byId id = some r ∧
      ∀ i, m.calls i = none → ∀ c g, c.message? = some id → s.calls i = some (c, g) →
        g = .running .begin ∨ g = .answered (.error c.noRow)) ?_ ?_
      fun t ht => hlive t (List.mem_append_right _ ht)
    · refine ⟨hr, fun i hi c g _ hc => ?_⟩
      rw [hi] at hc
      cases hc
    · intro tr' k e k' hrun hk he hno
      refine ⟨frozen_step (checked_of_run (h₁.append hrun)) he hno hk.1 hd, ?_⟩
      intro i hi c g hm hc
      exact refused_step he hno hk.1 hd hm (hk.2 i hi) hc
  refine ⟨fun tr₁ tr₂ m htr h₁ id r hr hd => (hall tr₁ tr₂ m htr h₁ id r hr hd).1, ?_⟩
  intro tr₁ tr₂ m htr h₁ id r hr hd i c g hm hi hc
  rcases (hall tr₁ tr₂ m htr h₁ id r hr hd).2 i hi c g hm hc with hg | hg
  · exact Or.inl hg
  · exact Or.inr ⟨hg, noRow_status c⟩

/-- An update, a delete, and then an update in another thread and a second delete. -/
def deleteLast : List Event :=
  [.invoke 0 (.updateMessage Sample.thread Sample.message Sample.user (some "adiós") none none),
    .step 0 ⟨Sample.minute 1, Sample.message⟩, .step 0 ⟨Sample.minute 1, Sample.message⟩,
    .invoke 1 (.deleteMessage Sample.thread Sample.message Sample.user),
    .step 1 ⟨Sample.minute 2, Sample.message⟩, .step 1 ⟨Sample.minute 2, Sample.message⟩,
    .invoke 2 (.updateMessage (Sample.uuid 9) Sample.message Sample.user (some "no") none none),
    .step 2 ⟨Sample.minute 3, Sample.message⟩,
    .invoke 3 (.deleteMessage Sample.thread Sample.message Sample.user),
    .step 3 ⟨Sample.minute 4, Sample.message⟩]

theorem deleted_frozen_deleteLast : ∃ tr s, tr.map Transition.event = deleteLast ∧
    Run service.next (Service.State.init Sample.table) tr s ∧ DeletedFrozen Sample.table tr s := by
  have hrun : (exec service.next (Service.State.init Sample.table) deleteLast).isSome := by
    decide
  obtain ⟨s, hs⟩ := Option.isSome_iff_exists.mp hrun
  obtain ⟨htr, h⟩ := Run.of_exec hs
  exact ⟨_, s, htr, h, deleted_frozen h (by decide)⟩

/-- The same message deleted first and updated afterwards. -/
def updateLast : List Event :=
  [.invoke 0 (.deleteMessage Sample.thread Sample.message Sample.user),
    .step 0 ⟨Sample.minute 1, Sample.message⟩, .step 0 ⟨Sample.minute 1, Sample.message⟩,
    .invoke 1 (.updateMessage Sample.thread Sample.message Sample.user (some "adiós") none none),
    .step 1 ⟨Sample.minute 2, Sample.message⟩, .step 1 ⟨Sample.minute 2, Sample.message⟩]

/-- The update succeeds, and the deleted row has another content. -/
theorem deleted_not_frozen :
    ∃ tr s, tr.map Transition.event = updateLast ∧
      Run service.next (Service.State.init Sample.table) tr s ∧
      ¬ DeletedFrozen Sample.table tr s := by
  have hrun : (exec service.next (Service.State.init Sample.table) updateLast).isSome := by
    decide
  obtain ⟨s, hs⟩ := Option.isSome_iff_exists.mp hrun
  obtain ⟨htr, h⟩ := Run.of_exec hs
  refine ⟨_, s, htr, h, fun hfrozen => ?_⟩
  have hdel : (exec service.next (Service.State.init Sample.table)
      (updateLast.take 3)).isSome := by
    decide
  obtain ⟨m, hm⟩ := Option.isSome_iff_exists.mp hdel
  have hcontent : ((exec service.next (Service.State.init Sample.table) updateLast).bind
      fun s => s.obj.byId Sample.message) = some ⟨Sample.message, Sample.thread, Sample.user,
        some .text, some "adiós", none, some (Sample.minute 0), some (Sample.minute 2),
        some (Sample.minute 1)⟩ := by
    decide
  have hbefore : ((exec service.next (Service.State.init Sample.table)
      (updateLast.take 3)).bind fun s => s.obj.byId Sample.message) = some ⟨Sample.message,
        Sample.thread, Sample.user, some .text, some "hola", none, some (Sample.minute 0),
        some (Sample.minute 1), some (Sample.minute 1)⟩ := by
    decide
  rw [hs] at hcontent
  rw [hm] at hbefore
  have hkept := hfrozen.frozen _ _ m rfl (Run.of_exec hm).2 Sample.message _ hbefore (by decide)
  rw [show s.obj.byId Sample.message = _ from hcontent] at hkept
  revert hkept
  decide

end MessagesApp.Controller
