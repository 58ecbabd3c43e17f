import MessagesApp.Service.Controller

/-!
# Updates and deletes are linearizable

The lock `GET_MESSAGE_BY_ID_FOR_UPDATE` takes is gone when the statement ends, so nothing keeps
other calls out between a call's check and its write. The calls are linearizable all the same: a
call writes, if at all, in its last statement, and what its check established and its write
needs (`Checked`: the row exists and is in the call's thread) can not be undone by anybody, since
no statement removes a row or moves it to another thread. What can be undone is that the row is
live; a delete that finds it deleted answers what its check would have answered there.

So `service` is a `CommitLast` with the assertion `Checked`, and the library gives the rest. Its
order is that of the answers, which for a call that writes is the order of the writes.

That one of several deletes wins is a second invariant, `Deletes`. It counts from a moment at which
the message is live: those that had answered before it (`A`) had found no such message and failed,
and of the others none has answered while the row is live and exactly one has succeeded once it is
deleted. `deletes_step` goes by what a statement did; a statement of another message, or of another
kind, is `Deletes.quiet`, and a delete that comes too late is `Deletes.loses`.

Lists read one snapshot each and are in `Uncached`, where the requests of the API as a whole are
linearized.
-/

set_option autoImplicit false

namespace MessagesApp.Controller

open Py Lib

/-! ## One step of the interleaving -/

/-- What a step leaves of a row that was there: it is there still, with its identity, and a deletion
time that it had. -/
theorem Did.byId_kept {c : Call} {pc : Pc} {x : Supplied} {t t' : Table}
    {g : Progress Pc Result} (h : Did x t c pc t' g) {id : UUID} {r : Row}
    (hr : t.byId id = some r) :
    ∃ r', t'.byId id = some r' ∧ SameIdentity r r' ∧ (r.deletedAt ≠ none → r'.deletedAt = r.deletedAt) := by
  cases h with
  | created hins =>
    obtain ⟨hfree, -⟩ := Table.insert_eq_some hins
    rw [Table.byId_insert hins]
    split
    · rename_i hid
      rw [hid, hfree] at hr
      cases hr
    · exact ⟨r, hr, .refl r, fun _ => rfl⟩
  | refused | passed | lost => exact ⟨r, hr, .refl r, fun _ => rfl⟩
  | @wrote c m r₀ hm hr₀ hrep =>
    have hid : (c.written x.now r₀).id = m := by rw [Call.written_id, Table.byId_id hr₀]
    rw [Table.byId_set (by rw [hid]; exact hr₀), hid]
    split
    · rename_i heq
      subst heq
      rw [hr₀, Option.some.injEq] at hr
      subst hr
      refine ⟨_, rfl, c.written_identity x.now r₀, fun hdel => ?_⟩
      cases c with
      | createMessage => rfl
      | updateMessage => rfl
      | deleteMessage => exact absurd hrep hdel
    · exact ⟨r, hr, .refl r, fun _ => rfl⟩

/-- What a call knows when its check has passed: its row exists, in its thread. Before the check it
knows nothing, and that the row is live is not part of it. -/
def Checked (c : Call) (pc : Pc) (t : Table) : Prop :=
  pc = .checked → ∃ m r, c.message? = some m ∧ t.byId m = some r ∧ r.threadId = c.thread

theorem Did.checked_stable {c : Call} {pc : Pc} {x : Supplied} {t t' : Table}
    {g : Progress Pc Result} (h : Did x t c pc t' g) {c' : Call} {pc' : Pc}
    (hc : Checked c' pc' t) : Checked c' pc' t' := by
  intro hpc
  obtain ⟨m, r, hm, hr, ht⟩ := hc hpc
  obtain ⟨r', hr', hsame, -⟩ := h.byId_kept hr
  exact ⟨m, r', hm, hr', hsame.threadId.trans ht⟩

theorem statement_passes {c : Call} {m : UUID} {r : Row} {x : Supplied} {t : Table}
    (hm : c.message? = some m) (hr : t.byId m = some r) (hp : c.passes r) :
    statement c .begin x t = some (t, .running .checked) := by
  cases c with
  | createMessage => exact hp.elim
  | updateMessage thread message user content typeM path =>
    cases hm
    have hne : ¬ r.threadId ≠ thread := not_not.mpr hp
    simp [statement, Sql.getMessageByIdForUpdate, hr, hne]
  | deleteMessage thread message user =>
    cases hm
    have hne : ¬ (r.threadId ≠ thread ∨ r.deletedAt ≠ none) := by
      rw [not_or, not_not, not_not]
      exact hp
    simp [statement, Sql.getMessageByIdForUpdate, hr, hne]

theorem statement_refuses_deleted {thread message user : UUID} {r : Row} {x : Supplied}
    {t : Table} (hr : t.byId message = some r) (hd : r.deletedAt ≠ none) :
    statement (.deleteMessage thread message user) .begin x t =
      some (t, .answered (.error (Call.deleteMessage thread message user).noRow)) := by
  simp [statement, Sql.getMessageByIdForUpdate, hr, hd]

/-- **The writes of the controller write at their last statement**, and what a check has established
stays: the premises of the library's theorem. -/
theorem service_commitLast : service.CommitLast Checked where
  start _ _ h := by cases h
  advance c pc x t t' pc' hA h := by
    cases statement_did h with
    | passed hm hr hp => exact ⟨rfl, fun _ => ⟨_, _, hm, hr, hp.thread⟩⟩
  stable c pc c' pc' x t t' g hA _ h := (statement_did h).checked_stable hA
  commit c pc x t t' res hA h := by
    cases hd : statement_did h with
    | created hins => exact .last h
    | refused hm hno => exact .last h
    | @lost c m hm hno =>
      -- the row is there; only a delete can have lost it, to another delete
      obtain ⟨m', r, hm', hr, ht⟩ := hA rfl
      have hmm : m = m' := Option.some.inj (hm.symm.trans hm')
      subst hmm
      cases c with
      | createMessage => cases hm
      | updateMessage => exact absurd trivial (hno r hr)
      | deleteMessage thread message user =>
        cases hm
        exact .last (statement_refuses_deleted (x := x) hr (hno r hr))
    | @wrote c m r hm hr hrep =>
      obtain ⟨m', r', hm', hr', ht⟩ := hA rfl
      have hmm : m = m' := Option.some.inj (hm.symm.trans hm')
      subst hmm
      rw [hr, Option.some.injEq] at hr'
      subst hr'
      have hp : c.passes r := by
        cases c with
        | createMessage => exact hrep
        | updateMessage => exact ht
        | deleteMessage => exact ⟨ht, hrep⟩
      exact .more (statement_passes hm hr hp) (.last h)

/-- Everything a step of the interleaving can be, with what its statement did. -/
theorem step_cases {s s' : State} {e : Event} (h : service.next s e = some s') :
    (∃ i c, e = .invoke i c ∧ s.calls i = none ∧
      s' = { s with calls := Function.update s.calls i (some (c, .running .begin)) }) ∨
    (∃ i x c pc t' g, e = .step i x ∧ s.calls i = some (c, .running pc) ∧
      Did x s.obj c pc t' g ∧ s' = ⟨t', Function.update s.calls i (some (c, g))⟩) := by
  rcases Service.next_cases h with h | ⟨i, x, c, pc, t', g, he, hc, hst, hs'⟩
  · exact Or.inl h
  · exact Or.inr ⟨i, x, c, pc, t', g, he, hc, statement_did hst, hs'⟩

/-- In every reachable state a call whose check has passed has its row. -/
theorem checked_of_run {o : Table} {tr : List Step} {s : State}
    (h : Run service.next (Service.State.init o) tr s) : Service.Asserted Checked s :=
  (service_commitLast.linearizable h).1

/-- A row that is there at one point of a run is there at every later one, and stays deleted if it
was. -/
theorem row_stays {s s' : State} {tr : List Step} (h : Run service.next s tr s') {id : UUID}
    {r : Row} (hr : s.obj.byId id = some r) :
    ∃ r', s'.obj.byId id = some r' ∧ SameIdentity r r' ∧
      (r.deletedAt ≠ none → r'.deletedAt = r.deletedAt) := by
  refine h.inv (I := fun s : State => ∃ r', s.obj.byId id = some r' ∧ SameIdentity r r' ∧
      (r.deletedAt ≠ none → r'.deletedAt = r.deletedAt)) ⟨r, hr, .refl r, fun _ => rfl⟩ ?_
  rintro m e m' ⟨r₁, hr₁, hsame, hdel⟩ he
  rcases step_cases he with ⟨i, c, -, -, rfl⟩ | ⟨i, x, c, pc, t', g, -, -, hdid, rfl⟩
  · exact ⟨r₁, hr₁, hsame, hdel⟩
  · obtain ⟨r₂, hr₂, hsame₂, hdel₂⟩ := hdid.byId_kept hr₁
    refine ⟨r₂, hr₂, hsame.trans hsame₂, fun hd => ?_⟩
    have h₁ := hdel hd
    rw [hdel₂ (by rw [h₁]; exact hd), h₁]

/-! ## One of the deletes wins -/

/-- `i` is a `DeleteMessage` of `message` in `thread`, by whatever user, that has come to `g`. -/
def IsDelete (s : State) (thread message : UUID) (i : Nat) (g : Progress Pc Result) : Prop :=
  ∃ user, s.calls i = some (.deleteMessage thread message user, g)

/-- Where the deletes of one message of one thread have come to, since those of `A` answered. These
had found no live row of the message in the thread, so they have failed. -/
structure Deletes (A : Nat → Prop) (thread message : UUID) (s : State) : Prop where
  /-- While the row is live no other has answered; -/
  live : ∀ r, s.obj.byId message = some r → r.deletedAt = none →
    ∀ i res, IsDelete s thread message i (.answered res) → A i
  /-- once it is deleted, exactly one has succeeded. -/
  deleted : ∀ r, s.obj.byId message = some r → r.deletedAt ≠ none →
    ∃! i, ∃ row, IsDelete s thread message i (.answered (.ok row))
  failed : ∀ i, A i → ∀ row, ¬ IsDelete s thread message i (.answered (.ok row))
  answered : ∀ i, A i → ∃ res, IsDelete s thread message i (.answered res)

/-- A step at which no delete of this message answers, and its row stays as live as it was. -/
theorem Deletes.quiet {A : Nat → Prop} {thread message : UUID} {s s' : State}
    (h : Deletes A thread message s) {r r' : Row} (hr : s.obj.byId message = some r)
    (hr' : s'.obj.byId message = some r') (hdel : r'.deletedAt = none ↔ r.deletedAt = none)
    (hcalls : ∀ i res, IsDelete s' thread message i (.answered res) ↔
      IsDelete s thread message i (.answered res)) : Deletes A thread message s' where
  live q hq hlive i res := by
    rw [hr', Option.some.injEq] at hq
    subst hq
    rw [hcalls]
    exact h.live r hr (hdel.mp hlive) i res
  deleted q hq hd := by
    rw [hr', Option.some.injEq] at hq
    subst hq
    simp only [hcalls]
    exact h.deleted r hr fun hn => hd (hdel.mpr hn)
  failed i hi row := by
    rw [hcalls]
    exact h.failed i hi row
  answered i hi := by
    simp only [hcalls]
    exact h.answered i hi

/-- A delete that answers an error found the row deleted: whoever has won stays the winner. -/
theorem Deletes.loses {A : Nat → Prop} {thread message : UUID} {s s' : State}
    (h : Deletes A thread message s) {r : Row} (hr : s.obj.byId message = some r)
    (hr' : s'.obj.byId message = some r) (hdel : r.deletedAt ≠ none)
    (hwins : ∀ j row, IsDelete s' thread message j (.answered (.ok row)) ↔
      IsDelete s thread message j (.answered (.ok row)))
    (hkept : ∀ j res, IsDelete s thread message j (.answered res) →
      IsDelete s' thread message j (.answered res)) : Deletes A thread message s' where
  live q hq hlive := by
    rw [hr', Option.some.injEq] at hq
    subst hq
    exact absurd hlive hdel
  deleted _ _ _ := by
    simp only [hwins]
    exact h.deleted r hr hdel
  failed i hi row := by
    rw [hwins]
    exact h.failed i hi row
  answered i hi := by
    obtain ⟨res, hres⟩ := h.answered i hi
    exact ⟨res, hkept i res hres⟩

/-- Of a row that is there, only a delete of it in its own thread changes whether it is live. -/
theorem Did.live_kept {c : Call} {pc : Pc} {x : Supplied} {t t' : Table}
    {g : Progress Pc Result} (h : Did x t c pc t' g) (hA : Checked c pc t) {message : UUID}
    {r r' : Row} (hr : t.byId message = some r) (hr' : t'.byId message = some r')
    (hc : ∀ user, c ≠ .deleteMessage r.threadId message user) :
    r'.deletedAt = none ↔ r.deletedAt = none := by
  cases h with
  | created hins =>
    obtain ⟨hfree, -⟩ := Table.insert_eq_some hins
    rw [Table.byId_insert hins] at hr'
    split at hr'
    · rename_i hid
      rw [hid, hfree] at hr
      cases hr
    · rw [hr, Option.some.injEq] at hr'
      rw [hr']
  | refused | passed | lost =>
    rw [hr, Option.some.injEq] at hr'
    rw [hr']
  | @wrote c m r₀ hm hr₀ hrep =>
    have hid : (c.written x.now r₀).id = m := by rw [Call.written_id, Table.byId_id hr₀]
    rw [Table.byId_set (by rw [hid]; exact hr₀), hid] at hr'
    split at hr'
    · rename_i heq
      subst heq
      rw [hr, Option.some.injEq] at hr₀
      subst hr₀
      cases hr'
      obtain ⟨m', r₁, hm', hr₁, ht₁⟩ := hA rfl
      have hmm : m' = message := Option.some.inj (hm'.symm.trans hm)
      rw [hmm, hr, Option.some.injEq] at hr₁
      subst hr₁
      cases c with
      | createMessage => cases hm
      | updateMessage => exact Iff.rfl
      | deleteMessage thread' message' user =>
        cases hm
        exact absurd (by rw [ht₁]; rfl) (hc user)
    · rw [hr, Option.some.injEq] at hr'
      rw [hr']

/-- **A step keeps the account of the deletes**, whichever call makes it. The cases are those of
what a statement can do, and within them whether it is one of these deletes. -/
theorem deletes_step {A : Nat → Prop} {thread message : UUID} {s s' : State} {e : Event}
    (hA : Service.Asserted Checked s) (h : Deletes A thread message s)
    (hrow : ∃ r, s.obj.byId message = some r ∧ r.threadId = thread)
    (he : service.next s e = some s') : Deletes A thread message s' := by
  obtain ⟨r, hr, ht⟩ := hrow
  rcases step_cases he with ⟨i, c, -, hn, rfl⟩ | ⟨i, x, c, pc, t', g, -, hc, hdid, rfl⟩
  · refine h.quiet hr hr Iff.rfl fun j res => ?_
    by_cases hij : j = i
    · subst hij
      simp [IsDelete, hn]
    · simp [IsDelete, Function.update_of_ne hij]
  · -- a call other than `i` keeps its state, and `i` had not answered
    have hother : ∀ {t' : Table} {g : Progress Pc Result} j, j ≠ i → ∀ res,
        IsDelete ⟨t', Function.update s.calls i (some (c, g))⟩ thread message j (.answered res) ↔
          IsDelete s thread message j (.answered res) := by
      intro t' g j hij res
      simp [IsDelete, Function.update_of_ne hij]
    have hbefore : ∀ res, ¬ IsDelete s thread message i (.answered res) := by
      intro res hi
      obtain ⟨user, hu⟩ := hi
      simp [hc] at hu
    have hkept : ∀ {t' : Table} {g : Progress Pc Result} j res,
        IsDelete s thread message j (.answered res) →
          IsDelete ⟨t', Function.update s.calls i (some (c, g))⟩ thread message j
            (.answered res) := by
      intro t' g j res hj
      have hji : j ≠ i := by
        rintro rfl
        exact hbefore res hj
      exact (hother j hji res).mpr hj
    -- where `i` does not come to this answer either, nothing changes about the answer
    have hsame : ∀ {t' : Table} {g : Progress Pc Result} {res : Result},
        (¬ ∃ user, c = .deleteMessage thread message user ∧ g = .answered res) →
        ∀ j, IsDelete ⟨t', Function.update s.calls i (some (c, g))⟩ thread message j
          (.answered res) ↔ IsDelete s thread message j (.answered res) := by
      intro t' g res hnot j
      refine ⟨fun hj => ?_, hkept j res⟩
      by_cases hji : j = i
      · subst hji
        obtain ⟨user, hu⟩ := hj
        simp only [Function.update_self, Option.some.injEq, Prod.mk.injEq] at hu
        exact absurd ⟨user, hu⟩ hnot
      · exact (hother j hji res).mp hj
    obtain ⟨r', hr', -, -⟩ := hdid.byId_kept hr
    by_cases hmine : ∃ user, c = .deleteMessage thread message user
    · obtain ⟨user, rfl⟩ := hmine
      cases hdid with
      | refused hm hno =>
        -- refused in its own thread
        cases hm
        exact h.loses hr hr (fun hlive => hno r hr ⟨ht, hlive⟩) (fun j row => hsame (by simp) j) hkept
      | passed hm hcur hp => exact h.quiet hr hr Iff.rfl fun j res => hsame (by simp) j
      | lost hm hno =>
        cases hm
        exact h.loses hr hr (fun hlive => hno r hr hlive) (fun j row => hsame (by simp) j) hkept
      | @wrote _ m r₀ hm hr₀ hrep =>
        -- the row was live, so nobody has succeeded before
        cases hm
        rw [hr, Option.some.injEq] at hr₀
        subst hr₀
        have hid : (Call.written (.deleteMessage thread message user) x.now r).id = message := by
          rw [Call.written_id, Table.byId_id hr]
        have hnow : (s.obj.set (Call.written (.deleteMessage thread message user) x.now r)).byId
            message = some (Sql.softDeletedRow x.now none r) := by
          rw [Table.byId_set (by rw [hid]; exact hr), if_pos hid.symm]
          rfl
        have hnotA : ∀ j, A j → j ≠ i := by
          rintro j hj rfl
          obtain ⟨res, hres⟩ := h.answered j hj
          exact hbefore res hres
        have hunique : ∀ j row, IsDelete ⟨s.obj.set (Call.written (.deleteMessage thread message user)
            x.now r), Function.update s.calls i (some (.deleteMessage thread message user,
              .answered (.ok (Call.written (.deleteMessage thread message user) x.now r))))⟩
            thread message j (.answered (.ok row)) → j = i := by
          intro j row hj
          by_contra hji
          have hj' := (hother j hji _).mp hj
          exact h.failed j (h.live r hr hrep j _ hj') row hj'
        refine ⟨fun q hq hlive => ?_, fun q hq _ => ?_, fun j hj row hjs => ?_, fun j hj => ?_⟩
        · rw [hnow, Option.some.injEq] at hq
          subst hq
          simp [Sql.softDeletedRow] at hlive
        · refine ⟨i, ⟨(Call.deleteMessage thread message user).written x.now r, user, by simp⟩, ?_⟩
          rintro j ⟨row, hj⟩
          exact hunique j row hj
        · exact hnotA j hj (hunique j row hjs)
        · obtain ⟨res, hres⟩ := h.answered j hj
          exact ⟨res, hkept j res hres⟩
    · -- another call: it neither answers for this message nor deletes its row
      refine h.quiet hr hr' (hdid.live_kept (hA i c pc hc) hr hr' fun user he => hmine ?_)
        fun j res => hsame (fun hu => hmine ⟨hu.choose, hu.choose_spec.1⟩) j
      exact ⟨user, ht ▸ he⟩

/-- The message of a delete that has succeeded is deleted. -/
theorem deleted_of_success {o : Table} {tr : List Step} {s : State}
    (h : Run service.next (Service.State.init o) tr s) {thread message : UUID} {i : Nat} {row : Row}
    (hi : IsDelete s thread message i (.answered (.ok row))) :
    ∃ r, s.obj.byId message = some r ∧ r.deletedAt ≠ none := by
  obtain ⟨user, hi⟩ := hi
  refine h.inv (I := fun s => s.calls i = some (.deleteMessage thread message user,
    .answered (.ok row)) → ∃ r, s.obj.byId message = some r ∧ r.deletedAt ≠ none) ?_ ?_ hi
  · intro hnone
    cases hnone
  · intro s e s' hs he hi
    rcases step_cases he with ⟨j, c, -, hn, rfl⟩ | ⟨j, x, c, pc, t', g, -, hc, hdid, rfl⟩
    · rcases update_cases hi with ⟨-, heq⟩ | ⟨-, hold⟩
      · cases heq
      · exact hs hold
    · rcases update_cases hi with ⟨rfl, heq⟩ | ⟨-, hold⟩
      · obtain ⟨rfl, rfl⟩ := Prod.mk.inj heq
        cases hdid with
        | @wrote _ m r hm hr hrep =>
          cases hm
          refine ⟨Sql.softDeletedRow x.now none r, ?_, by simp [Sql.softDeletedRow]⟩
          have hid : (Call.written (.deleteMessage thread message user) x.now r).id = message := by
            rw [Call.written_id, Table.byId_id hr]
          rw [Table.byId_set (by rw [hid]; exact hr), if_pos hid.symm]
          rfl
      · obtain ⟨r, hr, hdel⟩ := hs hold
        obtain ⟨r', hr', -, hkept⟩ := hdid.byId_kept hr
        exact ⟨r', hr', by rw [hkept hdel]; exact hdel⟩

/-- Of the deletes of a message that is live in their thread somewhere in a run, one succeeds as
soon as one has answered that had not answered there. The account is opened at that point, with the
deletes that had answered as `A`. -/
theorem one_delete_succeeds {o : Table} {tr₁ tr₂ : List Step} {m s : State}
    (h₁ : Run service.next (Service.State.init o) tr₁ m) (h₂ : Run service.next m tr₂ s)
    {thread message : UUID} {r : Row} (hr : m.obj.byId message = some r) (ht : r.threadId = thread)
    (hlive : r.deletedAt = none) {i : Nat} {res : Result}
    (hbefore : ∀ res, ¬ IsDelete m thread message i (.answered res))
    (hi : IsDelete s thread message i (.answered res)) :
    ∃! w, ∃ row, IsDelete s thread message w (.answered (.ok row)) := by
  have hinv : Deletes (fun j => ∃ res, IsDelete m thread message j (.answered res))
      thread message s := by
    refine h₂.historyInv (C := fun _ => True) (I := fun _ s => Deletes
      (fun j => ∃ res, IsDelete m thread message j (.answered res)) thread message s) ?_ ?_
      fun _ _ => trivial
    · refine ⟨fun _ _ _ j res hj => ⟨res, hj⟩, fun q hq hd => ?_, fun j _ row hj => ?_, fun _ => id⟩
      · rw [hr, Option.some.injEq] at hq
        exact absurd (hq ▸ hlive) hd
      · obtain ⟨q, hq, hd⟩ := deleted_of_success h₁ hj
        rw [hr, Option.some.injEq] at hq
        exact absurd (hq ▸ hlive) hd
    · intro tr' m' e s' hrun hm he _
      obtain ⟨r', hr', hsame, -⟩ := row_stays hrun hr
      exact deletes_step (checked_of_run (h₁.append hrun)) hm ⟨r', hr', hsame.threadId.trans ht⟩ he
  obtain ⟨r', hr', -, -⟩ := row_stays h₂ hr
  refine hinv.deleted r' hr' fun hn => ?_
  obtain ⟨res', hres'⟩ := hinv.live r' hr' hn i res hi
  exact hbefore res' hres'

/-- **Concurrent creates, updates and deletes are linearizable.** Every interleaving of their
statements, from every table, is explained by a sequential order of the whole calls: the same
answers, the same table, each call on the `NOW()` of the statement by which it answered, and no
call before one that had answered when it was made. Wherever in the run a message is live in the
thread of its deletes, whether it was there from the start or created on the way, exactly one of
them succeeds once one has answered that had not answered there; one that had was too early. -/
theorem writes_linearizable {o : Table} {tr : List Step} {s : State}
    (h : Run service.next (Service.State.init o) tr s) :
    (∃ order, service.Linearization o tr s order) ∧
    ∀ tr₁ tr₂ m, tr = tr₁ ++ tr₂ → Run service.next (Service.State.init o) tr₁ m →
      ∀ thread message r, m.obj.byId message = some r → r.threadId = thread → r.deletedAt = none →
        ∀ i res, (∀ res', ¬ IsDelete m thread message i (.answered res')) →
          IsDelete s thread message i (.answered res) →
          ∃! w, ∃ row, IsDelete s thread message w (.answered (.ok row)) := by
  refine ⟨(service_commitLast.linearizable h).2, ?_⟩
  rintro tr₁ tr₂ m rfl h₁ thread message r hr ht hlive i res hbefore hi
  obtain ⟨m', h₁', h₂⟩ := h.split
  obtain rfl := h₁.state_unique h₁'
  exact one_delete_succeeds h₁ h₂ hr ht hlive hbefore hi

def creates : List Event :=
  [.invoke 0 (.createMessage Sample.thread Sample.user (some "hola") none none),
    .step 0 ⟨Sample.minute 0, Sample.message⟩]

/-- Two deletes of one message, both past their checks before either writes. -/
def racingDeletes : List Event :=
  [.invoke 1 (.deleteMessage Sample.thread Sample.message Sample.user),
    .invoke 2 (.deleteMessage Sample.thread Sample.message Sample.user),
    .step 1 ⟨Sample.minute 1, Sample.message⟩, .step 2 ⟨Sample.minute 2, Sample.message⟩,
    .step 2 ⟨Sample.minute 3, Sample.message⟩, .step 1 ⟨Sample.minute 4, Sample.message⟩]

/-- A message that was created in the run, and its two deletes: one of them succeeds. -/
theorem writes_linearizable_racingDeletes : ∃ m s,
    exec service.next (Service.State.init .empty) creates = some m ∧
      exec service.next m racingDeletes = some s ∧
      ∃! w, ∃ row, IsDelete s Sample.thread Sample.message w (.answered (.ok row)) := by
  let created : Row := { Sample.row with type := none }
  have hcreate : (exec service.next (Service.State.init .empty) creates).map (fun m =>
      m.obj.byId Sample.message) = some (some created) := by
    decide
  obtain ⟨m, hm, hrow⟩ := Option.map_eq_some_iff.mp hcreate
  have hidle : (exec service.next (Service.State.init .empty) creates).map (fun m => m.calls 1) =
      some none := rfl
  rw [hm, Option.map_some, Option.some.injEq] at hidle
  have hanswer : (exec service.next (Service.State.init .empty) (creates ++ racingDeletes)).bind
      (fun s => s.calls 1) = some (.deleteMessage Sample.thread Sample.message Sample.user,
        .answered (.error "No row returned when deleting message")) := by
    rfl
  rw [exec_append, hm, Option.bind_some] at hanswer
  cases hs : exec service.next m racingDeletes with
  | none =>
    rw [hs] at hanswer
    cases hanswer
  | some s =>
    rw [hs] at hanswer
    have h₁ := (Run.of_exec hm).2
    refine ⟨m, s, hm, hs, (writes_linearizable (h₁.append (Run.of_exec hs).2)).2 _ _ m rfl h₁
      Sample.thread Sample.message created hrow rfl rfl 1 _ ?_ ⟨Sample.user, hanswer⟩⟩
    rintro res ⟨user, hu⟩
    rw [hidle] at hu
    cases hu

end MessagesApp.Controller
