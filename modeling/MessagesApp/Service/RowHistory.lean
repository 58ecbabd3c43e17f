import MessagesApp.Service.Linearizable

/-!
# What a row has gone through

A row of the table against the whole run that led to it: it was inserted by one create, and since
then only updates and deletes that name its thread and its id have written it. `COALESCE` makes a
column of an update that carries NULL keep what it had, so the value of a column is the last one
that was supplied for it, whoever supplied the others.

The history is read off the run. `Wrote` is a transition at which a call answered the row it wrote,
and `updates` are the successful updates of an id in the order of their `UPDATE` statements, which
need not be the order in which the calls were made or had their checks.

The invariant is `Provenance`: the create that inserted the row is in the history, and the row is
what the creates and updates of the history make of it. A step adds to it what its call supplies,
or leaves it as it was; times are compared along the history, so the clock must not go back
(`ClockMonotone`), as it may on a server whose time is set.

`RowHistory` collects what follows for the rows of a run, its four parts being about different
steps: rows stay, a call writes the row it names and no other, nothing else writes, and the times
and values are accounted for. The run begins with an empty table, since of a row that was there
before it nothing is known.
-/

set_option autoImplicit false

namespace MessagesApp.Controller

open Py Lib

/-! ## Reading a history -/

/-- The `NOW()` of a statement. -/
def now? : Event → Option DateTime
  | .invoke .. => none
  | .step _ x => some x.now

/-- The clock does not go back from one statement to the next, whosever statements they are. -/
def ClockMonotone (tr : List Step) : Prop :=
  (tr.filterMap fun t => now? t.event).Pairwise (· ≤ ·)

/-- At `t` a statement of the call `c`, on `x`, wrote `row` and the call answered it. That it was
written is proved (`Did.writes`), and the answer is what the definition looks at. -/
def Wrote (t : Step) (c : Call) (x : Supplied) (row : Row) : Prop :=
  ∃ i pc, t.event = .step i x ∧ t.pre.calls i = some (c, .running pc) ∧
    t.post.calls i = some (c, .answered (.ok row))

/-- The content and paths that a successful `UpdateMessage` of `id` supplied at `t`. -/
def update? (id : UUID) (t : Step) : Option (Option String × Option (List String)) :=
  match t.event with
  | .invoke .. => none
  | .step i _ =>
      match t.pre.calls i, t.post.calls i with
      | some (.updateMessage _ message _ content _ path, .running _), some (_, .answered (.ok _)) =>
          if message = id then some (content, path) else none
      | _, _ => none

/-- The successful updates of `id`, in the order of their `UPDATE` statements, which is the order in
which they take effect. -/
def updates (id : UUID) (tr : List Step) : List (Option String × Option (List String)) :=
  tr.filterMap (update? id)

def lastGiven {α : Type} (vs : List (Option α)) : Option α := (vs.filterMap fun v => v).getLast?

theorem lastGiven_snoc {α : Type} (vs : List (Option α)) (v : Option α) :
    lastGiven (vs ++ [v]) = v.or (lastGiven vs) := by
  unfold lastGiven
  rw [List.filterMap_append]
  cases v with
  | none => simp
  | some a => simp

theorem updates_snoc (id : UUID) (tr : List Step) (t : Step) :
    updates id (tr ++ [t]) = updates id tr ++ (update? id t).toList := by
  unfold updates
  rw [List.filterMap_append]
  cases h : update? id t <;> simp [h]

theorem ClockMonotone.prefix_of {tr tr' : List Step} (h : ClockMonotone (tr ++ tr')) :
    ClockMonotone tr := by
  unfold ClockMonotone at h
  rw [List.filterMap_append] at h
  exact (List.pairwise_append.mp h).1

/-- The clock of the last statement is the latest. -/
theorem ClockMonotone.le_last {tr : List Step} {t t' : Step} (h : ClockMonotone (tr ++ [t']))
    (ht : t ∈ tr) {a b : DateTime} (ha : now? t.event = some a) (hb : now? t'.event = some b) :
    a ≤ b := by
  unfold ClockMonotone at h
  rw [List.filterMap_append] at h
  refine (List.pairwise_append.mp h).2.2 a ?_ b ?_
  · exact List.mem_filterMap.mpr ⟨t, ht, ha⟩
  · exact List.mem_filterMap.mpr ⟨t', List.mem_singleton_self _, hb⟩

/-! ## One step -/

/-- What a statement writes, it answers: the row it leaves is in its thread, under its message id,
and no other row changes. A statement that answers no row leaves the table as it was. -/
theorem Did.writes {c : Call} {pc : Pc} {x : Supplied} {t t' : Table} {g : Progress Pc Result}
    (h : Did x t c pc t' g) (hA : Checked c pc t) :
    (t' = t ∧ ∀ row, g ≠ .answered (.ok row)) ∨
    ∃ row, g = .answered (.ok row) ∧ row.threadId = c.thread ∧
      (∀ m, c.message? = some m → row.id = m) ∧ t'.byId row.id = some row ∧
      ∀ id, id ≠ row.id → t'.byId id = t.byId id := by
  cases h with
  | created hins =>
    refine Or.inr ⟨_, rfl, rfl, fun m hm => ?_, ?_, fun id hid => ?_⟩
    · cases hm
    · rw [Table.byId_insert hins, if_pos rfl]
    · rw [Table.byId_insert hins, if_neg hid]
  | refused | passed | lost => exact Or.inl ⟨rfl, fun _ hg => by cases hg⟩
  | @wrote c m r hm hr hrep =>
    obtain ⟨m', r₁, hm', hr₁, ht₁⟩ := hA rfl
    have hmm : m = m' := Option.some.inj (hm.symm.trans hm')
    subst hmm
    rw [hr, Option.some.injEq] at hr₁
    subst hr₁
    have hid : (c.written x.now r).id = m := by rw [Call.written_id, Table.byId_id hr]
    have hold : t.byId (c.written x.now r).id = some r := by rw [hid]; exact hr
    refine Or.inr ⟨_, rfl, ?_, fun m' hm'' => ?_, ?_, fun id hne => ?_⟩
    · exact ((c.written_identity x.now r).threadId).trans ht₁
    · rw [hid]
      exact Option.some.inj (hm.symm.trans hm'')
    · rw [Table.byId_set hold, if_pos rfl]
    · rw [Table.byId_set hold, if_neg hne]

/-- What an update supplies for the two columns it writes. -/
def Call.supplied : Call → Option (Option String × Option (List String))
  | .createMessage .. => none
  | .updateMessage _ _ _ content _ path => some (content, path)
  | .deleteMessage .. => none

/-- A step is a successful update of `id` where its call is one and it answers a row. -/
theorem update?_step (id : UUID) {s : State} {i : Nat} {x : Supplied} {c : Call} {pc : Pc}
    (t' : Table) (g : Progress Pc Result) (hc : s.calls i = some (c, .running pc)) :
    update? id ⟨s, .step i x, ⟨t', Function.update s.calls i (some (c, g))⟩⟩ =
      match g with
      | .answered (.ok _) => if c.message? = some id then c.supplied else none
      | _ => none := by
  unfold update?
  simp only [hc, Function.update_self]
  cases c with
  | createMessage => cases g with
    | running => rfl
    | answered r => cases r <;> rfl
  | deleteMessage => cases g with
    | running => rfl
    | answered r => cases r <;> simp [Call.supplied]
  | updateMessage thread message user content typeM path => cases g with
    | running => rfl
    | answered r => cases r with
      | error => rfl
      | ok => simp only [Call.message?, Option.some.injEq, Call.supplied]

/-! ## The invariant -/

/-- The history accounts for the row `r`: a create in it inserted the row, and the columns hold what
its updates supplied last. The times are not before that of the create. -/
def Provenance (tr : List Step) (r : Row) : Prop :=
  ∃ t ∈ tr, ∃ thread user content typeM path x,
    Wrote t (.createMessage thread user content typeM path) x
      (Call.created thread user content typeM path x) ∧
    SameIdentity (Call.created thread user content typeM path x) r ∧
    (∃ u, r.updatedAt = some u ∧ x.now ≤ u) ∧
    (∀ d, r.deletedAt = some d → x.now ≤ d) ∧
    r.content = (lastGiven ((updates r.id tr).map Prod.fst)).or (content.or (some "")) ∧
    r.paths = (lastGiven ((updates r.id tr).map Prod.snd)).or path

/-- Every row is accounted for, and there are no updates of rows that do not exist. The invariant of
the run. -/
structure Explained (tr : List Step) (s : State) : Prop where
  fresh : ∀ id, s.obj.byId id = none → updates id tr = []
  rows : ∀ id r, s.obj.byId id = some r → Provenance tr r

theorem Provenance.quiet {tr : List Step} {r : Row} {t : Step} (h : Provenance tr r)
    (ht : update? r.id t = none) : Provenance (tr ++ [t]) r := by
  obtain ⟨t₀, ht₀, thread, user, content, typeM, path, x, hw, hid, hu, hd, hc, hp⟩ := h
  have hsame : updates r.id (tr ++ [t]) = updates r.id tr := by
    rw [updates_snoc, ht, Option.toList_none, List.append_nil]
  refine ⟨t₀, List.mem_append_left _ ht₀, thread, user, content, typeM, path, x, hw, hid, hu, hd,
    ?_, ?_⟩
  · rw [hsame]
    exact hc
  · rw [hsame]
    exact hp

/-- An update or a delete of `r` adds what it supplies. -/
theorem Provenance.written {tr : List Step} {r : Row} {t : Step} {c : Call} {m : UUID}
    {now : DateTime} (h : Provenance tr r) (hclock : ClockMonotone (tr ++ [t]))
    (hnow : now? t.event = some now) (hm : c.message? = some m)
    (ht : update? r.id t = c.supplied) : Provenance (tr ++ [t]) (c.written now r) := by
  obtain ⟨t₀, ht₀, thread, user, content, typeM, path, x, hw, hid, hu, hd, hc, hp⟩ := h
  have hle : x.now ≤ now := by
    obtain ⟨i, pc, he, -, -⟩ := hw
    refine hclock.le_last ht₀ ?_ hnow
    rw [he]
    rfl
  refine ⟨t₀, List.mem_append_left _ ht₀, thread, user, content, typeM, path, x, hw,
    hid.trans (c.written_identity now r), ?_, ?_, ?_, ?_⟩
  · cases c with
    | createMessage => cases hm
    | updateMessage => exact ⟨now, rfl, hle⟩
    | deleteMessage => exact ⟨now, rfl, hle⟩
  · intro d hdel
    cases c with
    | createMessage => cases hm
    | updateMessage => exact hd d hdel
    | deleteMessage =>
      cases hdel
      exact hle
  · rw [Call.written_id, updates_snoc, ht]
    cases c with
    | createMessage => cases hm
    | updateMessage _ _ _ content' _ path' =>
      show content'.or r.content = _
      rw [hc, Call.supplied, Option.toList_some, List.map_append, List.map_singleton,
        lastGiven_snoc, Option.or_assoc]
    | deleteMessage =>
      show r.content = _
      rw [Call.supplied, Option.toList_none, List.append_nil]
      exact hc
  · rw [Call.written_id, updates_snoc, ht]
    cases c with
    | createMessage => cases hm
    | updateMessage _ _ _ content' _ path' =>
      show path'.or r.paths = _
      rw [hp, Call.supplied, Option.toList_some, List.map_append, List.map_singleton,
        lastGiven_snoc, Option.or_assoc]
    | deleteMessage =>
      show r.paths = _
      rw [Call.supplied, Option.toList_none, List.append_nil]
      exact hp

theorem explained_step {tr : List Step} {s s' : State} {e : Event} (h : Explained tr s)
    (hclock : ClockMonotone (tr ++ [⟨s, e, s'⟩])) (he : service.next s e = some s') :
    Explained (tr ++ [⟨s, e, s'⟩]) s' := by
  -- a step without a successful update, and with no change to the rows
  have hquiet : (∀ id, update? id ⟨s, e, s'⟩ = none) → s'.obj = s.obj →
      Explained (tr ++ [⟨s, e, s'⟩]) s' := by
    intro hno hobj
    refine ⟨fun id hid => ?_, fun id r hr => ?_⟩
    · rw [updates_snoc, hno, h.fresh id (hobj ▸ hid)]
      rfl
    · exact (h.rows id r (hobj ▸ hr)).quiet (hno r.id)
  rcases step_cases he with ⟨i, c, rfl, -, rfl⟩ | ⟨i, x, c, pc, t', g, rfl, hc, hdid, rfl⟩
  · exact hquiet (fun _ => rfl) rfl
  · have hupd := fun id => update?_step (x := x) id t' g hc
    cases hdid with
    | @created thread user content typeM path t' hins =>
      have hno : ∀ id, update? id ⟨s, .step i x, ⟨t', Function.update s.calls i
          (some (.createMessage thread user content typeM path,
            .answered (.ok (Call.created thread user content typeM path x))))⟩⟩ = none := by
        intro id
        rw [hupd]
        exact if_neg (by simp [Call.message?])
      obtain ⟨hfree, -⟩ := Table.insert_eq_some hins
      refine ⟨fun id hid => ?_, fun id r hr => ?_⟩
      · rw [Table.byId_insert hins] at hid
        split at hid
        · cases hid
        · rw [updates_snoc, hno, h.fresh id hid]
          rfl
      · rw [Table.byId_insert hins] at hr
        split at hr
        · -- the row is new: nobody has updated it
          cases hr
          refine ⟨_, List.mem_append_right _ (List.mem_singleton_self _), thread, user, content,
            typeM, path, x, ⟨i, .begin, rfl, hc, Function.update_self ..⟩, .refl _, ⟨x.now, rfl, le_refl _⟩,
            fun d hd => ?_, ?_, ?_⟩
          · cases hd
          · rw [updates_snoc, hno, h.fresh _ hfree]
            rfl
          · rw [updates_snoc, hno, h.fresh _ hfree]
            rfl
        · exact (h.rows id r hr).quiet (hno r.id)
    | refused => exact hquiet hupd rfl
    | passed => exact hquiet hupd rfl
    | lost => exact hquiet hupd rfl
    | @wrote c m r hm hr hrep =>
      have hrm : r.id = m := Table.byId_id hr
      have hid : (c.written x.now r).id = m := by rw [Call.written_id, hrm]
      have hset := Table.byId_set (t := s.obj) (x := r) (r := c.written x.now r) (by rw [hid]; exact hr)
      have hother : ∀ id, id ≠ m → update? id ⟨s, .step i x, ⟨s.obj.set (c.written x.now r),
          Function.update s.calls i (some (c, .answered (.ok (c.written x.now r))))⟩⟩ = none := by
        intro id hne
        rw [hupd]
        exact if_neg fun he => hne (Option.some.inj (he.symm.trans hm))
      refine ⟨fun id hnone => ?_, fun id q hq => ?_⟩
      · rw [hset, hid] at hnone
        split at hnone
        · cases hnone
        · rename_i hne
          rw [updates_snoc, hother id hne, h.fresh id hnone]
          rfl
      · rw [hset, hid] at hq
        split at hq
        · cases hq
          refine (h.rows m r hr).written hclock rfl hm ?_
          rw [hupd, hrm]
          exact if_pos hm
        · rename_i hne
          refine (h.rows id q hq).quiet (hother q.id ?_)
          rw [Table.byId_id hq]
          exact hne

theorem explained_of_run {tr : List Step} {s : State}
    (h : Run service.next (Service.State.init Table.empty) tr s) (hclock : ClockMonotone tr) :
    Explained tr s := by
  revert hclock
  refine h.historyInv (C := fun _ => True)
    (I := fun tr s => ClockMonotone tr → Explained tr s) ?_ ?_ fun _ _ => trivial
  · intro _
    exact ⟨fun _ _ => rfl, fun _ _ hr => by cases hr⟩
  · intro tr m e s _ hm he _ hclock
    exact explained_step (hm hclock.prefix_of) hclock he

/-! ## The history of a row -/

/-- What holds of the table and of the run that led to it, for every row and every step of it. -/
structure RowHistory (tr : List Step) (s : State) : Prop where
  /-- A row that was there after some of the steps is there still, with the same id, thread,
  user, type and creation time, and with its `deleted_at` where it had one. -/
  kept : ∀ tr₁ tr₂ m, tr = tr₁ ++ tr₂ → Run service.next (Service.State.init Table.empty) tr₁ m →
    ∀ id r, m.obj.byId id = some r → ∃ r', s.obj.byId id = some r' ∧ SameIdentity r r' ∧
      (r.deletedAt ≠ none → r'.deletedAt = r.deletedAt)
  /-- A statement whose call answers a row wrote that row alone, and the row is the one its call
  names, in the thread it names. -/
  written : ∀ t ∈ tr, ∀ c x row, Wrote t c x row → row.threadId = c.thread ∧
    (∀ m, c.message? = some m → row.id = m) ∧ t.post.obj.byId row.id = some row ∧
    ∀ id, id ≠ row.id → t.post.obj.byId id = t.pre.obj.byId id
  /-- Nothing else writes. -/
  unwritten : ∀ t ∈ tr, (∀ c x row, ¬ Wrote t c x row) → t.post.obj = t.pre.obj
  /-- A row has a creation time, and was not updated or deleted before it. -/
  times : ∀ r ∈ s.obj.rows, ∃ c, r.createdAt = some c ∧ (∃ u, r.updatedAt = some u ∧ c ≤ u) ∧
    ∀ d, r.deletedAt = some d → c ≤ d
  /-- Its content and its paths are each the last value an update supplied for it, or what its
  create gave. -/
  values : ∀ r ∈ s.obj.rows, ∃ t ∈ tr, ∃ thread user content typeM path x row₀,
    Wrote t (.createMessage thread user content typeM path) x row₀ ∧ row₀.id = r.id ∧
    r.content = (lastGiven ((updates r.id tr).map Prod.fst)).or (content.or (some "")) ∧
    r.paths = (lastGiven ((updates r.id tr).map Prod.snd)).or path

theorem wrote_step {s : State} {i : Nat} {x x' : Supplied} {c c' : Call} {t' : Table}
    {g : Progress Pc Result} {row : Row}
    (h : Wrote ⟨s, .step i x, ⟨t', Function.update s.calls i (some (c, g))⟩⟩ c' x' row) :
    c' = c ∧ g = .answered (.ok row) := by
  obtain ⟨j, pc', he, hpre, hpost⟩ := h
  cases he
  simp only [Function.update_self, Option.some.injEq, Prod.mk.injEq] at hpost
  exact ⟨hpost.1.symm, hpost.2⟩

/-- **The history of the rows**: in every run from the empty table, with a clock that does not go
back. The parts are read off the invariant, and off what a single statement does. -/
theorem row_history {tr : List Step} {s : State}
    (h : Run service.next (Service.State.init Table.empty) tr s) (hclock : ClockMonotone tr) :
    RowHistory tr s where
  kept tr₁ tr₂ m htr h₁ id r hr := by
    subst htr
    obtain ⟨m', h₁', h₂⟩ := h.split
    rw [h₁.state_unique h₁'] at hr
    exact row_stays h₂ hr
  written t ht c x row hw := by
    obtain ⟨he, tr', hpre⟩ := h.mem ht
    obtain ⟨s₁, e, s₂⟩ := t
    change service.next s₁ e = some s₂ at he
    rcases step_cases he with ⟨i, c', rfl, -, -⟩ | ⟨i, x', c', pc, t', g, rfl, hc, hdid, rfl⟩
    · obtain ⟨j, pc, hev, -, -⟩ := hw
      cases hev
    · obtain ⟨rfl, hg⟩ := wrote_step hw
      rcases hdid.writes (checked_of_run hpre i c pc hc) with ⟨-, hno⟩ | ⟨row', hg', hrest⟩
      · exact absurd hg (hno row)
      · rw [hg, Progress.answered.injEq, Except.ok.injEq] at hg'
        subst hg'
        exact hrest
  unwritten t ht hno := by
    obtain ⟨he, tr', hpre⟩ := h.mem ht
    obtain ⟨s₁, e, s₂⟩ := t
    change service.next s₁ e = some s₂ at he
    rcases step_cases he with ⟨i, c, rfl, -, rfl⟩ | ⟨i, x, c, pc, t', g, rfl, hc, hdid, rfl⟩
    · rfl
    · rcases hdid.writes (checked_of_run hpre i c pc hc) with ⟨hsame, -⟩ | ⟨row, rfl, -⟩
      · exact hsame
      · exact absurd ⟨i, pc, rfl, hc, Function.update_self ..⟩ (hno c x row)
  times r hr := by
    obtain ⟨t, -, thread, user, content, typeM, path, x, -, hid, hu, hd, -, -⟩ :=
      (explained_of_run h hclock).rows r.id r (Table.mem_iff_byId.mp hr)
    exact ⟨x.now, hid.createdAt, hu, hd⟩
  values r hr := by
    obtain ⟨t, ht, thread, user, content, typeM, path, x, hw, hid, -, -, hc, hp⟩ :=
      (explained_of_run h hclock).rows r.id r (Table.mem_iff_byId.mp hr)
    exact ⟨t, ht, thread, user, content, typeM, path, x, _, hw, hid.id.symm, hc, hp⟩

/-- A message, an update of its content between the two statements of an update of its paths, and
its deletion. -/
def oneMessage : List Event :=
  [.invoke 0 (.createMessage Sample.thread Sample.user (some "hola") none none),
    .step 0 ⟨Sample.minute 0, Sample.message⟩,
    .invoke 1 (.updateMessage Sample.thread Sample.message Sample.user none none (some ["a"])),
    .invoke 2 (.updateMessage Sample.thread Sample.message Sample.user (some "adiós") none none),
    .step 1 ⟨Sample.minute 1, Sample.message⟩, .step 2 ⟨Sample.minute 1, Sample.message⟩,
    .step 2 ⟨Sample.minute 2, Sample.message⟩, .step 1 ⟨Sample.minute 3, Sample.message⟩,
    .invoke 3 (.deleteMessage Sample.thread Sample.message Sample.user),
    .step 3 ⟨Sample.minute 4, Sample.message⟩, .step 3 ⟨Sample.minute 5, Sample.message⟩]

theorem row_history_oneMessage : ∃ tr s, tr.map Transition.event = oneMessage ∧
    Run service.next (Service.State.init Table.empty) tr s ∧ RowHistory tr s := by
  have hrun : (exec service.next (Service.State.init Table.empty) oneMessage).isSome := by
    decide
  obtain ⟨s, hs⟩ := Option.isSome_iff_exists.mp hrun
  obtain ⟨htr, h⟩ := Run.of_exec hs
  have hclock : ClockMonotone (trace service.next (Service.State.init Table.empty) oneMessage) := by
    have hevents : (oneMessage.filterMap now?).Pairwise (· ≤ ·) := by decide
    unfold ClockMonotone
    rw [← htr, List.filterMap_map] at hevents
    exact hevents
  exact ⟨_, s, htr, h, row_history h hclock⟩

end MessagesApp.Controller
