import MessagesApp.Lib.Run
import Mathlib.Algebra.BigOperators.Group.List.Basic
import Mathlib.Algebra.Ring.Nat

/-!
# Whole stores that are read and written back

A request reads a whole store, works on its copy, and writes the copy back whole with its change
in it; others may have read and written in between. `σ` is the store, `ι` names the requests, `α`
are the changes and `apply` makes one.

A write back is fresh where the store is still the copy. If all are, the store is what the changes
make of it one after the other (`store_of_fresh`). If the changes add to a weight, the converse
holds: a weight with every change in it means that every write back was fresh, so that what a
stale one wrote over is missing for good (`weight_eq_iff`).

The converse needs more than the store itself. No store, and no copy under way, weighs more than
all changes together; a copy that weighs that much can only be the store in place. `Weighed` says
this, and a step keeps it: after a stale write the store is short of a change, and no copy under
way has it all, so that no later write can make up for it.

Locks, versions and retries are left out: the store takes what it is given.
-/

set_option autoImplicit false

namespace Lib.WriteBack

/-- The store, and the copy of each request that has read it and not yet ended. -/
structure State (σ ι : Type*) where
  store : σ
  copies : ι → Option σ

inductive Event (ι α : Type*)
  | load (i : ι)
  | save (i : ι) (a : α)
  /-- The request ends, and has nothing to write. -/
  | leave (i : ι)

variable {σ ι α : Type*} [DecidableEq ι]

def State.init (s : σ) : State σ ι := ⟨s, fun _ => none⟩

/-- A request reads the whole store, writes its copy back with a change in it, or ends with nothing
to write. A request without a copy has nothing to write back. -/
def step (apply : σ → α → σ) (s : State σ ι) : Event ι α → Option (State σ ι)
  | .load i => if (s.copies i).isNone then
      some { s with copies := Function.update s.copies i (some s.store) } else none
  | .save i a => (s.copies i).map fun c => ⟨apply c a, Function.update s.copies i none⟩
  | .leave i => (s.copies i).map fun _ => { s with copies := Function.update s.copies i none }

/-- A step of a run. -/
abbrev Made (σ ι α : Type*) := Transition (State σ ι) (Event ι α)

/-- The changes that were written. -/
def Event.saved : Event ι α → Option α
  | .save _ a => some a
  | _ => none

def saved (tr : List (Made σ ι α)) : List α := tr.filterMap fun t => t.event.saved

/-- What is written back was made of the store: no other request has written since this one read it,
or what it wrote was the same. -/
def Fresh (t : Made σ ι α) : Prop :=
  ∀ i a, t.event = .save i a → t.pre.copies i = some t.pre.store

variable {apply : σ → α → σ} {s s' : State σ ι} {s₀ : σ} {tr : List (Made σ ι α)} {e : Event ι α}

omit [DecidableEq ι] in
theorem saved_snoc (tr : List (Made σ ι α)) (t : Made σ ι α) :
    saved (tr ++ [t]) = saved tr ++ t.event.saved.toList := by
  unfold saved
  rw [List.filterMap_append]
  cases h : t.event.saved <;> simp [h]

theorem step_load {i : ι} (h : s.copies i = none) : step apply s (.load i) =
    some ⟨s.store, Function.update s.copies i (some s.store)⟩ := by
  simp [step, h]

theorem step_save {i : ι} {a : α} {c : σ} (h : s.copies i = some c) : step apply s (.save i a) =
    some ⟨apply c a, Function.update s.copies i none⟩ := by
  simp [step, h]

theorem step_leave {i : ι} {c : σ} (h : s.copies i = some c) :
    step apply s (.leave i : Event ι α) = some ⟨s.store, Function.update s.copies i none⟩ := by
  simp [step, h]

/-- Everything a step can be. -/
theorem step_cases (h : step apply s e = some s') :
    (∃ i, e = .load i ∧ s' = ⟨s.store, Function.update s.copies i (some s.store)⟩) ∨
    (∃ i a c, e = .save i a ∧ s.copies i = some c ∧
      s' = ⟨apply c a, Function.update s.copies i none⟩) ∨
    (∃ i, e = .leave i ∧ s' = ⟨s.store, Function.update s.copies i none⟩) := by
  cases e with
  | load i =>
    simp only [step] at h
    split at h
    · exact Or.inl ⟨i, rfl, (Option.some.inj h).symm⟩
    · cases h
  | save i a =>
    obtain ⟨c, hc, rfl⟩ := Option.map_eq_some_iff.mp h
    exact Or.inr (Or.inl ⟨i, a, c, rfl, hc, rfl⟩)
  | leave i =>
    obtain ⟨c, -, rfl⟩ := Option.map_eq_some_iff.mp h
    exact Or.inr (Or.inr ⟨i, rfl, rfl⟩)

/-- A copy that is there after the step of a request was there before, or has just been read. -/
theorem copies_step (h : step apply s e = some s') {j : ι} {c : σ} (hc : s'.copies j = some c) :
    s.copies j = some c ∨ c = s.store ∧ s'.store = s.store := by
  have hleft : ∀ i, Function.update s.copies i none j = some c → s.copies j = some c := by
    intro i hi
    by_cases hij : j = i
    · subst hij
      rw [Function.update_self] at hi
      cases hi
    · rwa [Function.update_of_ne hij] at hi
  rcases step_cases h with ⟨i, -, rfl⟩ | ⟨i, a, c', -, -, rfl⟩ | ⟨i, -, rfl⟩
  · rcases update_cases hc with ⟨-, rfl⟩ | ⟨-, hc⟩
    · exact Or.inr ⟨rfl, rfl⟩
    · exact Or.inl hc
  · exact Or.inl (hleft i hc)
  · exact Or.inl (hleft i hc)

/-- **Fresh changes come one after the other.** The store is the fold of the changes, in the order
in which they were written. -/
theorem store_of_fresh (h : Run (step apply) (State.init s₀) tr s) (hfresh : ∀ t ∈ tr, Fresh t) :
    s.store = (saved tr).foldl apply s₀ := by
  refine h.historyInv (C := Fresh) (I := fun tr s => s.store = (saved tr).foldl apply s₀) rfl ?_ hfresh
  intro tr m e s _ ih hstep hC
  rw [saved_snoc, List.foldl_append, ← ih]
  rcases step_cases hstep with ⟨i, rfl, rfl⟩ | ⟨i, a, c, rfl, hc, rfl⟩ | ⟨i, rfl, rfl⟩
  · rfl
  · have hcopy : c = m.store := Option.some.inj (hc.symm.trans (hC i a rfl))
    rw [hcopy]
    rfl
  · rfl

/-! ## Weights -/

section Weight

variable (weight : σ → Nat) (w : α → Nat)

/-- The weight of a store that every change has come to: that of the first one, and the weights of
all changes written. -/
def full (s₀ : σ) (tr : List (Made σ ι α)) : Nat := weight s₀ + ((saved tr).map w).sum

/-- No store weighs more, the one in place has it all where every write back was fresh, and a copy
only as that store. The invariant behind `weight_eq_iff`. -/
structure Weighed (s₀ : σ) (tr : List (Made σ ι α)) (s : State σ ι) : Prop where
  store : weight s.store ≤ full weight w s₀ tr
  fresh : weight s.store = full weight w s₀ tr ↔ ∀ t ∈ tr, Fresh t
  copies : ∀ i c, s.copies i = some c → weight c ≤ full weight w s₀ tr ∧
    (weight c = full weight w s₀ tr → c = s.store)

variable {weight w}

omit [DecidableEq ι] in
theorem full_snoc (tr : List (Made σ ι α)) (t : Made σ ι α) :
    full weight w s₀ (tr ++ [t]) = full weight w s₀ tr + (t.event.saved.map w).getD 0 := by
  unfold full
  rw [saved_snoc, List.map_append, List.sum_append, Nat.add_assoc]
  cases t.event.saved <;> simp

/-- Changes that weigh something add it to what they are made to, whatever that is. -/
def Adds (apply : σ → α → σ) (weight : σ → Nat) (w : α → Nat) (a : α) : Prop :=
  0 < w a ∧ ∀ s, weight (apply s a) = weight s + w a

omit [DecidableEq ι] in
theorem forall_snoc {C : Made σ ι α → Prop} {t : Made σ ι α} :
    (∀ x ∈ tr ++ [t], C x) ↔ (∀ x ∈ tr, C x) ∧ C t := by
  simp [or_imp, forall_and]

theorem Weighed.step {m : State σ ι} (hm : Weighed weight w s₀ tr m)
    (hstep : step apply m e = some s) (ha : ∀ a, e.saved = some a → Adds apply weight w a) :
    Weighed weight w s₀ (tr ++ [⟨m, e, s⟩]) s := by
  have hcopies : ∀ j c, s.copies j = some c → weight c ≤ full weight w s₀ tr ∧
      (weight c = full weight w s₀ tr → c = m.store) := by
    intro j c hc
    rcases copies_step hstep hc with hc | ⟨rfl, -⟩
    · exact hm.copies j c hc
    · exact ⟨hm.store, fun _ => rfl⟩
  -- a step that writes nothing
  have hquiet : e.saved = none → s.store = m.store → Weighed weight w s₀ (tr ++ [⟨m, e, s⟩]) s := by
    intro hnone hstore
    have hfull : full weight w s₀ (tr ++ [⟨m, e, s⟩]) = full weight w s₀ tr := by
      rw [full_snoc, hnone]
      rfl
    have hfresh : Fresh ⟨m, e, s⟩ := by
      rintro i a rfl
      cases hnone
    refine ⟨?_, ?_, fun j c hc => ?_⟩
    · rw [hfull, hstore]
      exact hm.store
    · rw [hfull, hstore, forall_snoc, hm.fresh]
      exact (and_iff_left hfresh).symm
    · rw [hfull, hstore]
      exact hcopies j c hc
  rcases step_cases hstep with ⟨i, rfl, rfl⟩ | ⟨i, a, c, rfl, hc, rfl⟩ | ⟨i, rfl, rfl⟩
  · exact hquiet rfl rfl
  · obtain ⟨hpos, hadd⟩ := ha a rfl
    obtain ⟨hle, hsame⟩ := hm.copies i c hc
    have hfull : ∀ s, full weight w s₀ (tr ++ [⟨m, .save i a, s⟩]) = full weight w s₀ tr + w a :=
      fun s => full_snoc tr ⟨m, .save i a, s⟩
    have hfresh : ∀ s, Fresh (⟨m, .save i a, s⟩ : Made σ ι α) ↔ c = m.store := by
      intro s
      constructor
      · intro h
        exact Option.some.inj (hc.symm.trans (h i a rfl))
      · rintro rfl j b hev
        cases hev
        exact hc
    refine ⟨?_, ?_, fun j d hd => ?_⟩
    · rw [hfull, hadd]
      exact Nat.add_le_add_right hle _
    · rw [hfull, hadd, forall_snoc, hfresh, ← hm.fresh, Nat.add_right_cancel_iff]
      constructor
      · intro hw
        have hstore := hsame hw
        exact ⟨hstore ▸ hw, hstore⟩
      · rintro ⟨hw, rfl⟩
        exact hw
    · have hd := (hcopies j d hd).1
      rw [hfull]
      exact ⟨by omega, fun h => by omega⟩
  · exact hquiet rfl rfl

/-- **Every change is in the weight of the store exactly where every write back was fresh.** A stale
write loses at least one change for good. -/
theorem weight_eq_iff (weight : σ → Nat) (w : α → Nat) (h : Run (step apply) (State.init s₀) tr s)
    (ha : ∀ a ∈ saved tr, Adds apply weight w a) :
    weight s.store = full weight w s₀ tr ↔ ∀ t ∈ tr, Fresh t := by
  have hnil : weight (State.init s₀ : State σ ι).store = full weight w s₀ ([] : List (Made σ ι α)) :=
    rfl
  refine (h.historyInv (I := Weighed weight w s₀)
    (C := fun t => ∀ a, t.event.saved = some a → Adds apply weight w a) ?_ ?_ ?_).fresh
  · exact ⟨Nat.le_of_eq hnil, iff_of_true hnil (by simp), fun i c hc => by cases hc⟩
  · intro tr m e s _ hm hstep ha
    exact hm.step hstep ha
  · intro t ht a hsaved
    exact ha a (List.mem_filterMap.mpr ⟨t, ht, hsaved⟩)

end Weight

end Lib.WriteBack
