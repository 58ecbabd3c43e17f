import Mathlib.Algebra.BigOperators.Group.List.Basic
import Mathlib.Algebra.Order.Floor.Ring
import Mathlib.Data.List.Perm.Subperm
import Mathlib.Data.List.Perm.Basic
import Mathlib.Data.List.Induction
import Mathlib.Tactic.LinearCombination
import Mathlib.Tactic.FieldSimp
import Mathlib.Tactic.Ring
import Mathlib.Tactic.Linarith

/-!
# Statistics of a sequence that goes by

What can be kept of a sequence without keeping the sequence: its length, mean and squared
deviations, one update a value; a reservoir of at most `k` of its values, one of which the next
value may replace. The lemmas compare what was kept with the whole sequence, which grows at its
end. Rounding to the nearest integer, a half to the even one, is here because a percentile of the
reservoir is read at a rounded index.

`Moments.add` divides at every value and never sees the earlier ones again, so that its numbers
are not those of the definition by sight. `Moments.Of` is the relation that one update keeps: it
says the mean and the deviations by sums over the sequence, in which the update is a polynomial
identity, and `Moments.Of.batch` turns it into the definition.

The arithmetic is that of a field of characteristic zero, with no rounding of its own; how far
floats are from it is left out. Of the reservoir nothing is said of chance: which place is
replaced is an argument, and the lemmas hold for every choice.
-/

set_option autoImplicit false

namespace Lib

/-! ## Mean and squared deviations -/

section Moments

variable {K : Type*} [Field K]

/-- What is kept of a sequence: how many values, their mean, and the sum of their squared deviations
from it. -/
structure Moments (K : Type*) where
  n : Nat
  mean : K
  m2 : K

def Moments.init : Moments K := ⟨0, 0, 0⟩

/-- One more value. The deviation from the old mean times the one from the new mean is what it adds
to the sum of squares. -/
def Moments.add (s : Moments K) (v : K) : Moments K :=
  let mean := s.mean + (v - s.mean) / (s.n + 1 : Nat)
  ⟨s.n + 1, mean, s.m2 + (v - s.mean) * (v - mean)⟩

/-- Deviations from any point, by the sums of the values and of their squares. -/
theorem sum_sq_sub (l : List K) (m : K) : (l.map fun x => (x - m) ^ 2).sum =
    (l.map fun x => x ^ 2).sum - 2 * m * l.sum + l.length * m ^ 2 := by
  induction l with
  | nil => simp
  | cons x l ih =>
    simp only [List.map_cons, List.sum_cons, ih, List.length_cons, Nat.cast_add, Nat.cast_one]
    ring

/-- What the numbers are for the sequence `l`, by the sums of its values and of their squares, which
is how one update can be followed. -/
structure Moments.Of (s : Moments K) (l : List K) : Prop where
  n : s.n = l.length
  sum : s.n * s.mean = l.sum
  m2 : s.m2 = (l.map fun x => x ^ 2).sum - s.n * s.mean ^ 2

theorem Moments.Of.init : Moments.Of (Moments.init : Moments K) [] :=
  ⟨rfl, by simp [Moments.init], by simp [Moments.init]⟩

variable [CharZero K] {s : Moments K} {l : List K}

/-- **One update is one more value in the sequence.** -/
theorem Moments.Of.add (h : s.Of l) (v : K) : (s.add v).Of (l ++ [v]) := by
  have hn : ((s.n + 1 : Nat) : K) ≠ 0 := Nat.cast_ne_zero.mpr (Nat.succ_ne_zero s.n)
  -- the new mean, without its division
  have hmean : ((s.n + 1 : Nat) : K) * (s.add v).mean = s.n * s.mean + v := by
    show ((s.n + 1 : Nat) : K) * (s.mean + (v - s.mean) / (s.n + 1 : Nat)) = _
    rw [mul_add, mul_div_cancel₀ _ hn]
    push_cast
    ring
  refine ⟨?_, ?_, ?_⟩
  · rw [List.length_append, List.length_singleton, ← h.n]
    rfl
  · rw [List.sum_append, List.sum_singleton, ← h.sum]
    exact hmean
  · rw [List.map_append, List.sum_append, List.map_singleton, List.sum_singleton]
    show s.m2 + (v - s.mean) * (v - (s.add v).mean) =
      (l.map fun x => x ^ 2).sum + v ^ 2 - ((s.n + 1 : Nat) : K) * (s.add v).mean ^ 2
    rw [h.m2]
    push_cast at hmean ⊢
    linear_combination (s.mean + (s.add v).mean) * hmean

/-- **The one-pass numbers are the two-pass ones**: the mean is the sum by the length, and the other
number the sum of the squared deviations from that mean. -/
theorem Moments.Of.batch (h : s.Of l) (hl : l ≠ []) :
    s.mean = l.sum / l.length ∧ s.m2 = (l.map fun x => (x - s.mean) ^ 2).sum := by
  have hn : (l.length : K) ≠ 0 := Nat.cast_ne_zero.mpr (List.length_pos_of_ne_nil hl).ne'
  have hsum : (l.length : K) * s.mean = l.sum := by
    rw [← h.n]
    exact h.sum
  constructor
  · rw [← hsum, mul_div_cancel_left₀ _ hn]
  · rw [sum_sq_sub, h.m2, ← hsum, h.n]
    ring

end Moments

/-! ## A reservoir -/

section Reservoir

variable {α : Type*} {sample l : List α} {k : Nat}

/-- A value goes into the reservoir while there is room, and then in the place `j`, if there is such
a place; else it is not kept. -/
def keep (k : Nat) (sample : List α) (v : α) (j : Nat) : List α :=
  if sample.length < k then sample ++ [v]
  else if j < k then sample.set j v
  else sample

/-- **Each value of the sequence is kept at most once**, as many times as it is there: what is kept
is a part of the sequence, in any order. -/
theorem keep_subperm (h : sample.Subperm l) (v : α) (j : Nat) :
    (keep k sample v j).Subperm (l ++ [v]) := by
  unfold keep
  split
  · exact List.Subperm.append h (List.Subperm.refl [v])
  · split
    · by_cases hj : j < sample.length
      · have hset : (sample.set j v).Subperm (v :: sample.eraseIdx j) :=
          (List.set_perm_cons_eraseIdx hj v).subperm
        have herase : (sample.eraseIdx j).Subperm l :=
          (List.eraseIdx_sublist sample j).subperm.trans h
        refine hset.trans ?_
        exact ((List.subperm_cons v).mpr herase).trans (List.perm_append_singleton v l).symm.subperm
      · rw [List.set_eq_of_length_le (Nat.le_of_not_lt hj)]
        exact h.trans (List.sublist_append_left l [v]).subperm
    · exact h.trans (List.sublist_append_left l [v]).subperm

theorem length_keep (h : sample.length = min l.length k) (v : α) (j : Nat) :
    (keep k sample v j).length = min (l ++ [v]).length k := by
  unfold keep
  rw [List.length_append, List.length_singleton]
  split
  · rw [List.length_append, List.length_singleton]
    omega
  · split
    · rw [List.length_set]
      omega
    · omega

end Reservoir

/-! ## Rounding -/

section Round

variable {K : Type*} [Field K] [LinearOrder K] [IsStrictOrderedRing K] [FloorRing K]

/-- The nearest integer, and the even one of two that are as near: `round` of Python. -/
def roundHalfEven (q : K) : ℤ :=
  if q - ⌊q⌋ < 1 / 2 then ⌊q⌋
  else if 1 / 2 < q - ⌊q⌋ then ⌊q⌋ + 1
  else if ⌊q⌋ % 2 = 0 then ⌊q⌋
  else ⌊q⌋ + 1

omit [IsStrictOrderedRing K] in
theorem roundHalfEven_mem (q : K) : roundHalfEven q = ⌊q⌋ ∨ roundHalfEven q = ⌊q⌋ + 1 := by
  unfold roundHalfEven
  split
  · exact Or.inl rfl
  · split
    · exact Or.inr rfl
    · split
      · exact Or.inl rfl
      · exact Or.inr rfl

omit [IsStrictOrderedRing K] in
theorem roundHalfEven_eq_floor {q : K} : roundHalfEven q = ⌊q⌋ ↔
    q - ⌊q⌋ < 1 / 2 ∨ q - ⌊q⌋ = 1 / 2 ∧ ⌊q⌋ % 2 = 0 := by
  unfold roundHalfEven
  split
  · rename_i hlt
    exact iff_of_true rfl (Or.inl hlt)
  · rename_i hge
    split
    · rename_i hgt
      refine iff_of_false (by omega) ?_
      rintro (hlt | ⟨heq, -⟩)
      · exact hge hlt
      · exact absurd heq hgt.ne'
    · rename_i hle
      have heq : q - ⌊q⌋ = 1 / 2 := le_antisymm (le_of_not_gt hle) (le_of_not_gt hge)
      split
      · rename_i heven
        exact iff_of_true rfl (Or.inr ⟨heq, heven⟩)
      · rename_i hodd
        refine iff_of_false (by omega) ?_
        rintro (hlt | ⟨-, heven⟩)
        · exact hge hlt
        · exact hodd heven

theorem roundHalfEven_mono {q q' : K} (h : q ≤ q') : roundHalfEven q ≤ roundHalfEven q' := by
  have hfloor : ⌊q⌋ ≤ ⌊q'⌋ := Int.floor_le_floor h
  rcases roundHalfEven_mem q with hq | hq
  · rcases roundHalfEven_mem q' with hq' | hq' <;> omega
  · rcases roundHalfEven_mem q' with hq' | hq'
    · -- rounded down where the smaller was rounded up: not within one integer
      rcases eq_or_lt_of_le hfloor with heq | hlt
      · have hdown : roundHalfEven q = ⌊q⌋ := by
          have hrest : q - ⌊q⌋ ≤ q' - ⌊q'⌋ := by
            rw [heq]
            exact sub_le_sub_right h _
          refine roundHalfEven_eq_floor.mpr ?_
          rcases roundHalfEven_eq_floor.mp hq' with hlt | ⟨hhalf, heven⟩
          · exact Or.inl (lt_of_le_of_lt hrest hlt)
          · rcases lt_or_eq_of_le (hrest.trans hhalf.le) with hlt | hhalf
            · exact Or.inl hlt
            · exact Or.inr ⟨hhalf, heq ▸ heven⟩
        omega
      · omega
    · omega

end Round

end Lib
