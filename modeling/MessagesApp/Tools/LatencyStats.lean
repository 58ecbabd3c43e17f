import MessagesApp.Lib.Stream
import Mathlib.Algebra.Order.Ring.Rat
import Mathlib.Data.Rat.Floor
import Mathlib.Data.List.Sort
import Mathlib.Order.WithBot
import Mathlib.Tactic.NormNum

/-!
# `_LatencyStats`

The latencies of a benchmark, as `seed_messages.py` (14–62) and `consume_messages.py` (13–61) keep
them; the class is the same in both. It keeps the mean and the sum of squared deviations in one
pass, the least and the greatest, and a reservoir of `k` of them, from which the percentiles are
read.

That the pass gives the numbers of the whole sequence is `Lib.Stream`, for the moments and for what
replacing elements of a reservoir leaves; here `add` is shown to be one step of both (`moments_add`,
`sample_add`), and the least and the greatest are kept beside them (`Kept`). The invariant allows
the empty sequence, for which the least is infinite and the greatest is 0; behind the first latency
they are elements, as no latency is negative.

A percentile is an element of the sorted reservoir at an index that `round` gives, which rounds
halves to the even neighbour. It is in range for every `p`, and monotone in it, so the three
percentiles are in order whatever was replaced.

The numbers are exact rationals here: what floating point makes of the sums is left out, and so is
the standard deviation of `summary_ms`, which is a square root. What `random.randrange` gives is an
argument of each step, and may be anything.
-/

set_option autoImplicit false

namespace MessagesApp.Tools

open Lib

/-- The fields of the class. `k` is the size of the reservoir. -/
structure LatencyStats where
  n : Nat
  /-- `float("inf")` at first -/
  minV : WithTop ℚ
  maxV : ℚ
  mean : ℚ
  m2 : ℚ
  k : Nat
  sample : List ℚ

def LatencyStats.init (reservoirSize : Nat) : LatencyStats :=
  ⟨0, ⊤, 0, 0, 0, reservoirSize, []⟩

/-- `add` (24–39); `j` is what `random.randrange(self.n)` gives, if it is asked. -/
def LatencyStats.add (s : LatencyStats) (v : ℚ) (j : Nat) : LatencyStats :=
  let n := s.n + 1
  let delta := v - s.mean
  let mean := s.mean + delta / (n : Nat)
  let delta2 := v - mean
  { s with
    n := n
    minV := if (v : WithTop ℚ) < s.minV then v else s.minV
    maxV := if s.maxV < v then v else s.maxV
    mean := mean
    m2 := s.m2 + delta * delta2
    sample :=
      if s.sample.length < s.k then s.sample ++ [v]
      else if j < s.k then s.sample.set j v
      else s.sample }

/-- All latencies of a list, each with its `randrange`. -/
def LatencyStats.addAll (s : LatencyStats) (l : List (ℚ × Nat)) : LatencyStats :=
  l.foldl (fun s x => s.add x.1 x.2) s

/-- `idx` in `_pct`: `min(len(data) - 1, max(0, int(round(p * (len(data) - 1)))))`. -/
def LatencyStats.pctIndex (s : LatencyStats) (p : ℚ) : Nat :=
  min (s.sample.length - 1) (max 0 (roundHalfEven (p * (s.sample.length - 1 : Nat)))).toNat

/-- `_pct` (41–46); `none` would be an `IndexError`, and an empty reservoir gives 0. -/
def LatencyStats.pct (s : LatencyStats) (p : ℚ) : Option ℚ :=
  if s.sample.isEmpty then some 0
  else (s.sample.mergeSort (· ≤ ·))[s.pctIndex p]?

variable {s : LatencyStats} {l : List ℚ}

/-! ## One latency more -/

def LatencyStats.moments (s : LatencyStats) : Moments ℚ := ⟨s.n, s.mean, s.m2⟩

theorem moments_add (s : LatencyStats) (v : ℚ) (j : Nat) :
    (s.add v j).moments = s.moments.add v := rfl

theorem sample_add (s : LatencyStats) (v : ℚ) (j : Nat) :
    (s.add v j).sample = keep s.k s.sample v j := rfl

/-- What is kept of the sequence `l`, which may still be empty. The least is infinite and the
greatest is 0 until a latency has come. -/
structure Kept (k : Nat) (s : LatencyStats) (l : List ℚ) : Prop where
  reservoir : s.k = k
  moments : s.moments.Of l
  lower : ∀ x ∈ l, s.minV ≤ x
  least : s.minV = ⊤ ∨ ∃ m ∈ l, s.minV = m
  upper : ∀ x ∈ l, x ≤ s.maxV
  greatest : s.maxV = 0 ∨ s.maxV ∈ l
  size : s.sample.length = min l.length k
  sub : s.sample.Subperm l

theorem kept_init (k : Nat) : Kept k (.init k) [] where
  reservoir := rfl
  moments := Moments.Of.init
  lower := by simp
  least := Or.inl rfl
  upper := by simp
  greatest := Or.inl rfl
  size := (Nat.zero_min k).symm
  sub := List.nil_subperm

theorem Kept.minV_add {k : Nat} (h : Kept k s l) (v : ℚ) (j : Nat) :
    (∀ x ∈ l ++ [v], (s.add v j).minV ≤ x) ∧ ∃ m ∈ l ++ [v], (s.add v j).minV = m := by
  show (∀ x ∈ l ++ [v], (if (v : WithTop ℚ) < s.minV then (v : WithTop ℚ) else s.minV) ≤ x) ∧
    ∃ m ∈ l ++ [v], (if (v : WithTop ℚ) < s.minV then (v : WithTop ℚ) else s.minV) = m
  have hv : v ∈ l ++ [v] := List.mem_append_right l (List.mem_singleton_self v)
  split
  · rename_i hlt
    refine ⟨fun x hx => ?_, v, hv, rfl⟩
    rcases List.mem_append.mp hx with hx | hx
    · exact hlt.le.trans (h.lower x hx)
    · rw [List.mem_singleton.mp hx]
  · rename_i hge
    have hle : s.minV ≤ v := le_of_not_gt hge
    refine ⟨fun x hx => ?_, ?_⟩
    · rcases List.mem_append.mp hx with hx | hx
      · exact h.lower x hx
      · rw [List.mem_singleton.mp hx]
        exact hle
    · rcases h.least with htop | ⟨m, hm, heq⟩
      · rw [htop, top_le_iff] at hle
        cases hle
      · exact ⟨m, List.mem_append_left _ hm, heq⟩

theorem Kept.maxV_add {k : Nat} (h : Kept k s l) (v : ℚ) (j : Nat) :
    (∀ x ∈ l ++ [v], x ≤ (s.add v j).maxV) ∧
      ((s.add v j).maxV = 0 ∨ (s.add v j).maxV ∈ l ++ [v]) := by
  show (∀ x ∈ l ++ [v], x ≤ if s.maxV < v then v else s.maxV) ∧
    ((if s.maxV < v then v else s.maxV) = 0 ∨ (if s.maxV < v then v else s.maxV) ∈ l ++ [v])
  have hv : v ∈ l ++ [v] := List.mem_append_right l (List.mem_singleton_self v)
  split
  · rename_i hlt
    refine ⟨fun x hx => ?_, Or.inr hv⟩
    rcases List.mem_append.mp hx with hx | hx
    · exact (h.upper x hx).trans hlt.le
    · exact (List.mem_singleton.mp hx).le
  · rename_i hge
    refine ⟨fun x hx => ?_, h.greatest.imp id fun hm => List.mem_append_left _ hm⟩
    rcases List.mem_append.mp hx with hx | hx
    · exact h.upper x hx
    · rw [List.mem_singleton.mp hx]
      exact le_of_not_gt hge

/-- **One call of `add` is one more latency in the sequence**, whatever `randrange` gives. -/
theorem Kept.add {k : Nat} (h : Kept k s l) (v : ℚ) (j : Nat) : Kept k (s.add v j) (l ++ [v]) where
  reservoir := h.reservoir
  moments := by
    rw [moments_add]
    exact h.moments.add v
  lower := (h.minV_add v j).1
  least := Or.inr (h.minV_add v j).2
  upper := (h.maxV_add v j).1
  greatest := (h.maxV_add v j).2
  size := by
    rw [sample_add, h.reservoir]
    exact length_keep h.size v j
  sub := by
    rw [sample_add]
    exact keep_subperm h.sub v j

theorem kept_addAll {k : Nat} (l : List (ℚ × Nat)) :
    Kept k ((LatencyStats.init k).addAll l) (l.map Prod.fst) := by
  induction l using List.reverseRecOn with
  | nil => exact kept_init k
  | append_singleton l x ih =>
    rw [LatencyStats.addAll, List.foldl_append, List.map_append]
    exact ih.add x.1 x.2

/-! ## Percentiles -/

theorem pctIndex_lt (hne : s.sample ≠ []) (p : ℚ) : s.pctIndex p < s.sample.length := by
  have hpos := List.length_pos_of_ne_nil hne
  unfold LatencyStats.pctIndex
  omega

/-- Rounding, and the bounds around it, keep the order of the percentiles. -/
theorem pctIndex_mono (s : LatencyStats) {p q : ℚ} (h : p ≤ q) : s.pctIndex p ≤ s.pctIndex q := by
  have hmul : p * (s.sample.length - 1 : Nat) ≤ q * (s.sample.length - 1 : Nat) :=
    mul_le_mul_of_nonneg_right h (Nat.cast_nonneg _)
  have hround := roundHalfEven_mono hmul
  unfold LatencyStats.pctIndex
  omega

/-- A percentile of a reservoir that is not empty is the element of it at its index. -/
theorem pct_eq (hne : s.sample ≠ []) (p : ℚ) :
    ∃ h : s.pctIndex p < (s.sample.mergeSort (· ≤ ·)).length,
      s.pct p = some (s.sample.mergeSort (· ≤ ·))[s.pctIndex p] := by
  have hlt : s.pctIndex p < (s.sample.mergeSort (· ≤ ·)).length := by
    rw [List.length_mergeSort]
    exact pctIndex_lt hne p
  refine ⟨hlt, ?_⟩
  unfold LatencyStats.pct
  rw [if_neg (by simpa using hne)]
  exact List.getElem?_eq_getElem hlt

theorem pct_mem (hne : s.sample ≠ []) (p : ℚ) : ∃ x ∈ s.sample, s.pct p = some x := by
  obtain ⟨h, hp⟩ := pct_eq hne p
  exact ⟨_, List.mem_mergeSort.mp (List.getElem_mem h), hp⟩

/-- **A greater percentile is no less.** -/
theorem pct_mono (hne : s.sample ≠ []) {p q : ℚ} (h : p ≤ q) {x y : ℚ} (hx : s.pct p = some x)
    (hy : s.pct q = some y) : x ≤ y := by
  obtain ⟨hp, hpx⟩ := pct_eq hne p
  obtain ⟨hq, hqy⟩ := pct_eq hne q
  rw [hx, Option.some.injEq] at hpx
  rw [hy, Option.some.injEq] at hqy
  rw [hpx, hqy]
  rcases eq_or_lt_of_le (pctIndex_mono s h) with heq | hlt
  · simp only [heq, le_refl]
  · have hsorted : (s.sample.mergeSort (· ≤ ·)).Pairwise (· ≤ ·) :=
      List.pairwise_mergeSort' (r := (· ≤ ·)) s.sample
    exact List.pairwise_iff_getElem.mp hsorted _ _ hp hq hlt

/-! ## The whole sequence -/

/-- The numbers that were kept are those of the whole sequence; the percentiles are between the
least and the greatest, in their order. -/
structure Batch (k : Nat) (s : LatencyStats) (l : List ℚ) : Prop where
  n : s.n = l.length
  mean : s.mean = l.sum / l.length
  m2 : s.m2 = (l.map fun x => (x - s.mean) ^ 2).sum
  minV : ∃ m : ℚ, s.minV = m ∧ IsLeast {x | x ∈ l} m
  maxV : IsGreatest {x | x ∈ l} s.maxV
  size : s.sample.length = min l.length k
  sub : s.sample.Subperm l
  inRange : ∀ p : ℚ, s.pctIndex p < s.sample.length
  percentiles : ∃ p50 p90 p99 : ℚ, s.pct (1 / 2) = some p50 ∧ s.pct (9 / 10) = some p90 ∧
    s.pct (99 / 100) = some p99 ∧ s.minV ≤ p50 ∧ p50 ≤ p90 ∧ p90 ≤ p99 ∧ p99 ≤ s.maxV

/-- **The one-pass statistics are the batch ones**, for any latencies and any choices of the
reservoir. `Kept` along the sequence, and what it says of one that is not empty. -/
theorem latency_batch {k : Nat} (hk : 1 ≤ k) (l : List (ℚ × Nat)) (hl : l ≠ [])
    (hpos : ∀ x ∈ l, 0 ≤ x.1) :
    Batch k ((LatencyStats.init k).addAll l) (l.map Prod.fst) := by
  have h := kept_addAll (k := k) l
  have hne : l.map Prod.fst ≠ [] := by simpa using hl
  have hpos' : ∀ x ∈ l.map Prod.fst, 0 ≤ x := by
    intro x hx
    obtain ⟨y, hy, rfl⟩ := List.mem_map.mp hx
    exact hpos y hy
  generalize (LatencyStats.init k).addAll l = s at h
  generalize l.map Prod.fst = l' at h hne hpos'
  have hsample : s.sample ≠ [] := by
    have hlen := h.size
    have hlpos := List.length_pos_of_ne_nil hne
    intro hnil
    rw [hnil, List.length_nil] at hlen
    omega
  obtain ⟨hmean, hm2⟩ := h.moments.batch hne
  obtain ⟨p50, hmem50, h50⟩ := pct_mem hsample (1 / 2)
  obtain ⟨p90, hmem90, h90⟩ := pct_mem hsample (9 / 10)
  obtain ⟨p99, hmem99, h99⟩ := pct_mem hsample (99 / 100)
  refine ⟨h.moments.n, hmean, hm2, ?_, ⟨?_, h.upper⟩, h.size, h.sub, pctIndex_lt hsample,
    p50, p90, p99, h50, h90, h99, ?_, ?_, ?_, ?_⟩
  · rcases h.least with htop | ⟨m, hm, heq⟩
    · obtain ⟨x, hx⟩ := List.exists_mem_of_ne_nil _ hne
      have hle := h.lower x hx
      rw [htop, top_le_iff] at hle
      cases hle
    · refine ⟨m, heq, hm, fun x hx => ?_⟩
      have hle := h.lower x hx
      rw [heq] at hle
      exact WithTop.coe_le_coe.mp hle
  · rcases h.greatest with hzero | hm
    · -- all are zero, and there is one
      obtain ⟨x, hx⟩ := List.exists_mem_of_ne_nil _ hne
      have hle := h.upper x hx
      rw [hzero] at hle ⊢
      have hx0 : x = 0 := le_antisymm hle (hpos' x hx)
      exact hx0 ▸ hx
    · exact hm
  · exact h.lower p50 (h.sub.subset hmem50)
  · exact pct_mono hsample (by norm_num) h50 h90
  · exact pct_mono hsample (by norm_num) h90 h99
  · exact h.upper p99 (h.sub.subset hmem99)

/-- Three latencies and a reservoir of two, the second of which the third replaces. -/
theorem latency_batch_three :
    ((LatencyStats.init 2).addAll [(1, 0), (2, 0), (6, 1)]).sample = [1, 6] ∧
      Batch 2 ((LatencyStats.init 2).addAll [(1, 0), (2, 0), (6, 1)]) [1, 2, 6] :=
  ⟨rfl, latency_batch (by norm_num) [(1, 0), (2, 0), (6, 1)] (by simp) (by simp)⟩

end MessagesApp.Tools
