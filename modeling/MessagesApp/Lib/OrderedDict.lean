import Mathlib.Data.List.Nodup
import Mathlib.Data.List.Induction
import Mathlib.Algebra.BigOperators.Group.List.Basic
import Mathlib.Algebra.Ring.Nat

/-!
# Dictionaries in the order of insertion

A dictionary that keeps its keys in the order they were first inserted in: setting a key that is
there changes its value and not its place, which is what iterating over it shows. `κ` are the
keys, `α` the values. That no key is there twice is a field of the structure, so that an invalid
dictionary cannot be built and no lemma asks for it.

`get?` is the only reading the lemmas speak of: what an operation does to it is what it does, so
that a proof about a dictionary rewrites with `get?_insert`, `get?_ofList_snoc` and `get?_filter`
and never unfolds the list of entries. `mem_keys` and `get?_eq_some` lead from one to the other.

The last part is for dictionaries of numbers that count: `total_count` says that counting a key
adds one to the sum of all values, whether the key was there or not. Deleting a key is left out.
-/

set_option autoImplicit false

namespace Lib

/-- The entries in the order in which their keys were first set. That no key is there twice is part
of the value. -/
structure OrderedDict (κ α : Type*) where
  entries : List (κ × α)
  nodup : (entries.map Prod.fst).Nodup

namespace OrderedDict

variable {κ α : Type*}

theorem ext {d d' : OrderedDict κ α} (h : d.entries = d'.entries) : d = d' := by
  cases d
  cases d'
  cases h
  rfl

instance [DecidableEq κ] [DecidableEq α] : DecidableEq (OrderedDict κ α) := fun d d' =>
  decidable_of_iff (d.entries = d'.entries) ⟨ext, fun h => by rw [h]⟩

def empty : OrderedDict κ α := ⟨[], List.nodup_nil⟩

def keys (d : OrderedDict κ α) : List κ := d.entries.map Prod.fst

variable [DecidableEq κ]

/-- `d.get(k)`: the value of the key, if it is there. There is at most one entry to find. -/
def get? (d : OrderedDict κ α) (k : κ) : Option α :=
  (d.entries.find? fun e => e.1 = k).map Prod.snd

/-- The entries with `v` in the place of what `k` had. -/
def setEntries (entries : List (κ × α)) (k : κ) (v : α) : List (κ × α) :=
  entries.map fun e => if e.1 = k then (k, v) else e

theorem setEntries_keys (entries : List (κ × α)) (k : κ) (v : α) :
    (setEntries entries k v).map Prod.fst = entries.map Prod.fst := by
  unfold setEntries
  rw [List.map_map]
  refine List.map_congr_left fun e _ => ?_
  simp only [Function.comp]
  split
  · rename_i h
    exact h.symm
  · rfl

/-- `d[k] = v`. A key that is there keeps its place and gets another value; a new one goes to the
end. -/
def insert (d : OrderedDict κ α) (k : κ) (v : α) : OrderedDict κ α :=
  if h : k ∈ d.keys then ⟨setEntries d.entries k v, by rw [setEntries_keys]; exact d.nodup⟩
  else ⟨d.entries ++ [(k, v)], by
    rw [List.map_append, List.map_singleton]
    refine List.nodup_append.mpr ⟨d.nodup, List.nodup_singleton _, fun a ha b hb hab => ?_⟩
    have hak : a = k := hab.trans (List.mem_singleton.mp hb)
    exact h (hak ▸ ha)⟩

/-- `{k: v for k, v in l}`: the pairs are set one after the other, so the last of a key stays, at
the place of the first. -/
def ofList (l : List (κ × α)) : OrderedDict κ α :=
  l.foldl (fun d e => d.insert e.1 e.2) empty

/-- `{k: v for k, v in d.items() if p(k)}`. -/
def filter (p : κ → Bool) (d : OrderedDict κ α) : OrderedDict κ α :=
  ⟨d.entries.filter fun e => p e.1, by
    have h : (d.entries.filter fun e => p e.1).map Prod.fst = d.keys.filter p := by
      unfold keys
      rw [List.filter_map]
      rfl
    rw [h]
    exact d.nodup.filter _⟩

/-! ## Reading -/

variable {d : OrderedDict κ α} {k k' : κ} {v v' : α} {l : List (κ × α)}

theorem get?_eq_some : d.get? k = some v ↔ (k, v) ∈ d.entries := by
  unfold get?
  rw [Option.map_eq_some_iff]
  constructor
  · rintro ⟨e, he, rfl⟩
    have hk : e.1 = k := by simpa using List.find?_some he
    rw [← hk]
    exact List.mem_of_find?_eq_some he
  · intro h
    obtain ⟨e, he⟩ := Option.isSome_iff_exists.mp
      (List.find?_isSome.mpr ⟨(k, v), h, by simp⟩ : (d.entries.find? fun e => e.1 = k).isSome)
    have hk : e.1 = k := by simpa using List.find?_some he
    have hsame := List.inj_on_of_nodup_map d.nodup (List.mem_of_find?_eq_some he) h hk
    exact ⟨e, he, by rw [hsame]⟩

theorem mem_keys : k ∈ d.keys ↔ ∃ v, d.get? k = some v := by
  unfold keys
  rw [List.mem_map]
  constructor
  · rintro ⟨⟨k, v⟩, h, rfl⟩
    exact ⟨v, get?_eq_some.mpr h⟩
  · rintro ⟨v, h⟩
    exact ⟨(k, v), get?_eq_some.mp h, rfl⟩

theorem mem_setEntries {entries : List (κ × α)} (h : k ∈ entries.map Prod.fst) {w : α} :
    (k', w) ∈ setEntries entries k v ↔ k' = k ∧ w = v ∨ k' ≠ k ∧ (k', w) ∈ entries := by
  unfold setEntries
  rw [List.mem_map]
  constructor
  · rintro ⟨e, he, heq⟩
    split at heq
    · cases heq
      exact Or.inl ⟨rfl, rfl⟩
    · rename_i hne
      subst heq
      exact Or.inr ⟨hne, he⟩
  · rintro (⟨rfl, rfl⟩ | ⟨hne, he⟩)
    · obtain ⟨e, he, hek⟩ := List.mem_map.mp h
      exact ⟨e, he, if_pos hek⟩
    · exact ⟨(k', w), he, if_neg hne⟩

theorem get?_insert (d : OrderedDict κ α) (k : κ) (v : α) (k' : κ) :
    (d.insert k v).get? k' = if k' = k then some v else d.get? k' := by
  refine Option.ext fun w => ?_
  have hmem : (k', w) ∈ (d.insert k v).entries ↔
      k' = k ∧ w = v ∨ k' ≠ k ∧ (k', w) ∈ d.entries := by
    unfold insert
    split
    · rename_i hk
      exact mem_setEntries hk
    · rename_i hk
      have hne : (k', w) ∈ d.entries → k' ≠ k := by
        rintro he rfl
        exact hk (List.mem_map.mpr ⟨_, he, rfl⟩)
      simp only [List.mem_append, List.mem_singleton, Prod.mk.injEq]
      constructor
      · rintro (he | he)
        · exact Or.inr ⟨hne he, he⟩
        · exact Or.inl he
      · rintro (he | ⟨-, he⟩)
        · exact Or.inr he
        · exact Or.inl he
  rw [get?_eq_some, hmem]
  split
  · rename_i hk
    simp [hk, eq_comm]
  · rename_i hk
    simp [hk, get?_eq_some]

/-- The last of a key stays. -/
theorem get?_ofList_snoc (l : List (κ × α)) (e : κ × α) (k : κ) :
    (ofList (l ++ [e])).get? k = if k = e.1 then some e.2 else (ofList l).get? k := by
  unfold ofList
  rw [List.foldl_append, List.foldl_cons, List.foldl_nil, get?_insert]

theorem mem_of_get?_ofList (h : (ofList l).get? k = some v) : (k, v) ∈ l := by
  induction l using List.reverseRecOn with
  | nil => cases h
  | append_singleton l e ih =>
    rw [get?_ofList_snoc] at h
    split at h
    · rename_i hk
      cases h
      rw [hk]
      exact List.mem_append_right _ (List.mem_singleton_self _)
    · exact List.mem_append_left _ (ih h)

theorem mem_keys_ofList : k ∈ (ofList l).keys ↔ k ∈ l.map Prod.fst := by
  rw [mem_keys]
  constructor
  · rintro ⟨v, hv⟩
    exact List.mem_map.mpr ⟨(k, v), mem_of_get?_ofList hv, rfl⟩
  · intro h
    induction l using List.reverseRecOn with
    | nil => cases h
    | append_singleton l e ih =>
      rw [get?_ofList_snoc]
      split
      · exact ⟨e.2, rfl⟩
      · rename_i hk
        rw [List.map_append, List.map_singleton, List.mem_append, List.mem_singleton] at h
        exact ih (h.resolve_right hk)

omit [DecidableEq κ] in
theorem keys_filter (p : κ → Bool) (d : OrderedDict κ α) : (d.filter p).keys = d.keys.filter p := by
  unfold keys
  rw [List.filter_map]
  rfl

theorem get?_filter (p : κ → Bool) (d : OrderedDict κ α) (k : κ) :
    (d.filter p).get? k = if p k then d.get? k else none := by
  refine Option.ext fun w => ?_
  rw [get?_eq_some]
  show (k, w) ∈ d.entries.filter (fun e => p e.1) ↔ _
  rw [List.mem_filter, ← get?_eq_some]
  split
  · rename_i hp
    simp [hp]
  · rename_i hp
    simp [hp]

/-! ## Counters -/

/-- `d[k] = d.get(k, 0) + 1`, which sets a key that was not there to one. -/
def count (d : OrderedDict κ Nat) (k : κ) : OrderedDict κ Nat := d.insert k ((d.get? k).getD 0 + 1)

def total (d : OrderedDict κ Nat) : Nat := (d.entries.map Prod.snd).sum

theorem get?_count (d : OrderedDict κ Nat) (k k' : κ) :
    ((d.count k).get? k').getD 0 = (d.get? k').getD 0 + if k' = k then 1 else 0 := by
  unfold count
  rw [get?_insert]
  split
  · rename_i h
    rw [h, Option.getD_some]
  · rw [Nat.add_zero]

theorem setEntries_of_notMem {entries : List (κ × α)} (h : k ∉ entries.map Prod.fst) (v : α) :
    setEntries entries k v = entries := by
  unfold setEntries
  rw [List.map_congr_left (g := id), List.map_id]
  intro e he
  refine if_neg fun hk => h ?_
  exact List.mem_map.mpr ⟨e, he, hk⟩

/-- The value of a key that is there is exchanged in the sum of the values. -/
theorem sum_setEntries {v w : Nat} : ∀ {entries : List (κ × Nat)}, (entries.map Prod.fst).Nodup →
    (k, w) ∈ entries →
      ((setEntries entries k v).map Prod.snd).sum + w = (entries.map Prod.snd).sum + v
  | [], _, h => by cases h
  | e :: l, hnodup, h => by
    obtain ⟨hfresh, hnodup⟩ := List.nodup_cons.mp hnodup
    show (((if e.1 = k then (k, v) else e) :: setEntries l k v).map Prod.snd).sum + w = _
    rcases List.mem_cons.mp h with rfl | h
    · rw [if_pos rfl, setEntries_of_notMem hfresh]
      simp only [List.map_cons, List.sum_cons]
      omega
    · have hne : e.1 ≠ k := by
        rintro rfl
        exact hfresh (List.mem_map.mpr ⟨_, h, rfl⟩)
      have ih := sum_setEntries (v := v) hnodup h
      rw [if_neg hne]
      simp only [List.map_cons, List.sum_cons]
      omega

/-- **Counting adds one to the total.** A key that was there is exchanged in the sum
(`sum_setEntries`), a new one is appended to it. -/
theorem total_count (d : OrderedDict κ Nat) (k : κ) : (d.count k).total = d.total + 1 := by
  unfold count total insert
  split
  · rename_i hk
    obtain ⟨w, hw⟩ := mem_keys.mp hk
    have hsum := sum_setEntries (v := w + 1) d.nodup (get?_eq_some.mp hw)
    rw [hw, Option.getD_some]
    simp only
    omega
  · rename_i hk
    have hnone : d.get? k = none := by
      cases h : d.get? k with
      | none => rfl
      | some w => exact absurd (mem_keys.mpr ⟨w, h⟩) hk
    rw [hnone]
    simp

end OrderedDict

end Lib
