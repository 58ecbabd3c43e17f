import Mathlib.Data.List.Sort
import Mathlib.Logic.Equiv.Basic

/-!
# Keyset pagination

A page of a keyset query is "the `n` elements with the greatest keys below `c`"; the next page is
asked for below the last key of this one. `α` is the type of the elements, `key` maps them into a
linear order. Two elements may share a key only above the cursor: below it the keys have to be
distinct (`Distinct`), which is what makes "strictly below the last one" lose nothing.

There are three questions, and a part for each of them.

* A first page may be ordered by less than the key (`Ordered`). Then the order of some elements is
  open, and asking below the last one is right in every such order exactly where that element is
  alone with its coarse value: `Ordered.filter_lt_last` is the one direction,
  `Ordered.last_alone` the other, by exchanging the last element with one it is tied with.
* `Walk` reads a collection that stands still. It ends (`Walk.total`), and its pages one after the
  other are everything below the start, in order (`Walk.flatten`).
* `Visit` reads a collection that changes between the pages, each of which comes from a snapshot
  of its own. No page repeats an earlier key (`Visit.strictDesc`), and what every snapshot holds
  is not skipped (`Visit.covers`).

How a page is computed is left out: `page` sorts and cuts, as the query says.
-/

set_option autoImplicit false

namespace Lib.Keyset

variable {α κ : Type*} [LinearOrder κ] (key : α → κ)

/-! ## Strictly descending lists -/

/-- Every element's key is below the keys before it: sorted downwards, and no key twice. What a page
has once the keys below its cursor are distinct. -/
def StrictDesc (l : List α) : Prop := l.Pairwise fun a b => key b < key a

variable {key}

theorem StrictDesc.sublist {l l' : List α} (h : StrictDesc key l) (hs : l'.Sublist l) :
    StrictDesc key l' := List.Pairwise.sublist hs h

theorem filter_eq_drop {p : α → Bool} {l : List α} {n : Nat} (hbefore : ∀ x ∈ l.take n, p x = false)
    (hafter : ∀ x ∈ l.drop n, p x = true) : l.filter p = l.drop n := by
  calc l.filter p = (l.take n).filter p ++ (l.drop n).filter p := by
        rw [← List.filter_append, List.take_append_drop]
    _ = [] ++ l.drop n := by
        congr 1
        · exact List.filter_eq_nil_iff.mpr fun x hx => by simp [hbefore x hx]
        · exact List.filter_eq_self.mpr hafter
    _ = l.drop n := List.nil_append _

/-- In a strictly descending list the last element of a prefix cuts it exactly: what stands behind
the prefix is what lies below that element. -/
theorem StrictDesc.filter_lt_last {l : List α} (h : StrictDesc key l) {n : Nat} {a : α}
    (ha : (l.take n).getLast? = some a) :
    l.filter (fun x => decide (key x < key a)) = l.drop n := by
  have hsplit : l.take n ++ l.drop n = l := List.take_append_drop n l
  have hcut := List.pairwise_append.mp (hsplit ▸ h)
  have hmem : a ∈ l.take n := List.mem_of_getLast? ha
  refine filter_eq_drop (fun x hx => ?_) fun x hx => ?_
  · rw [decide_eq_false_iff_not]
    obtain ⟨ys, hys⟩ := List.getLast?_eq_some_iff.mp ha
    rw [hys, List.mem_append, List.mem_singleton] at hx
    rcases hx with hx | rfl
    · have := (List.pairwise_append.mp (hys ▸ hcut.1)).2.2 x hx a (by simp)
      exact not_lt_of_gt this
    · exact lt_irrefl _
  · rw [decide_eq_true_eq]
    exact hcut.2.2 a hmem x hx

theorem StrictDesc.eq_of_perm {l l' : List α} (h : StrictDesc key l) (h' : StrictDesc key l')
    (hp : l.Perm l') : l = l' :=
  hp.eq_of_pairwise (fun _ _ _ _ hab hba => absurd hab (not_lt_of_gt hba)) h h'

variable (key)

/-! ## Pages -/

/-- `ORDER BY key DESC`. -/
def sortDesc (xs : List α) : List α := xs.insertionSort fun a b => key b ≤ key a

/-- `WHERE key < c ORDER BY key DESC`. -/
def under (c : κ) (xs : List α) : List α := sortDesc key (xs.filter fun a => key a < c)

/-- `WHERE key < c ORDER BY key DESC LIMIT n`: the elements below the cursor, sorted downwards, of
which the first `n` are taken. -/
def page (c : κ) (n : Nat) (xs : List α) : List α := (under key c xs).take n

variable {key} {c : κ} {n : Nat} {xs : List α}

theorem sortDesc_perm (xs : List α) : (sortDesc key xs).Perm xs := List.perm_insertionSort _ _

theorem sortDesc_sorted (xs : List α) :
    (sortDesc key xs).Pairwise fun a b => key b ≤ key a := by
  have ht : Std.Total fun a b : α => key b ≤ key a := ⟨fun a b => le_total _ _⟩
  have hr : IsTrans α fun a b => key b ≤ key a := ⟨fun a b c h₁ h₂ => h₂.trans h₁⟩
  exact List.pairwise_insertionSort _ xs

theorem under_perm (c : κ) (xs : List α) :
    (under key c xs).Perm (xs.filter fun a => key a < c) := sortDesc_perm _

@[simp] theorem mem_under {a : α} : a ∈ under key c xs ↔ a ∈ xs ∧ key a < c := by
  rw [(under_perm c xs).mem_iff, List.mem_filter, decide_eq_true_eq]

theorem page_sublist : (page key c n xs).Sublist (under key c xs) := List.take_sublist _ _

theorem mem_of_mem_page {a : α} (h : a ∈ page key c n xs) : a ∈ xs ∧ key a < c :=
  mem_under.mp (page_sublist.subset h)

/-- The keys below the cursor are distinct. Above it two elements may share a key, since no page
below `c` reads them. -/
def Distinct (key : α → κ) (c : κ) (xs : List α) : Prop :=
  (xs.filter fun a => key a < c).Pairwise fun a b => key a ≠ key b

theorem Distinct.strictDesc (h : Distinct key c xs) : StrictDesc key (under key c xs) := by
  have hne : (under key c xs).Pairwise fun a b => key a ≠ key b :=
    ((under_perm c xs).pairwise_iff fun hab => Ne.symm hab).mpr h
  exact (hne.and (sortDesc_sorted _)).imp fun ⟨h₁, h₂⟩ => lt_of_le_of_ne h₂ (Ne.symm h₁)

theorem Distinct.page_strictDesc (h : Distinct key c xs) : StrictDesc key (page key c n xs) :=
  h.strictDesc.sublist page_sublist

theorem Distinct.mono {c' : κ} (h : Distinct key c xs) (hc : c' ≤ c) : Distinct key c' xs := by
  refine List.Pairwise.sublist (List.monotone_filter_right xs fun a ha => ?_) h
  simp only [decide_eq_true_eq] at ha ⊢
  exact ha.trans_le hc

/-- **Asking below the last key of a page gives exactly what the page left out.** The list below the
cursor falls strictly, so its elements below the last of the page are those behind it. -/
theorem under_last (h : Distinct key c xs) {a : α}
    (ha : (page key c n xs).getLast? = some a) :
    under key (key a) xs = (under key c xs).drop n := by
  have hac : key a < c := (mem_of_mem_page (List.mem_of_getLast? ha)).2
  rw [← h.strictDesc.filter_lt_last ha]
  refine StrictDesc.eq_of_perm (h.mono hac.le).strictDesc
    (h.strictDesc.sublist List.filter_sublist) ?_
  have hff : (xs.filter fun x => key x < key a) =
      (xs.filter fun x => key x < c).filter fun x => key x < key a := by
    rw [List.filter_filter]
    refine List.filter_congr fun x _ => ?_
    simp only [Bool.and_eq_decide, decide_eq_true_eq, decide_eq_decide]
    exact ⟨fun hx => ⟨hx, hx.trans hac⟩, fun hx => hx.1⟩
  exact ((under_perm (key a) xs).trans (hff ▸ List.Perm.refl _)).trans
    ((under_perm c xs).symm.filter _)

/-- A page that is not full is the last one: it was cut by the end of the list and not by the
limit. -/
theorem page_eq_under (h : (page key c n xs).length < n) : page key c n xs = under key c xs := by
  unfold page at h ⊢
  rw [List.length_take] at h
  exact List.take_of_length_le (by omega)

/-- What a page leaves out lies below everything on it. -/
theorem lt_of_mem_under_of_not_mem_page (h : Distinct key c xs) {a x : α}
    (ha : a ∈ page key c n xs) (hx : x ∈ under key c xs) (hxp : x ∉ page key c n xs) :
    key x < key a := by
  have hsplit := List.take_append_drop n (under key c xs)
  have hcut := List.pairwise_append.mp (hsplit ▸ h.strictDesc)
  have hxd : x ∈ (under key c xs).drop n := by
    rw [← hsplit, List.mem_append] at hx
    exact hx.resolve_left hxp
  exact hcut.2.2 a ha x hxd

variable {ω : Type*} [LinearOrder ω] {coarse : α → ω} {l : List α}

/-! ## A first page in a coarser order

A list may be ordered by less than the key (`coarse`), which leaves the order of some elements
open. Its first `n` elements and the elements below the last of them are the whole list, in every
such order, just where that last element is alone with its `coarse` value. -/

/-- `l` is `xs` in an order that `ORDER BY coarse DESC` allows. Elements of one `coarse` value may
stand in any order, and in another one the next time. -/
def Ordered (coarse : α → ω) (xs l : List α) : Prop :=
  l.Perm xs ∧ l.Pairwise fun a b => coarse b ≤ coarse a

/-- Elements that `coarse` does not tell apart may change places. -/
theorem Ordered.swap [DecidableEq α] (h : Ordered coarse xs l) (hxs : xs.Nodup) {a y : α}
    (ha : a ∈ xs) (hy : y ∈ xs) (hay : coarse a = coarse y) :
    Ordered coarse xs (l.map (Equiv.swap a y)) := by
  have hsame : ∀ x, coarse (Equiv.swap a y x) = coarse x := by
    intro x
    by_cases hxa : x = a
    · rw [hxa, Equiv.swap_apply_left, hay]
    · by_cases hxy : x = y
      · rw [hxy, Equiv.swap_apply_right, hay]
      · rw [Equiv.swap_apply_of_ne_of_ne hxa hxy]
  have hmem : ∀ x, Equiv.swap a y x ∈ xs ↔ x ∈ xs := by
    intro x
    by_cases hxa : x = a
    · rw [hxa, Equiv.swap_apply_left]
      exact ⟨fun _ => ha, fun _ => hy⟩
    · by_cases hxy : x = y
      · rw [hxy, Equiv.swap_apply_right]
        exact ⟨fun _ => hy, fun _ => ha⟩
      · rw [Equiv.swap_apply_of_ne_of_ne hxa hxy]
  refine ⟨?_, ?_⟩
  · have hl : l.Nodup := h.1.nodup_iff.mpr hxs
    refine (List.perm_ext_iff_of_nodup (hl.map (Equiv.swap a y).injective) hxs).mpr fun x => ?_
    rw [List.mem_map]
    constructor
    · intro hx
      obtain ⟨z, hz, rfl⟩ := hx
      exact (hmem z).mpr (h.1.mem_iff.mp hz)
    · intro hx
      refine ⟨Equiv.swap a y x, h.1.mem_iff.mpr ((hmem x).mpr hx), ?_⟩
      exact Equiv.swap_apply_self a y x
  · rw [List.pairwise_map]
    exact h.2.imp fun hab => by rw [hsame, hsame]; exact hab

/-- So any element of its `coarse` value may be the last of the first page instead. -/
theorem Ordered.exchange_last [DecidableEq α] (h : Ordered coarse xs l) (hxs : xs.Nodup) {a y : α}
    (ha : (l.take n).getLast? = some a) (hy : y ∈ xs) (hya : coarse y = coarse a) :
    ∃ l', Ordered coarse xs l' ∧ (l'.take n).getLast? = some y := by
  have ham : a ∈ xs := h.1.mem_iff.mp (List.mem_of_mem_take (List.mem_of_getLast? ha))
  refine ⟨_, h.swap hxs ham hy hya.symm, ?_⟩
  rw [← List.map_take, List.getLast?_map, ha, Option.map_some, Equiv.swap_apply_left]

/-- Where the last element of the first page is alone with its `coarse` value, the elements below
it are those that the page left out. -/
theorem Ordered.filter_lt_last (h : Ordered coarse xs l) (hxs : xs.Nodup)
    (hrefines : ∀ x y, coarse x < coarse y → key x < key y) {a : α}
    (ha : (l.take n).getLast? = some a) (halone : ∀ x ∈ xs, coarse x = coarse a → x = a) :
    (l.filter fun x => decide (key x < key a)) = l.drop n := by
  have hmem : a ∈ l.take n := List.mem_of_getLast? ha
  have hsplit := List.take_append_drop n l
  have hdisj := List.nodup_append.mp (hsplit ▸ h.1.nodup_iff.mpr hxs)
  have hcut := List.pairwise_append.mp (hsplit ▸ h.2)
  refine filter_eq_drop (fun x hx => ?_) fun x hx => ?_
  · rw [decide_eq_false_iff_not]
    obtain ⟨ys, hys⟩ := List.getLast?_eq_some_iff.mp ha
    by_cases hxa : x = a
    · rw [hxa]
      exact lt_irrefl _
    · have hxys : x ∈ ys := by
        rw [hys, List.mem_append, List.mem_singleton] at hx
        exact hx.resolve_right hxa
      have hle := (List.pairwise_append.mp (hys ▸ hcut.1)).2.2 x hxys a (by simp)
      have hne : coarse a ≠ coarse x := fun he =>
        hxa (halone x (h.1.mem_iff.mp (List.mem_of_mem_take hx)) he.symm)
      exact not_lt_of_gt (hrefines a x (lt_of_le_of_ne hle hne))
  · rw [decide_eq_true_eq]
    have hxa : x ≠ a := fun he => hdisj.2.2 a hmem x hx he.symm
    have hxm : x ∈ xs := h.1.mem_iff.mp (List.mem_of_mem_drop hx)
    exact hrefines x a (lt_of_le_of_ne (hcut.2.2 a hmem x hx) fun he => hxa (halone x hxm he))

theorem length_below_lt {x y : α} (hx : x ∈ xs) (h : key x < key y) :
    (xs.filter fun z => decide (key z < key x)).length <
      (xs.filter fun z => decide (key z < key y)).length := by
  have hff : (xs.filter fun z => decide (key z < key x)) =
      (xs.filter fun z => decide (key z < key y)).filter fun z => decide (key z < key x) := by
    rw [List.filter_filter]
    refine List.filter_congr fun z _ => ?_
    simp only [Bool.and_eq_decide, decide_eq_true_eq, decide_eq_decide]
    exact ⟨fun hz => ⟨hz, hz.trans h⟩, fun hz => hz.1⟩
  rw [hff, List.length_filter_lt_length_iff_exists]
  refine ⟨x, List.mem_filter.mpr ⟨hx, by simpa using h⟩, ?_⟩
  simp

/-- And it has to be alone: where as many elements lie below the last one in every order, exchanging
it with another of its `coarse` value would change how many. -/
theorem Ordered.last_alone [DecidableEq α] (h : Ordered coarse xs l) (hxs : xs.Nodup)
    (hinj : ∀ x ∈ xs, ∀ y ∈ xs, key x = key y → x = y) {m : Nat}
    (hcount : ∀ l' a', Ordered coarse xs l' → (l'.take n).getLast? = some a' →
      (xs.filter fun x => decide (key x < key a')).length = m)
    {a : α} (ha : (l.take n).getLast? = some a) :
    ∀ x ∈ xs, coarse x = coarse a → x = a := by
  intro x hx hxa
  have ham : a ∈ xs := h.1.mem_iff.mp (List.mem_of_mem_take (List.mem_of_getLast? ha))
  obtain ⟨l', hl', hlast⟩ := h.exchange_last hxs ha hx hxa
  have hcx := hcount _ _ hl' hlast
  have hca := hcount _ _ h ha
  rcases lt_trichotomy (key x) (key a) with hlt | heq | hgt
  · have := length_below_lt hx hlt
    omega
  · exact hinj x hx a ham heq
  · have := length_below_lt ham hgt
    omega

/-! ## Walking a collection that changes

`Visit key n c snaps pages c'` says that `pages` were read below `c` and then below the last key
of each page in turn, page `i` from the snapshot `snaps[i]`, and that the next one would be asked
for below `c'`. -/

inductive Visit (key : α → κ) (n : Nat) (c : κ) : List (List α) → List (List α) → κ → Prop
  | start : Visit key n c [] [] c
  | page {snaps pages : List (List α)} {d : κ} (xs : List α) (a : α) :
      Visit key n c snaps pages d → Distinct key d xs →
      (page key d n xs).getLast? = some a →
      Visit key n c (snaps ++ [xs]) (pages ++ [Keyset.page key d n xs]) (key a)

variable {snaps pages : List (List α)} {d : κ}

/-- The pages so far, one after the other, fall strictly, and end at the cursor. -/
theorem Visit.strictDesc (h : Visit key n c snaps pages d) :
    d ≤ c ∧ StrictDesc key pages.flatten ∧ ∀ x ∈ pages.flatten, d ≤ key x ∧ key x < c := by
  induction h with
  | start => exact ⟨le_refl _, List.Pairwise.nil, by simp⟩
  | @page snaps pages d xs a _ hd ha ih =>
    obtain ⟨hdc, hs, hb⟩ := ih
    have hlast : a ∈ Keyset.page key d n xs := List.mem_of_getLast? ha
    have had : key a < d := (mem_of_mem_page hlast).2
    have hge : ∀ x ∈ Keyset.page key d n xs, key a ≤ key x := by
      intro x hx
      obtain ⟨ys, hys⟩ := List.getLast?_eq_some_iff.mp ha
      rw [hys, List.mem_append, List.mem_singleton] at hx
      rcases hx with hx | rfl
      · exact ((List.pairwise_append.mp (hys ▸ hd.page_strictDesc)).2.2 x hx a (by simp)).le
      · exact le_refl _
    refine ⟨had.le.trans hdc, ?_, ?_⟩
    · rw [List.flatten_append, List.flatten_singleton]
      refine List.pairwise_append.mpr ⟨hs, hd.page_strictDesc, fun x hx y hy => ?_⟩
      exact (mem_of_mem_page hy).2.trans_le (hb x hx).1
    · intro x hx
      rw [List.flatten_append, List.flatten_singleton, List.mem_append] at hx
      rcases hx with hx | hx
      · exact ⟨had.le.trans (hb x hx).1, (hb x hx).2⟩
      · exact ⟨hge x hx, (mem_of_mem_page hx).2.trans_le hdc⟩

/-- **Nothing that stays is skipped**: a key below the start that every snapshot holds has been
read, or is still below the cursor. By induction on the visit; at one more page, a key that lies
below the old cursor and is not on the page lies below the last key of it. -/
theorem Visit.covers (h : Visit key n c snaps pages d) {k : κ} (hk : k < c)
    (hstay : ∀ xs ∈ snaps, ∃ x ∈ xs, key x = k) :
    k < d ∨ ∃ x ∈ pages.flatten, key x = k := by
  induction h with
  | start => exact Or.inl hk
  | @page snaps pages d xs a _ hd ha ih =>
    rcases ih (fun ys hys => hstay ys (List.mem_append_left _ hys)) with hkd | ⟨x, hx, hxk⟩
    · obtain ⟨x, hx, hxk⟩ := hstay xs (by simp)
      have hxb : x ∈ under key d xs := mem_under.mpr ⟨hx, hxk ▸ hkd⟩
      by_cases hxp : x ∈ Keyset.page key d n xs
      · exact Or.inr ⟨x, by simp [hxp], hxk⟩
      · have := lt_of_mem_under_of_not_mem_page hd (List.mem_of_getLast? ha) hxb hxp
        exact Or.inl (hxk ▸ this)
    · exact Or.inr ⟨x, by simp [hx], hxk⟩

/-! ## Walking a collection that stands still -/

/-- The pages below `c`, each one below the last key of the one before, until one is empty. The
collection `xs` is the same for all of them. -/
inductive Walk (key : α → κ) (n : Nat) (xs : List α) : κ → List (List α) → Prop
  | stop {c : κ} : page key c n xs = [] → Walk key n xs c []
  | next {c : κ} {a : α} {pages : List (List α)} :
      (page key c n xs).getLast? = some a → Walk key n xs (key a) pages →
      Walk key n xs c (page key c n xs :: pages)

/-- **A walk ends**, whatever the size of its pages. Every page that is not empty leaves fewer
elements below the next cursor. -/
theorem Walk.total (hn : 0 < n) (h : Distinct key c xs) : ∃ pages, Walk key n xs c pages := by
  induction hl : (under key c xs).length using Nat.strongRecOn generalizing c with
  | ind m ih =>
    subst hl
    cases hlast : (page key c n xs).getLast? with
    | none => exact ⟨[], .stop (List.getLast?_eq_none_iff.mp hlast)⟩
    | some a =>
      have hmem := mem_of_mem_page (List.mem_of_getLast? hlast)
      have hpos : 0 < (under key c xs).length := List.length_pos_of_mem (mem_under.mpr hmem)
      have hlt : (under key (key a) xs).length < (under key c xs).length := by
        rw [under_last h hlast, List.length_drop]
        omega
      obtain ⟨pages, hw⟩ := ih _ hlt (h.mono hmem.2.le) rfl
      exact ⟨_, .next hlast hw⟩

/-- **A walk reads everything below its start, once and in order.** By induction on the walk, with
`under_last` for what is left behind a page. -/
theorem Walk.flatten (h : Distinct key c xs) (hn : 0 < n) {pages : List (List α)}
    (hw : Walk key n xs c pages) : pages.flatten = under key c xs := by
  induction hw with
  | @stop c he =>
    have hlen : (page key c n xs).length < n := by rw [he]; exact hn
    rw [← page_eq_under hlen, he, List.flatten_nil]
  | @next c a pages ha _ ih =>
    have hmem := mem_of_mem_page (List.mem_of_getLast? ha)
    rw [List.flatten_cons, ih (h.mono hmem.2.le), under_last h ha, page, List.take_append_drop]

end Lib.Keyset
