import Mathlib.Data.List.Basic
import Mathlib.Data.List.TakeWhile

/-!
# Patterns, and what is put in the place of their matches

A `Pattern` looks for a match at the front of a text. `scan` goes through a text from its left and
cuts out every match, each behind the end of the last, and `replaceAll` writes something else for
each: `re.sub`, and `String.replace` with a global pattern. `α` are the letters, `β` what a match
says (its groups); what it matched can be read off that. That a match is a part of the text, and
not empty, are fields of the pattern, so that a scan makes progress and needs no fuel.

A fact about `replaceAll` is proved by `scan_induct`: the text has come to its end, it begins with
a letter that no match begins with, or it begins with a match. `filterMap_replaceAll` and
`count_replaceAll` are the two that a reader of an answer needs: what is read off a text stays if
it stays in every match.

The second half is about texts some of whose symbols stand for whole words. A pattern that never
begins inside a word, and that takes a word as a whole or not at all, finds the same in the text of
symbols as in the text with the words (`Expands`). The pieces patterns are made of have this
property (`skip`, `lazily`, `greedily1`), so that no pattern has to be looked at letter by letter:
`replaceAll_expand` says of the whole what these lemmas say of the parts. Alternatives, classes
with a count and look-behind are left out.
-/

set_option autoImplicit false

namespace Lib

variable {α β : Type*}

/-- A pattern: what it finds at the front of a text, and the text of what it found, which the text
begins with and which is not empty. -/
structure Pattern (α β : Type*) where
  find : List α → Option β
  /-- the text of a match -/
  text : β → List α
  text_starts : ∀ {s : List α} {b : β}, find s = some b → text b <+: s
  text_ne_nil : ∀ b, text b ≠ []

namespace Pattern

/-- The matches, and the letters outside them; the first `k` letters belong to the last match and
are passed over. Structural in the text, so that it evaluates. -/
def scanFrom (p : Pattern α β) : Nat → List α → List (α ⊕ β)
  | _, [] => []
  | k + 1, _ :: s => scanFrom p k s
  | 0, a :: s => match p.find (a :: s) with
      | some b => .inr b :: scanFrom p ((p.text b).length - 1) s
      | none => .inl a :: scanFrom p 0 s

def scan (p : Pattern α β) (s : List α) : List (α ⊕ β) := scanFrom p 0 s

/-- The text with `r b` for every match `b`, and every letter outside the matches as it is. -/
def replaceAll (p : Pattern α β) (r : β → List α) (s : List α) : List α :=
  (scan p s).flatMap (Sum.elim (fun a => [a]) r)

variable {p : Pattern α β} {r : β → List α} {a : α} {b : β} {s t : List α}

theorem scanFrom_eq (p : Pattern α β) : ∀ (k : Nat) (s : List α),
    scanFrom p k s = scan p (s.drop k)
  | 0, s => rfl
  | k + 1, [] => rfl
  | k + 1, _ :: s => by rw [scanFrom, scanFrom_eq p k s, List.drop_succ_cons]

@[simp] theorem scan_nil (p : Pattern α β) : scan p [] = [] := rfl

theorem scan_miss (h : p.find (a :: s) = none) : scan p (a :: s) = .inl a :: scan p s := by
  unfold scan
  rw [scanFrom, h]

theorem scan_hit (h : p.find (p.text b ++ t) = some b) :
    scan p (p.text b ++ t) = .inr b :: scan p t := by
  cases hb : p.text b with
  | nil => exact absurd hb (p.text_ne_nil b)
  | cons a l =>
    rw [hb] at h
    rw [List.cons_append, scan, scanFrom, ← List.cons_append, h]
    simp only [hb, List.length_cons, Nat.add_sub_cancel]
    rw [scanFrom_eq, List.drop_left]

/-- The induction by the scan: the end, a letter no match begins with, a match and what is behind
it. Most facts about `scan` and `replaceAll` are proved by it. -/
@[elab_as_elim]
theorem scan_induct (p : Pattern α β) {motive : List α → Prop} (nil : motive [])
    (miss : ∀ a s, p.find (a :: s) = none → motive s → motive (a :: s))
    (hit : ∀ b t, p.find (p.text b ++ t) = some b → motive t → motive (p.text b ++ t))
    (s : List α) : motive s := by
  induction hn : s.length using Nat.strongRecOn generalizing s with
  | ind n ih =>
    cases s with
    | nil => exact nil
    | cons a s =>
      cases hf : p.find (a :: s) with
      | none =>
        refine miss a s hf (ih s.length ?_ s rfl)
        rw [← hn, List.length_cons]
        exact Nat.lt_succ_self _
      | some b =>
        obtain ⟨t, ht⟩ := p.text_starts hf
        rw [← ht] at hf hn ⊢
        refine hit b t hf (ih t.length ?_ t rfl)
        have hpos := List.length_pos_of_ne_nil (p.text_ne_nil b)
        rw [← hn, List.length_append]
        omega

@[simp] theorem replaceAll_nil (p : Pattern α β) (r : β → List α) : replaceAll p r [] = [] := rfl

theorem replaceAll_miss (h : p.find (a :: s) = none) :
    replaceAll p r (a :: s) = a :: replaceAll p r s := by
  unfold replaceAll
  rw [scan_miss h]
  rfl

theorem replaceAll_hit (h : p.find (p.text b ++ t) = some b) :
    replaceAll p r (p.text b ++ t) = r b ++ replaceAll p r t := by
  unfold replaceAll
  rw [scan_hit h]
  rfl

/-- **The letters and the matches, one after the other, are the text.** -/
theorem replaceAll_text (p : Pattern α β) (s : List α) : replaceAll p p.text s = s := by
  induction s using scan_induct p with
  | nil => rfl
  | miss a s h ih => rw [replaceAll_miss h, ih]
  | hit b t h ih => rw [replaceAll_hit h, ih]

/-- What is there afterwards was there before, or is written for a match. -/
theorem mem_replaceAll (h : a ∈ replaceAll p r s) :
    a ∈ s ∨ ∃ b, .inr b ∈ scan p s ∧ a ∈ r b := by
  obtain ⟨x, hx, ha⟩ := List.mem_flatMap.mp h
  cases x with
  | inr b => exact Or.inr ⟨b, hx, ha⟩
  | inl c =>
    rw [Sum.elim_inl, List.mem_singleton] at ha
    subst ha
    refine Or.inl ?_
    rw [← replaceAll_text p s]
    exact List.mem_flatMap.mpr ⟨.inl a, hx, List.mem_singleton_self a⟩

theorem find_of_mem_scan (h : .inr b ∈ scan p s) : ∃ t, p.find t = some b := by
  induction s using scan_induct p with
  | nil => cases h
  | miss a s hmiss ih =>
    rw [scan_miss hmiss, List.mem_cons] at h
    exact ih (h.resolve_left fun h => by cases h)
  | hit b' t hhit ih =>
    rw [scan_hit hhit, List.mem_cons] at h
    rcases h with h | h
    · cases h
      exact ⟨_, hhit⟩
    · exact ih h

theorem mem_of_mem_scan (h : .inl a ∈ scan p s) : a ∈ s := by
  rw [← replaceAll_text p s]
  exact List.mem_flatMap.mpr ⟨.inl a, h, List.mem_singleton_self a⟩

/-- A match is of letters of the text. -/
theorem text_subset (h : .inr b ∈ scan p s) : p.text b ⊆ s := by
  intro a ha
  rw [← replaceAll_text p s]
  exact List.mem_flatMap.mpr ⟨.inr b, h, ha⟩

theorem text_infix (h : .inr b ∈ scan p s) : p.text b <:+: s := by
  induction s using scan_induct p with
  | nil => cases h
  | miss a s hmiss ih =>
    rw [scan_miss hmiss, List.mem_cons] at h
    exact (ih (h.resolve_left fun h => by cases h)).trans (List.suffix_cons a s).isInfix
  | hit b' t hhit ih =>
    rw [scan_hit hhit, List.mem_cons] at h
    rcases h with h | h
    · cases h
      exact (List.prefix_append _ t).isInfix
    · exact (ih h).trans (List.suffix_append _ t).isInfix

/-- What is written for the matches has a letter as often as they have it. -/
theorem count_replaceAll [BEq α] (hr : ∀ b, (r b).count a = (p.text b).count a) :
    (replaceAll p r s).count a = s.count a := by
  induction s using scan_induct p with
  | nil => rfl
  | miss c s hmiss ih => rw [replaceAll_miss hmiss, List.count_cons, List.count_cons, ih]
  | hit b t hhit ih => rw [replaceAll_hit hhit, List.count_append, List.count_append, hr, ih]

/-- **What is read off a text stays exactly when it stays in each match**, if as much is read off
what is written for a match. The lengths make the pieces fall on the same places, so that an
equality of the whole is one of every piece. -/
theorem filterMap_replaceAll {γ : Type*} {g : α → Option γ}
    (hr : ∀ b, ((r b).filterMap g).length = ((p.text b).filterMap g).length) :
    (replaceAll p r s).filterMap g = s.filterMap g ↔
      ∀ b, .inr b ∈ scan p s → (r b).filterMap g = (p.text b).filterMap g := by
  induction s using scan_induct p with
  | nil => simp
  | miss a s hmiss ih =>
    rw [replaceAll_miss hmiss, scan_miss hmiss, List.filterMap_cons, List.filterMap_cons]
    cases g a with
    | none => simpa using ih
    | some c => simpa using ih
  | hit b t hhit ih =>
    rw [replaceAll_hit hhit, scan_hit hhit, List.filterMap_append, List.filterMap_append]
    constructor
    · intro h
      obtain ⟨hb, ht⟩ := List.append_inj h (hr b)
      intro b' hb'
      rcases List.mem_cons.mp hb' with heq | hb'
      · cases heq
        exact hb
      · exact ih.mp ht b' hb'
    · intro h
      rw [h b List.mem_cons_self, ih.mpr fun b' hb' => h b' (List.mem_cons_of_mem _ hb')]

end Pattern

/-! ## Pieces of patterns -/

/-- A word, letter by letter; what follows it. `char?` says which symbols are letters, so that the
same definition reads plain texts and texts with symbols. -/
def skip {γ : Type*} [DecidableEq γ] (char? : α → Option γ) : List γ → List α → Option (List α)
  | [], s => some s
  | _ :: _, [] => none
  | c :: cs, a :: s => if char? a = some c then skip char? cs s else none

/-- As few letters as there can be before `close` has a match: the lazy quantifier. A letter that
`ok` does not allow ends the search without a match. -/
def lazily (ok : α → Bool) (close : List α → Option β) : List α → Option (List α × β)
  | [] => (close []).map fun b => ([], b)
  | a :: s => match close (a :: s) with
      | some b => some ([], b)
      | none => if ok a then (lazily ok close s).map fun x => (a :: x.1, x.2) else none

/-- The same, but one letter at least. -/
def lazily1 (ok : α → Bool) (close : List α → Option β) : List α → Option (List α × β)
  | [] => none
  | a :: s => if ok a then (lazily ok close s).map fun x => (a :: x.1, x.2) else none

/-- As many letters as there are, but one at least; they and what follows. The greedy quantifier of
a class of letters, with no way back. -/
def greedily1 (ok : α → Bool) (s : List α) : Option (List α × List α) :=
  if s.takeWhile ok = [] then none else some (s.takeWhile ok, s.dropWhile ok)

variable {ok : α → Bool} {close : List α → Option β} {s t x : List α} {b : β}

theorem lazily_spec (h : lazily ok close s = some (x, b)) :
    (∀ a ∈ x, ok a = true) ∧ ∃ t, s = x ++ t ∧ close t = some b := by
  induction s generalizing x with
  | nil =>
    obtain ⟨b', hb, hx⟩ := Option.map_eq_some_iff.mp h
    cases hx
    exact ⟨by simp, [], rfl, hb⟩
  | cons a s ih =>
    rw [lazily] at h
    split at h
    · rename_i b' hb
      cases h
      exact ⟨by simp, a :: s, rfl, hb⟩
    · split at h
      · rename_i ha
        obtain ⟨⟨y, b'⟩, hy, hx⟩ := Option.map_eq_some_iff.mp h
        cases hx
        obtain ⟨hok, t, rfl, hb⟩ := ih hy
        exact ⟨List.forall_mem_cons.mpr ⟨ha, hok⟩, t, rfl, hb⟩
      · cases h

theorem lazily1_spec (h : lazily1 ok close s = some (x, b)) :
    (∀ a ∈ x, ok a = true) ∧ ∃ t, s = x ++ t ∧ close t = some b := by
  cases s with
  | nil => cases h
  | cons a s =>
    rw [lazily1] at h
    split at h
    · rename_i ha
      obtain ⟨⟨y, b'⟩, hy, hx⟩ := Option.map_eq_some_iff.mp h
      cases hx
      obtain ⟨hok, t, rfl, hb⟩ := lazily_spec hy
      exact ⟨List.forall_mem_cons.mpr ⟨ha, hok⟩, t, rfl, hb⟩
    · cases h

theorem greedily1_spec (h : greedily1 ok s = some (x, t)) :
    (∀ a ∈ x, ok a = true) ∧ s = x ++ t := by
  unfold greedily1 at h
  split at h
  · cases h
  · cases h
    exact ⟨fun a ha => List.mem_takeWhile_imp ha, (List.takeWhile_append_dropWhile ..).symm⟩

/-! ## Symbols that stand for words -/

/-- Symbols some of which are letters: `lit` is the symbol of a letter, and `char?` the letter of a
symbol, if it is one. -/
structure Alphabet (α γ : Type*) where
  lit : γ → α
  char? : α → Option γ
  char?_eq : ∀ {a : α} {c : γ}, char? a = some c ↔ a = lit c

/-- The letters themselves. -/
def letters (γ : Type*) : Alphabet γ γ where
  lit := id
  char? := some
  char?_eq := by
    intro a c
    exact Option.some_inj

variable {γ δ : Type*} {N : α → Prop} {e : α → List γ}

/-- What `g` finds in symbols is what `g'` finds in their words, and `g'` finds nothing from within
a word on. `N` holds of the symbols that can be there; `e` gives the word of a symbol, and `f` what
a match of the one says as a match of the other. -/
structure Expands (N : α → Prop) (e : α → List γ) (f : β → δ) (g : List α → Option β)
    (g' : List γ → Option δ) : Prop where
  agrees : ∀ s : List α, (∀ a ∈ s, N a) → g' (s.flatMap e) = (g s).map f
  inner : ∀ (a : α) (s : List α), N a → (∀ a ∈ s, N a) → ∀ w, w <:+ e a → w ≠ [] → w ≠ e a →
    g' (w ++ s.flatMap e) = none

theorem skip_eq_some [DecidableEq γ] (A : Alphabet α γ) {cs : List γ} :
    skip A.char? cs s = some t ↔ s = cs.map A.lit ++ t := by
  induction cs generalizing s with
  | nil => simp [skip]
  | cons c cs ih =>
    cases s with
    | nil => simp [skip]
    | cons a s =>
      rw [skip]
      split
      · rename_i h
        rw [ih, A.char?_eq.mp h]
        simp
      · rename_i h
        have hne : a ≠ A.lit c := fun ha => h (A.char?_eq.mpr ha)
        simp [hne]

/-- What a word must be like for a pattern's word `cs` neither to begin within it nor to run into
it: none of its letters is the first of `cs`, and its own first letter is none of `cs`. -/
structure Foreign [DecidableEq γ] (cs w : List γ) : Prop where
  nonempty : w ≠ []
  within : ∀ c ∈ w, cs.head? ≠ some c
  front : ∀ c, w.head? = some c → c ∉ cs

theorem skip_agrees [DecidableEq γ] (A : Alphabet α γ) {cs : List γ}
    (he : ∀ c ∈ cs, e (A.lit c) = [c])
    (hN : ∀ a, N a → (∀ c ∈ cs, a ≠ A.lit c) →
      e a ≠ [] ∧ ∀ c, (e a).head? = some c → c ∉ cs)
    (hs : ∀ a ∈ s, N a) :
    skip some cs (s.flatMap e) = (skip A.char? cs s).map (List.flatMap e) := by
  -- only the letters of the rest are compared, so `cs` shrinks while `hN` stays
  have hrest : ∀ (ds : List γ), ds ⊆ cs → ∀ s : List α, (∀ a ∈ s, N a) →
      skip some ds (s.flatMap e) = (skip A.char? ds s).map (List.flatMap e) := by
    intro ds
    induction ds with
    | nil => exact fun _ s _ => rfl
    | cons c ds ih =>
      intro hds s hs
      cases s with
      | nil => rfl
      | cons a s =>
        obtain ⟨ha, hrest⟩ := List.forall_mem_cons.mp hs
        rw [List.flatMap_cons]
        by_cases hlit : ∃ c' ∈ cs, a = A.lit c'
        · obtain ⟨c', hc', rfl⟩ := hlit
          rw [he c' hc', List.singleton_append, skip, skip, A.char?_eq.mpr rfl]
          split
          · exact ih (fun _ hd => hds (List.mem_cons_of_mem _ hd)) s hrest
          · rfl
        · obtain ⟨hne, hfront⟩ := hN a ha fun c' hc' h => hlit ⟨c', hc', h⟩
          have hchar : A.char? a ≠ some c := fun h =>
            hlit ⟨c, hds List.mem_cons_self, A.char?_eq.mp h⟩
          rw [skip, if_neg hchar]
          cases hw : e a with
          | nil => exact absurd hw hne
          | cons d w =>
            have hdc : d ≠ c := by
              rintro rfl
              exact hfront d (by rw [hw]; rfl) (hds List.mem_cons_self)
            rw [List.cons_append, skip, if_neg (by simpa using hdc)]
            rfl
  exact hrest cs (fun _ h => h) s hs

theorem Expands.skip [DecidableEq γ] (A : Alphabet α γ) {cs : List γ} (hcs : cs ≠ [])
    (he : ∀ c ∈ cs, e (A.lit c) = [c])
    (hN : ∀ a, N a → (∀ c ∈ cs, a ≠ A.lit c) → Foreign cs (e a)) :
    Expands N e (List.flatMap e) (Lib.skip A.char? cs) (Lib.skip some cs) where
  agrees _ := skip_agrees A he fun a ha hother =>
    ⟨(hN a ha hother).nonempty, (hN a ha hother).front⟩
  inner := by
    intro a s ha _ w hw hne hproper
    by_cases hlit : ∃ c ∈ cs, a = A.lit c
    · -- a letter has nothing within
      obtain ⟨c, hc, rfl⟩ := hlit
      rw [he c hc] at hw hproper
      rcases List.suffix_cons_iff.mp hw with h | h
      · exact absurd h hproper
      · exact absurd (List.suffix_nil.mp h) hne
    · obtain ⟨-, hwithin, -⟩ := hN a ha fun c hc h => hlit ⟨c, hc, h⟩
      cases cs with
      | nil => exact absurd rfl hcs
      | cons c cs =>
        cases w with
        | nil => exact absurd rfl hne
        | cons d w =>
          have hd : d ∈ e a := hw.subset List.mem_cons_self
          have hdc : d ≠ c := by
            rintro rfl
            exact hwithin d hd rfl
          rw [List.cons_append, Lib.skip, if_neg (by simpa using hdc)]

/-- The symbols that `ok` allows are those whose letters `ok'` allows, and a symbol it does not
allow is a single letter. -/
def Allows (N : α → Prop) (e : α → List γ) (ok : α → Bool) (ok' : γ → Bool) : Prop :=
  ∀ a, N a → e a ≠ [] ∧ (ok a = true ∧ (∀ c ∈ e a, ok' c = true) ∨
    ok a = false ∧ ∃ c, e a = [c] ∧ ok' c = false)

variable {ok' : γ → Bool} {f : β → δ} {close' : List γ → Option δ}

/-- Through a word, or the rest of one, the search for the end goes on. -/
theorem lazily_word {w rest : List γ} (hw : ∀ v, v <:+ w → v ≠ [] → close' (v ++ rest) = none)
    (hok : ∀ c ∈ w, ok' c = true) :
    lazily ok' close' (w ++ rest) = (lazily ok' close' rest).map fun x => (w ++ x.1, x.2) := by
  induction w with
  | nil =>
    rw [List.nil_append]
    cases lazily ok' close' rest <;> rfl
  | cons c w ih =>
    obtain ⟨hc, hok⟩ := List.forall_mem_cons.mp hok
    have hnone := hw (c :: w) List.suffix_rfl (List.cons_ne_nil _ _)
    rw [List.cons_append] at hnone ⊢
    rw [lazily, hnone]
    simp only [hc, if_true]
    rw [ih (fun v hv => hw v (hv.trans (List.suffix_cons c w))) hok, Option.map_map]
    rfl

theorem lazily_agrees (hclose : Expands N e f close close') (hok : Allows N e ok ok')
    (hs : ∀ a ∈ s, N a) : lazily ok' close' (s.flatMap e) =
      (lazily ok close s).map fun x => (x.1.flatMap e, f x.2) := by
  induction s with
  | nil =>
    have hnil : close' [] = (close []).map f := hclose.agrees [] (by simp)
    rw [List.flatMap_nil, lazily, lazily, hnil, Option.map_map, Option.map_map]
    rfl
  | cons a s ih =>
    obtain ⟨ha, hrest⟩ := List.forall_mem_cons.mp hs
    have hagree := hclose.agrees (a :: s) hs
    rw [List.flatMap_cons] at hagree ⊢
    cases hb : close (a :: s) with
    | some b =>
      have hfound : lazily ok close (a :: s) = some ([], b) := by rw [lazily, hb]
      rw [hb, Option.map_some] at hagree
      rw [hfound]
      obtain ⟨hne, -⟩ := hok a ha
      cases hw : e a with
      | nil => exact absurd hw hne
      | cons c w =>
        rw [hw, List.cons_append] at hagree
        rw [List.cons_append, lazily, hagree]
        rfl
    | none =>
      rw [hb, Option.map_none] at hagree
      obtain ⟨hne, ⟨hoka, hall⟩ | ⟨hoka, c, hc, hnot⟩⟩ := hok a ha
      · have hnone : ∀ v, v <:+ e a → v ≠ [] → close' (v ++ s.flatMap e) = none := by
          intro v hv hvne
          by_cases hva : v = e a
          · rw [hva]
            exact hagree
          · exact hclose.inner a s ha hrest v hv hvne hva
        rw [lazily_word hnone hall, ih hrest, lazily, hb]
        simp only [hoka, if_true]
        rw [Option.map_map, Option.map_map]
        rfl
      · rw [hc, List.singleton_append] at hagree ⊢
        rw [lazily, hagree, lazily, hb]
        simp only [hoka, hnot, Bool.false_eq_true, if_false]
        rfl

theorem lazily1_agrees (hclose : Expands N e f close close') (hok : Allows N e ok ok')
    (hs : ∀ a ∈ s, N a) : lazily1 ok' close' (s.flatMap e) =
      (lazily1 ok close s).map fun x => (x.1.flatMap e, f x.2) := by
  cases s with
  | nil => rfl
  | cons a s =>
    obtain ⟨ha, hrest⟩ := List.forall_mem_cons.mp hs
    rw [List.flatMap_cons, lazily1]
    obtain ⟨hne, ⟨hoka, hall⟩ | ⟨hoka, c, hc, hnot⟩⟩ := hok a ha
    · cases hw : e a with
      | nil => exact absurd hw hne
      | cons c w =>
        rw [hw] at hall
        obtain ⟨hc, hall⟩ := List.forall_mem_cons.mp hall
        have hnone : ∀ v, v <:+ w → v ≠ [] → close' (v ++ s.flatMap e) = none := by
          intro v hv hvne
          have hvc : v <:+ c :: w := hv.trans (List.suffix_cons c w)
          refine hclose.inner a s ha hrest v (hw ▸ hvc) hvne fun h => ?_
          have hlen := hv.length_le
          rw [h, hw, List.length_cons] at hlen
          omega
        rw [List.cons_append, lazily1, lazily_word hnone hall, lazily_agrees hclose hok hrest]
        simp only [hc, hoka, if_true]
        rw [Option.map_map, Option.map_map, Option.map_map]
        refine Option.map_congr fun x _ => ?_
        simp [hw]
    · rw [hc, List.singleton_append, lazily1]
      simp only [hoka, hnot, Bool.false_eq_true, if_false]
      rfl

theorem takeWhile_agrees (hok : Allows N e ok ok') (hs : ∀ a ∈ s, N a) :
    (s.flatMap e).takeWhile ok' = (s.takeWhile ok).flatMap e ∧
      (s.flatMap e).dropWhile ok' = (s.dropWhile ok).flatMap e := by
  induction s with
  | nil => exact ⟨rfl, rfl⟩
  | cons a s ih =>
    obtain ⟨ha, hrest⟩ := List.forall_mem_cons.mp hs
    obtain ⟨htake, hdrop⟩ := ih hrest
    obtain ⟨-, ⟨hoka, hall⟩ | ⟨hoka, c, hc, hnot⟩⟩ := hok a ha
    · rw [List.takeWhile_cons_of_pos hoka, List.dropWhile_cons_of_pos hoka, List.flatMap_cons,
        List.takeWhile_append_of_pos hall, List.dropWhile_append_of_pos hall, htake, hdrop,
        List.flatMap_cons]
      exact ⟨rfl, rfl⟩
    · have hneg : ¬ ok a = true := by simp [hoka]
      have hneg' : ¬ ok' c = true := by simp [hnot]
      rw [List.takeWhile_cons_of_neg hneg, List.dropWhile_cons_of_neg hneg, List.flatMap_cons, hc,
        List.singleton_append, List.takeWhile_cons_of_neg hneg', List.dropWhile_cons_of_neg hneg']
      exact ⟨rfl, rfl⟩

theorem greedily1_agrees (hok : Allows N e ok ok') (hs : ∀ a ∈ s, N a) :
    greedily1 ok' (s.flatMap e) =
      (greedily1 ok s).map fun x => (x.1.flatMap e, x.2.flatMap e) := by
  obtain ⟨htake, hdrop⟩ := takeWhile_agrees hok hs
  have hnil : (s.takeWhile ok).flatMap e = [] ↔ s.takeWhile ok = [] := by
    constructor
    · intro h
      cases ht : s.takeWhile ok with
      | nil => rfl
      | cons a t =>
        have ha : a ∈ s := (List.takeWhile_sublist _).subset (by rw [ht]; exact List.mem_cons_self)
        rw [ht, List.flatMap_cons] at h
        exact absurd (List.append_eq_nil_iff.mp h).1 (hok a (hs a ha)).1
    · intro h
      rw [h]
      rfl
  unfold greedily1
  rw [htake, hdrop]
  by_cases h : s.takeWhile ok = []
  · rw [if_pos (hnil.mpr h), if_pos h]
    rfl
  · rw [if_neg fun h' => h (hnil.mp h'), if_neg h]
    rfl

namespace Pattern

variable {p : Pattern α β} {q : Pattern γ δ} {r : β → List α} {r' : δ → List γ}

/-- Through a word that no match begins in. -/
theorem scan_word {w rest : List γ} (hw : ∀ v, v <:+ w → v ≠ [] → q.find (v ++ rest) = none) :
    scan q (w ++ rest) = w.map .inl ++ scan q rest := by
  induction w with
  | nil => rfl
  | cons c w ih =>
    have hnone := hw (c :: w) List.suffix_rfl (List.cons_ne_nil _ _)
    rw [List.cons_append] at hnone ⊢
    rw [scan_miss hnone, ih fun v hv => hw v (hv.trans (List.suffix_cons c w))]
    rfl

/-- **The matches in the words are the words of the matches.** By the scan of the symbols: through a
letter's word no match begins, and a match is one as a whole. -/
theorem scan_expand (h : Expands N e f p.find q.find)
    (htext : ∀ b, q.text (f b) = (p.text b).flatMap e) (hs : ∀ a ∈ s, N a) :
    scan q (s.flatMap e) =
      (scan p s).flatMap (Sum.elim (fun a => (e a).map .inl) fun b => [.inr (f b)]) := by
  induction s using scan_induct p with
  | nil => rfl
  | miss a s hmiss ih =>
    obtain ⟨ha, hrest⟩ := List.forall_mem_cons.mp hs
    have hagree := h.agrees (a :: s) hs
    rw [hmiss, List.flatMap_cons] at hagree
    rw [scan_miss hmiss, List.flatMap_cons, List.flatMap_cons, ← ih hrest]
    refine scan_word fun v hv hne => ?_
    by_cases hva : v = e a
    · rw [hva]
      exact hagree
    · exact h.inner a s ha hrest v hv hne hva
  | hit b t hhit ih =>
    have hrest : ∀ a ∈ t, N a := fun a ha => hs a (List.mem_append_right _ ha)
    have hagree := h.agrees _ hs
    rw [hhit, List.flatMap_append, ← htext] at hagree
    rw [scan_hit hhit, List.flatMap_append, ← htext, scan_hit hagree, ih hrest]
    rfl

/-- **To replace symbols is to replace their words**, if what is written is. So a rule may be looked
at where the words are still symbols. -/
theorem replaceAll_expand (h : Expands N e f p.find q.find)
    (htext : ∀ b, q.text (f b) = (p.text b).flatMap e) (hr : ∀ b, (r b).flatMap e = r' (f b))
    (hs : ∀ a ∈ s, N a) : (replaceAll p r s).flatMap e = replaceAll q r' (s.flatMap e) := by
  unfold replaceAll
  rw [scan_expand h htext hs, List.flatMap_assoc, List.flatMap_assoc]
  refine List.flatMap_congr fun x _ => ?_
  cases x with
  | inl a =>
    show e a ++ [] = ((e a).map .inl).flatMap (Sum.elim (fun a => [a]) r')
    rw [List.flatMap_map, List.append_nil]
    exact (List.flatMap_singleton' (e a)).symm
  | inr b =>
    show (r b).flatMap e = r' (f b) ++ []
    rw [hr, List.append_nil]

end Pattern

end Lib
