import MessagesApp.Lib.Pattern
import Mathlib.Data.List.Nodup
import Mathlib.Data.List.TakeWhile
import Mathlib.Logic.Function.Basic

/-!
# `AsyncDatabase.prepare`

The queries name their parameters `:p1`, `:p2`; asyncpg wants `$1`, `$2` and the values in order.
`prepare` (`connection.py` 66–84) replaces every `:pN` by the number of its name, and a name that
comes for the first time gets the next number. The closure `repl` changes `order` and `mapping`
while `re.sub` goes on, so `sub` carries both along the matches as a `Numbering`, which has the
agreement of the two as a field.

That the result means what the query did is `Prepared`: the numbers count up in the order of first
appearance, there is one for each name, no name is left, and with the values filled in both texts
are the same. The proof is in two parts. What `repl` writes while it numbers is what the whole
numbering says in the end (`sub_eq`), because a name keeps its number (`sub_keeps`). And what was
written is read as it was meant: a number ends where its name ended (`scan_write`), and no name
comes about where a number was written (`scan_write_left`). The query must have no `$` of its own,
as none of those in `messages.py` has.

What `re` takes for a digit or a letter is a table of Unicode, and a parameter here: the statements
hold for every such table. A backslash before a colon is a letter like others, as it is for `re`.
-/

set_option autoImplicit false

namespace MessagesApp.Db

open Lib

/-- `\d` and `\w`, as far as they matter: a digit is a word character, those of ASCII are digits,
and the two marks that begin a placeholder are none. -/
structure CharTable where
  digit : Char → Bool
  word : Char → Bool
  digit_word : ∀ c, digit c = true → word c = true
  ascii_digit : ∀ c, c.isDigit = true → digit c = true
  colon_not_word : word ':' = false
  dollar_not_word : word '$' = false

/-- What `:(p\d+)\b` matches at the front of a text, less the colon. The digits run as far as they
can: fewer would leave a digit behind them, where there is no `\b`. -/
def findParam (T : CharTable) : List Char → Option (List Char)
  | ':' :: 'p' :: s =>
      let digits := s.takeWhile T.digit
      if digits ≠ [] ∧ (s.dropWhile T.digit).head?.all (fun c => !T.word c) = true then
        some ('p' :: digits)
      else none
  | _ => none

variable {T : CharTable} {s t : List Char} {key : List Char}

theorem findParam_eq_some (h : findParam T s = some key) :
    ∃ digits t, key = 'p' :: digits ∧ s = ':' :: 'p' :: (digits ++ t) ∧ digits ≠ [] ∧
      (∀ c ∈ digits, T.digit c = true) ∧ ∀ c ∈ t.head?, T.word c = false := by
  unfold findParam at h
  split at h
  · rename_i s
    simp only [ne_eq, Option.ite_none_right_eq_some, Option.some.injEq] at h
    obtain ⟨⟨hne, hend⟩, rfl⟩ := h
    refine ⟨s.takeWhile T.digit, s.dropWhile T.digit, rfl, ?_, hne, fun c hc => ?_, fun c hc => ?_⟩
    · rw [List.takeWhile_append_dropWhile]
    · exact List.mem_takeWhile_imp hc
    · rw [Option.mem_def] at hc
      rw [hc] at hend
      simpa using hend
  · cases h

/-- `:(p\d+)\b`, with its group. -/
def param (T : CharTable) : Pattern Char (List Char) where
  find := findParam T
  text key := ':' :: key
  text_starts h := by
    obtain ⟨digits, t, rfl, rfl, -⟩ := findParam_eq_some h
    exact ⟨t, rfl⟩
  text_ne_nil _ := List.cons_ne_nil _ _

/-- `order` and `mapping`: the names that came so far, and the place of each, counted from one. That
the two agree is a field, so that neither has to be looked at for what the other says. -/
structure Numbering where
  order : List (List Char)
  mapping : List Char → Option Nat
  nodup : order.Nodup
  mapping_iff : ∀ key i, mapping key = some i ↔ 1 ≤ i ∧ order[i - 1]? = some key

def Numbering.init : Numbering := ⟨[], fun _ => none, List.nodup_nil, by simp⟩

theorem Numbering.mem_order {n : Numbering} {key : List Char} :
    key ∈ n.order ↔ ∃ i, n.mapping key = some i := by
  constructor
  · intro h
    obtain ⟨j, hj⟩ := List.mem_iff_getElem?.mp h
    exact ⟨j + 1, (n.mapping_iff key _).mpr ⟨Nat.le_add_left 1 j, hj⟩⟩
  · rintro ⟨i, hi⟩
    exact List.mem_of_getElem? ((n.mapping_iff key i).mp hi).2

/-- `mapping[key] = len(order) + 1` and `order.append(key)`. -/
def Numbering.add (n : Numbering) (key : List Char) (hnew : n.mapping key = none) : Numbering where
  order := n.order ++ [key]
  mapping := Function.update n.mapping key (some (n.order.length + 1))
  nodup := by
    refine List.nodup_append.mpr ⟨n.nodup, List.nodup_singleton key, fun a ha b hb hab => ?_⟩
    rw [List.mem_singleton] at hb
    obtain ⟨i, hi⟩ := Numbering.mem_order.mp (hb ▸ hab ▸ ha)
    rw [hnew] at hi
    cases hi
  mapping_iff k i := by
    have hkey : key ∉ n.order := by
      intro h
      obtain ⟨j, hj⟩ := Numbering.mem_order.mp h
      rw [hnew] at hj
      cases hj
    by_cases hk : k = key
    · subst hk
      rw [Function.update_self, Option.some.injEq]
      constructor
      · rintro rfl
        simp
      · rintro ⟨hi, hget⟩
        rw [List.getElem?_append] at hget
        split at hget
        · exact absurd (List.mem_of_getElem? hget) hkey
        · obtain ⟨hlt, -⟩ := List.getElem?_eq_some_iff.mp hget
          rw [List.length_singleton] at hlt
          omega
    · rw [Function.update_of_ne hk, n.mapping_iff, List.getElem?_append]
      split
      · rfl
      · rename_i hlt
        refine and_congr_right fun _ => ?_
        rw [List.getElem?_eq_none (Nat.le_of_not_lt hlt), List.getElem?_singleton]
        split
        · simpa using Ne.symm hk
        · rfl

/-- `repl`: the number of a name, which is the next one for a name that is new. -/
def Numbering.number (n : Numbering) (key : List Char) : Nat × Numbering :=
  match h : n.mapping key with
  | some i => (i, n)
  | none => (n.order.length + 1, n.add key h)

/-- `f"${i}"`. -/
def positional (i : Nat) : List Char := '$' :: Nat.toDigits 10 i

/-- `re.sub(r":(p\d+)\b", repl, sql)`, behind what it has numbered so far. Matches are met from the
left, which is the order in which the closure numbers them. -/
def sub : Numbering → List (Char ⊕ List Char) → List Char × Numbering
  | n, [] => ([], n)
  | n, .inl c :: l =>
      let (out, n') := sub n l
      (c :: out, n')
  | n, .inr key :: l =>
      let (i, n₁) := n.number key
      let (out, n') := sub n₁ l
      (positional i ++ out, n')

/-- `AsyncDatabase.prepare`: the text with numbers for names, and a value for each name in the order
of the numbers. A name without a value has `None`. -/
def prepare {ν : Type*} (T : CharTable) (sql : List Char) (params : List Char → Option ν) :
    List Char × List (Option ν) :=
  let (newSql, n) := sub .init (Pattern.scan (param T) sql)
  (newSql, n.order.map params)

/-! ## Numbering -/

variable {n : Numbering} {l : List (Char ⊕ List Char)}

/-- The number that `repl` gives is in the mapping it leaves, and takes the name's place in the
order: behind the last, where the name is new. -/
theorem number_cases (n : Numbering) (key : List Char) :
    (∃ i, n.mapping key = some i ∧ n.number key = (i, n)) ∨
    ∃ h : n.mapping key = none, n.number key = (n.order.length + 1, n.add key h) := by
  unfold Numbering.number
  split
  · rename_i i h
    exact Or.inl ⟨i, h, rfl⟩
  · rename_i h
    exact Or.inr ⟨h, rfl⟩

theorem number_mapping (n : Numbering) (key : List Char) :
    (n.number key).2.mapping key = some (n.number key).1 := by
  rcases number_cases n key with ⟨i, hi, hnum⟩ | ⟨h, hnum⟩
  · rw [hnum]
    exact hi
  · rw [hnum]
    exact Function.update_self ..

/-- A name keeps its number. -/
theorem number_keeps (n : Numbering) (key : List Char) {k : List Char} {i : Nat}
    (hk : n.mapping k = some i) : (n.number key).2.mapping k = some i := by
  rcases number_cases n key with ⟨j, hj, hnum⟩ | ⟨h, hnum⟩
  · rw [hnum]
    exact hk
  · rw [hnum]
    have hne : k ≠ key := by
      rintro rfl
      rw [h] at hk
      cases hk
    exact (Function.update_of_ne hne ..).trans hk

theorem sub_keeps (l : List (Char ⊕ List Char)) : ∀ (n : Numbering) {k : List Char} {i : Nat},
    n.mapping k = some i → (sub n l).2.mapping k = some i := by
  induction l with
  | nil =>
    intro n k i h
    exact h
  | cons x l ih =>
    intro n k i h
    cases x with
    | inl c => exact ih n h
    | inr key => exact ih _ (number_keeps n key h)

/-- The number of a name, when all are numbered. -/
def Numbering.of (n : Numbering) (key : List Char) : Nat := (n.mapping key).getD 0

/-- `$i` for a name, as a numbering has it. -/
def Numbering.write (n : Numbering) (l : List (Char ⊕ List Char)) : List Char :=
  l.flatMap (Sum.elim (fun c => [c]) fun key => positional (n.of key))

/-- **What `repl` writes while it numbers is what the whole numbering says.** By induction on the
matches; a number that was given is not changed by those behind it. -/
theorem sub_eq (l : List (Char ⊕ List Char)) : ∀ n : Numbering,
    (sub n l).1 = (sub n l).2.write l := by
  induction l with
  | nil =>
    intro n
    rfl
  | cons x l ih =>
    intro n
    cases x with
    | inl c =>
      have h := ih n
      show c :: (sub n l).1 = c :: (sub n l).2.write l
      rw [h]
    | inr key =>
      have h := ih (n.number key).2
      have hkey := sub_keeps l (n.number key).2 (number_mapping n key)
      show positional (n.number key).1 ++ (sub (n.number key).2 l).1 =
        positional ((sub (n.number key).2 l).2.of key) ++ (sub (n.number key).2 l).2.write l
      rw [h, Numbering.of, hkey, Option.getD_some]

/-- The names of the placeholders. -/
def names (l : List (Char ⊕ List Char)) : List (List Char) := l.filterMap Sum.getRight?

/-- Every name has a number in the end, and its place in the order. -/
theorem sub_names (l : List (Char ⊕ List Char)) : ∀ n : Numbering, ∀ key ∈ names l,
    1 ≤ (sub n l).2.of key ∧ (sub n l).2.order[(sub n l).2.of key - 1]? = some key := by
  induction l with
  | nil =>
    intro n key h
    cases h
  | cons x l ih =>
    intro n key h
    cases x with
    | inl c => exact ih n key h
    | inr k =>
      rcases List.mem_cons.mp (show key ∈ k :: names l from h) with rfl | h
      · have hkey := sub_keeps l (n.number key).2 (number_mapping n key)
        have hof : (sub n (.inr key :: l)).2.of key = (n.number key).1 := by
          show ((sub (n.number key).2 l).2.mapping key).getD 0 = _
          rw [hkey, Option.getD_some]
        rw [hof]
        exact ((sub (n.number key).2 l).2.mapping_iff key _).mp hkey
      · exact ih _ key h

/-! ## The order of first appearance -/

theorem eraseDups_of_nodup {α : Type*} [BEq α] [LawfulBEq α] : ∀ {l : List α}, l.Nodup → l.eraseDups = l
  | [], _ => rfl
  | a :: l, h => by
    obtain ⟨ha, hl⟩ := List.nodup_cons.mp h
    have hfilter : l.filter (fun b => !b == a) = l := by
      refine List.filter_eq_self.mpr fun b hb => ?_
      have hne : b ≠ a := by
        rintro rfl
        exact ha hb
      simp [hne]
    rw [List.eraseDups_cons, hfilter, eraseDups_of_nodup hl]

theorem eraseDups_append_cons {α : Type*} [BEq α] [LawfulBEq α] {a : α} {as : List α} (bs : List α)
    (h : a ∈ as) : (as ++ a :: bs).eraseDups = (as ++ bs).eraseDups := by
  rw [List.eraseDups_append, List.eraseDups_append, List.cons_removeAll]
  simp [h]

/-- **The numbers of the placeholders count up from one**, each where it comes for the first time.
The induction carries the numbers that were given before the first match. -/
theorem sub_numbers (l : List (Char ⊕ List Char)) : ∀ n : Numbering,
    (List.range' 1 n.order.length ++ (names l).map (sub n l).2.of).eraseDups =
      List.range' 1 (sub n l).2.order.length := by
  induction l with
  | nil =>
    intro n
    show (List.range' 1 n.order.length ++ []).eraseDups = List.range' 1 n.order.length
    rw [List.append_nil]
    exact eraseDups_of_nodup List.nodup_range'
  | cons x l ih =>
    intro n
    cases x with
    | inl c => exact ih n
    | inr key =>
      have h := ih (n.number key).2
      have hkey := sub_keeps l (n.number key).2 (number_mapping n key)
      show (List.range' 1 n.order.length ++ (sub (n.number key).2 l).2.of key ::
        (names l).map (sub (n.number key).2 l).2.of).eraseDups = _
      rw [show (sub n (.inr key :: l)).2 = (sub (n.number key).2 l).2 from rfl, ← h]
      rw [Numbering.of, hkey, Option.getD_some]
      rcases number_cases n key with ⟨i, hi, hnum⟩ | ⟨hnew, hnum⟩
      · rw [hnum]
        obtain ⟨hpos, hget⟩ := (n.mapping_iff key i).mp hi
        obtain ⟨hlt, -⟩ := List.getElem?_eq_some_iff.mp hget
        refine eraseDups_append_cons _ (List.mem_range'_1.mpr ⟨hpos, ?_⟩)
        omega
      · rw [hnum]
        show _ = (List.range' 1 (n.order ++ [key]).length ++ _).eraseDups
        rw [List.length_append, List.length_singleton, List.range'_concat, List.append_assoc]
        simp [Nat.add_comm]

/-! ## Reading the result -/

/-- `\$\d+` of ASCII digits, as PostgreSQL reads it. -/
def findPositional : List Char → Option (List Char)
  | '$' :: s =>
      let digits := s.takeWhile Char.isDigit
      if digits ≠ [] then some digits else none
  | _ => none

theorem findPositional_eq_some {digits : List Char} (h : findPositional s = some digits) :
    digits ≠ [] ∧ ∃ t, s = '$' :: (digits ++ t) := by
  unfold findPositional at h
  split at h
  · rename_i s
    simp only [ne_eq, Option.ite_none_right_eq_some, Option.some.injEq] at h
    obtain ⟨hne, rfl⟩ := h
    exact ⟨hne, s.dropWhile Char.isDigit, by rw [List.takeWhile_append_dropWhile]⟩
  · cases h

def positionals : Pattern Char (List Char) where
  find := findPositional
  text digits := '$' :: digits
  text_starts h := by
    obtain ⟨-, t, rfl⟩ := findPositional_eq_some h
    exact ⟨t, rfl⟩
  text_ne_nil _ := List.cons_ne_nil _ _

/-- The placeholders `$i` of a text, by their numbers. -/
def numbers (newSql : List Char) : List Nat :=
  (names (Pattern.scan positionals newSql)).map fun digits => Nat.ofDigitChars 10 digits 0

theorem findPositional_miss {c : Char} (hc : c ≠ '$') : findPositional (c :: s) = none := by
  unfold findPositional
  split
  · rename_i h
    exact absurd (List.cons.inj h).1 hc
  · rfl

theorem toDigits_isDigit (i : Nat) : ∀ c ∈ Nat.toDigits 10 i, c.isDigit = true :=
  fun _ hc => Nat.isDigit_of_mem_toDigits (by decide) (by decide) hc

/-- A number is read up to its end where no digit follows it. -/
theorem findPositional_hit (i : Nat) (h : ∀ c ∈ t.head?, c.isDigit = false) :
    findPositional (positional i ++ t) = some (Nat.toDigits 10 i) := by
  have hrest : t.takeWhile Char.isDigit = [] := by
    cases t with
    | nil => rfl
    | cons c t => rw [List.takeWhile_cons, h c rfl]; rfl
  have hdigits : (Nat.toDigits 10 i ++ t).takeWhile Char.isDigit = Nat.toDigits 10 i := by
    rw [List.takeWhile_append_of_pos (toDigits_isDigit i), hrest, List.append_nil]
  unfold findPositional positional
  simp only [List.cons_append, hdigits]
  rw [if_pos Nat.toDigits_ne_nil]

/-- What is written for a text begins as the text does, or with a `$` where it begins with a
placeholder. -/
theorem write_scan_head (n : Numbering) {c : Char}
    (h : c ∈ (n.write (Pattern.scan (param T) t)).head?) : c = '$' ∨ c ∈ t.head? := by
  cases t with
  | nil => cases h
  | cons a t =>
    cases hf : findParam T (a :: t) with
    | none =>
      rw [Pattern.scan_miss (p := param T) hf] at h
      exact Or.inr h
    | some key =>
      obtain ⟨u, hu⟩ := (param T).text_starts hf
      rw [← hu] at h hf
      rw [Pattern.scan_hit (p := param T) hf] at h
      exact Or.inl (Option.some.inj h).symm

/-- Behind a placeholder there is no word character. -/
theorem findParam_end (h : findParam T ((param T).text key ++ t) = some key) {c : Char}
    (hc : c ∈ t.head?) : T.word c = false := by
  obtain ⟨digits, u, rfl, heq, -, -, hend⟩ := findParam_eq_some h
  have htu : t = u := by simpa [param] using heq
  exact hend c (htu ▸ hc)

/-- **The numbers that were written are the placeholders that are read**, where the text had no `$`
of its own. Behind a name there is no word character, so no digit that a number could run into. -/
theorem scan_write (n : Numbering) (hsql : '$' ∉ s) :
    Pattern.scan positionals (n.write (Pattern.scan (param T) s)) =
      (Pattern.scan (param T) s).map (Sum.map id fun key => Nat.toDigits 10 (n.of key)) := by
  induction s using Pattern.scan_induct (param T) with
  | nil => rfl
  | miss a s h ih =>
    rw [Pattern.scan_miss h]
    have ha : a ≠ '$' := fun hc => hsql (hc ▸ List.mem_cons_self)
    have hmiss : positionals.find (a :: n.write (Pattern.scan (param T) s)) = none :=
      findPositional_miss ha
    show Pattern.scan positionals (a :: n.write (Pattern.scan (param T) s)) = _
    rw [Pattern.scan_miss hmiss, ih fun hc => hsql (List.mem_cons_of_mem _ hc)]
    rfl
  | hit key t h ih =>
    rw [Pattern.scan_hit h]
    have hend : ∀ c ∈ (n.write (Pattern.scan (param T) t)).head?, c.isDigit = false := by
      intro c hc
      rcases write_scan_head n hc with rfl | hc
      · rfl
      · have hword := findParam_end h hc
        cases hd : c.isDigit with
        | false => rfl
        | true => rw [T.digit_word c (T.ascii_digit c hd)] at hword; cases hword
    have hhit := findPositional_hit (n.of key) hend
    show Pattern.scan positionals (positionals.text (Nat.toDigits 10 (n.of key)) ++
      n.write (Pattern.scan (param T) t)) = _
    rw [Pattern.scan_hit hhit, ih fun hc => hsql (List.mem_append_right _ hc)]
    rfl

/-- Where the result reads on without a `$`, the text did. -/
theorem write_scan_append (n : Numbering) : ∀ {w u : List Char}, '$' ∉ w →
    n.write (Pattern.scan (param T) s) = w ++ u →
      ∃ t, s = w ++ t ∧ u = n.write (Pattern.scan (param T) t) := by
  intro w
  induction w generalizing s with
  | nil =>
    intro u _ h
    exact ⟨s, rfl, h.symm⟩
  | cons c w ih =>
    intro u hw h
    have hc : c ≠ '$' := fun hc => hw (hc ▸ List.mem_cons_self)
    cases s with
    | nil => cases h
    | cons a s =>
      cases hf : findParam T (a :: s) with
      | none =>
        rw [Pattern.scan_miss (p := param T) hf] at h
        obtain ⟨rfl, htail⟩ := List.cons.inj (show a :: n.write _ = c :: (w ++ u) from h)
        obtain ⟨t, rfl, hu⟩ := ih (fun hm => hw (List.mem_cons_of_mem _ hm)) htail
        exact ⟨t, rfl, hu⟩
      | some key =>
        obtain ⟨v, hv⟩ := (param T).text_starts hf
        rw [← hv] at h hf
        rw [Pattern.scan_hit (p := param T) hf] at h
        exact absurd (List.cons.inj h).1.symm hc

theorem findParam_hit {digits : List Char} (hne : digits ≠ []) (hd : ∀ c ∈ digits, T.digit c = true)
    (hend : ∀ c ∈ t.head?, T.word c = false) :
    findParam T (':' :: 'p' :: (digits ++ t)) = some ('p' :: digits) := by
  have hrest : t.takeWhile T.digit = [] ∧ t.dropWhile T.digit = t := by
    cases t with
    | nil => exact ⟨rfl, rfl⟩
    | cons c t =>
      have hc : T.digit c = false := by
        cases h : T.digit c with
        | false => rfl
        | true => rw [← T.digit_word c h]; exact hend c rfl
      rw [List.takeWhile_cons, List.dropWhile_cons, hc]
      exact ⟨rfl, rfl⟩
  have htake : (digits ++ t).takeWhile T.digit = digits := by
    rw [List.takeWhile_append_of_pos hd, hrest.1, List.append_nil]
  have hdrop : (digits ++ t).dropWhile T.digit = t := by
    rw [List.dropWhile_append_of_pos hd, hrest.2]
  have hall : t.head?.all (fun c => !T.word c) = true := by
    cases t with
    | nil => rfl
    | cons c t => simp [hend c rfl]
  unfold findParam
  simp only [htake, hdrop]
  rw [if_pos ⟨hne, hall⟩]

theorem findParam_miss {c : Char} (hc : c ≠ ':') : findParam T (c :: s) = none := by
  unfold findParam
  split
  · rename_i h
    exact absurd (List.cons.inj h).1 hc
  · rfl

theorem dollar_not_digit (T : CharTable) : T.digit '$' = false := by
  cases h : T.digit '$' with
  | false => rfl
  | true => rw [← T.digit_word '$' h]; exact T.dollar_not_word

/-- Where no word character follows in the result, none followed in the text. -/
theorem word_of_write (n : Numbering)
    (hend : ∀ c ∈ (n.write (Pattern.scan (param T) t)).head?, T.word c = false) {c : Char}
    (hc : c ∈ t.head?) : T.word c = false := by
  cases t with
  | nil => cases hc
  | cons b t =>
    cases hf : findParam T (b :: t) with
    | none =>
      rw [Pattern.scan_miss (p := param T) hf] at hend
      exact hend c hc
    | some key =>
      obtain ⟨_, _, _, ht, -⟩ := findParam_eq_some hf
      cases hc
      rw [(List.cons.inj ht).1]
      exact T.colon_not_word

/-- Letters other than a colon begin no placeholder. -/
theorem scan_past {w u : List Char} (hw : ∀ c ∈ w, c ≠ ':') :
    names (Pattern.scan (param T) (w ++ u)) = names (Pattern.scan (param T) u) := by
  induction w with
  | nil => rfl
  | cons c w ih =>
    have hmiss : (param T).find (c :: (w ++ u)) = none := findParam_miss (hw c List.mem_cons_self)
    rw [List.cons_append, Pattern.scan_miss hmiss]
    exact ih fun c hc => hw c (List.mem_cons_of_mem _ hc)

/-- **No placeholder `:pN` is left.** A colon of the result is one of the text, and where a name
follows it in the result it followed it in the text. -/
theorem scan_write_left (n : Numbering) (s : List Char) :
    names (Pattern.scan (param T) (n.write (Pattern.scan (param T) s))) = [] := by
  induction s using Pattern.scan_induct (param T) with
  | nil => rfl
  | miss a s h ih =>
    rw [Pattern.scan_miss h]
    have hmiss : (param T).find (a :: n.write (Pattern.scan (param T) s)) = none := by
      cases hf : findParam T (a :: n.write (Pattern.scan (param T) s)) with
      | none => exact hf
      | some key =>
        -- the same placeholder would have been in the text
        obtain ⟨digits, u, rfl, heq, hne, hd, hend⟩ := findParam_eq_some hf
        obtain ⟨rfl, htail⟩ := List.cons.inj heq
        have hw : '$' ∉ 'p' :: digits := by
          intro hm
          rcases List.mem_cons.mp hm with hp | hm
          · cases hp
          · have hdollar := hd _ hm
            rw [dollar_not_digit] at hdollar
            cases hdollar
        obtain ⟨t, rfl, rfl⟩ := write_scan_append n (w := 'p' :: digits) hw htail
        have hhit := findParam_hit (T := T) (t := t) hne hd fun c hc => word_of_write n hend hc
        exact absurd (hhit.symm.trans h) (by simp)
    show names (Pattern.scan (param T) (a :: n.write (Pattern.scan (param T) s))) = []
    rw [Pattern.scan_miss hmiss]
    exact ih
  | hit key t h ih =>
    rw [Pattern.scan_hit h]
    show names (Pattern.scan (param T) (positional (n.of key) ++ n.write _)) = []
    rw [scan_past, ih]
    intro c hc
    rcases List.mem_cons.mp hc with rfl | hc
    · decide
    · rintro rfl
      have hdigit := toDigits_isDigit _ _ hc
      cases hdigit

/-! ## `prepare` -/

/-- A text with the values in the place of its placeholders `$i`, which is what the database makes
of a prepared query. -/
def bindValues {ν : Type*} (values : List ν) (newSql : List Char) : List (Char ⊕ Option ν) :=
  (Pattern.scan positionals newSql).map
    (Sum.map id fun digits => values[Nat.ofDigitChars 10 digits 0 - 1]?)

/-- A text with the values in the place of its placeholders `:pN`. -/
def bindParams {ν : Type*} (T : CharTable) (params : List Char → ν) (sql : List Char) :
    List (Char ⊕ Option ν) :=
  (Pattern.scan (param T) sql).map (Sum.map id fun key => some (params key))

/-- The result means what the query did: `$1` to `$n` in the order of first appearance, one for each
name, no name left, and the same text and values when both are filled in. -/
structure Prepared {ν : Type*} (T : CharTable) (sql : List Char) (params : List Char → Option ν)
    (newSql : List Char) (values : List (Option ν)) : Prop where
  inOrder : (numbers newSql).eraseDups = List.range' 1 values.length
  byName : ∃ number : List Char → Nat,
    numbers newSql = (names (Pattern.scan (param T) sql)).map number ∧
      ∀ a ∈ names (Pattern.scan (param T) sql), ∀ b ∈ names (Pattern.scan (param T) sql),
        number a = number b → a = b
  noneLeft : names (Pattern.scan (param T) newSql) = []
  same : bindValues values newSql = bindParams T params sql

theorem names_map (f : List Char → List Char) (l : List (Char ⊕ List Char)) :
    names (l.map (Sum.map id f)) = (names l).map f := by
  unfold names
  rw [List.filterMap_map, List.map_filterMap]
  refine List.filterMap_congr fun x _ => ?_
  cases x <;> rfl

theorem numbers_write (n : Numbering) (hsql : '$' ∉ s) :
    numbers (n.write (Pattern.scan (param T) s)) = (names (Pattern.scan (param T) s)).map n.of := by
  unfold numbers
  rw [scan_write n hsql, names_map, List.map_map]
  refine List.map_congr_left fun key _ => ?_
  exact Nat.ofDigitChars_ten_toDigits

/-- **`prepare` keeps what a query with named parameters means**, for every text without a `$` and
every dictionary of values, those with names missing included. -/
theorem prepare_prepared {ν : Type*} (T : CharTable) (sql : List Char)
    (params : List Char → Option ν) (hsql : '$' ∉ sql) :
    Prepared T sql params (prepare T sql params).1 (prepare T sql params).2 := by
  have hnumbers := sub_numbers (Pattern.scan (param T) sql) .init
  have hnames := sub_names (Pattern.scan (param T) sql) .init
  have hout := sub_eq (Pattern.scan (param T) sql) .init
  unfold prepare
  generalize sub .init (Pattern.scan (param T) sql) = r at hnumbers hnames hout
  obtain ⟨newSql, n⟩ := r
  simp only at hnumbers hnames hout ⊢
  subst hout
  refine ⟨?_, ⟨n.of, numbers_write n hsql, ?_⟩, scan_write_left n sql, ?_⟩
  · rw [numbers_write n hsql, List.length_map]
    exact hnumbers
  · intro a ha b hb hab
    have hget := (hnames a ha).2
    rw [hab, (hnames b hb).2] at hget
    exact (Option.some.inj hget).symm
  · show (Pattern.scan positionals _).map _ = (Pattern.scan (param T) sql).map _
    rw [scan_write n hsql, List.map_map]
    refine List.map_congr_left fun x hx => ?_
    cases x with
    | inl c => rfl
    | inr key =>
      have hkey := hnames key (List.mem_filterMap.mpr ⟨.inr key, hx, rfl⟩)
      show Sum.inr (n.order.map params)[Nat.ofDigitChars 10 (Nat.toDigits 10 (n.of key)) 0 - 1]? =
        Sum.inr (some (params key))
      rw [Nat.ofDigitChars_ten_toDigits, List.getElem?_map, hkey.2]
      rfl

/-- The letters and digits of ASCII. -/
def asciiTable : CharTable where
  digit := Char.isDigit
  word c := c.isAlphanum || c == '_'
  digit_word c h := by simp [Char.isAlphanum, h]
  ascii_digit _ h := h
  colon_not_word := by decide
  dollar_not_word := by decide

/-- A name that comes twice, one that another begins with, a cast, and a name without a value. -/
theorem prepare_prepared_twice :
    let sql := ":p1, :p10, :p1::uuid".toList
    let params : List Char → Option Nat := fun key => if key = "p1".toList then some 7 else none
    prepare asciiTable sql params = ("$1, $2, $1::uuid".toList, [some 7, none]) ∧
      Prepared asciiTable sql params "$1, $2, $1::uuid".toList [some 7, none] := by
  have hsql : '$' ∉ ":p1, :p10, :p1::uuid".toList := by decide
  exact ⟨by decide, prepare_prepared asciiTable _ _ hsql⟩

end MessagesApp.Db
