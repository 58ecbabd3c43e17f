import MessagesApp.Py.Text
import Mathlib.Order.Lattice
import Mathlib.Data.List.TakeWhile
import Mathlib.Algebra.Group.Basic

/-!
# `uuid.UUID`

A UUID is a 128-bit number, written as 32 hexadecimal digits in five groups and compared as a
number (which is also how PostgreSQL compares the sixteen bytes). `UUID(s)` accepts far more than
`str` writes: braces, a `urn:uuid:` prefix, hyphens anywhere, and whatever `int(s, 16)` reads.

`UUID.parse` follows the constructor's lines: it removes `urn:` and `uuid:` wherever they are,
strips braces, removes every hyphen, asks for 32 characters and reads them as a number in base 16.
Two texts may so be one UUID, and a sign or an underscore may be one of the 32.

`UUID.parse_str` says that what was written is read back, step by step: none of the removals takes
a character of it, and the digits are read as the number (`int16_hexPad`). `UUID.str_injective`
follows, which is why a text may be a key of the cache and of a page. Versions and variants of
UUIDs are left out, as the service asks for none.
-/

set_option autoImplicit false

namespace Py

/-- A UUID as the number it is, with the bound that makes it one. Equality and order are those of
the numbers. -/
structure UUID where
  int : Nat
  lt : int < 2 ^ 128
deriving DecidableEq

theorem UUID.int_injective : Function.Injective UUID.int := by
  rintro ⟨a, ha⟩ ⟨b, hb⟩ h
  simp only at h
  subst h
  rfl

instance : LinearOrder UUID := LinearOrder.lift' UUID.int UUID.int_injective

/-! ## Writing -/

/-- The lower-case hexadecimal digit of `n % 16`. -/
def hexDigit (n : Nat) : Char := Nat.digitChar (n % 16)

/-- `'%0wx' % n`, for `n` of at most `w` digits. -/
def hexPad : Nat → Nat → List Char
  | 0, _ => []
  | w + 1, n => hexPad w (n / 16) ++ [hexDigit n]

/-- `u.hex`. -/
def UUID.hex (u : UUID) : List Char := hexPad 32 u.int

/-- The digits in groups of 8, 4, 4, 4 and 12. -/
def hyphenate (h : List Char) : List Char :=
  h.take 8 ++ '-' :: ((h.drop 8).take 4 ++ '-' :: ((h.drop 12).take 4 ++
    '-' :: ((h.drop 16).take 4 ++ '-' :: h.drop 20)))

/-- `str(u)`: the digits in five groups, in lower case. -/
def UUID.str (u : UUID) : List Char := hyphenate u.hex

/-! ## Reading -/

/-- `s.replace(pat, '')`, for a `pat` that is not empty; the number counts the characters of a match
still to be skipped. Matches do not overlap. -/
def removeAll (pat : List Char) : Nat → List Char → List Char
  | _, [] => []
  | k + 1, _ :: cs => removeAll pat k cs
  | 0, c :: cs =>
      if pat.isPrefixOf (c :: cs) then removeAll pat (pat.length - 1) cs
      else c :: removeAll pat 0 cs

def isBrace (c : Char) : Bool := c == '{' || c == '}'

/-- `s.strip('{}')`. -/
def stripBraces (s : List Char) : List Char :=
  ((s.dropWhile isBrace).reverse.dropWhile isBrace).reverse

/-- `uuid.UUID(s)`; `none` is the `ValueError`. The length is that of what is left of the text when
prefixes, braces and hyphens are gone. -/
def UUID.parse (s : List Char) : Option UUID :=
  let s := removeAll ['u', 'u', 'i', 'd', ':'] 0 (removeAll ['u', 'r', 'n', ':'] 0 s)
  let s := (stripBraces s).filter (· ≠ '-')
  if s.length ≠ 32 then none
  else
    (int16 s).bind fun n =>
      if h : 0 ≤ n ∧ n.toNat < 2 ^ 128 then some ⟨n.toNat, h.2⟩ else none

/-! ## Reading back what was written -/

private theorem hexDigit_fin (k : Fin 16) :
    hexVal? (Nat.digitChar k.val) = some k.val ∧ (Nat.digitChar k.val).toNat < 128 ∧
      isAsciiSpace (Nat.digitChar k.val) = false ∧ isBrace (Nat.digitChar k.val) = false ∧
      Nat.digitChar k.val ∉ ['-', '+', '_', 'x', 'X', 'u', '|'] := by
  revert k
  decide

/-- All that is used of a character written by `hexDigit`. -/
theorem hexDigit_spec (n : Nat) :
    hexVal? (hexDigit n) = some (n % 16) ∧ (hexDigit n).toNat < 128 ∧
      isAsciiSpace (hexDigit n) = false ∧ isBrace (hexDigit n) = false ∧
      ∀ c ∈ ['-', '+', '_', 'x', 'X', 'u', '|'], hexDigit n ≠ c := by
  obtain ⟨hval, hascii, hspace, hbrace, hmarks⟩ := hexDigit_fin ⟨n % 16, Nat.mod_lt _ (by decide)⟩
  refine ⟨hval, hascii, hspace, hbrace, fun c hc he => hmarks ?_⟩
  rw [← he] at hc
  exact hc

@[simp] theorem length_hexPad : ∀ w n, (hexPad w n).length = w
  | 0, _ => rfl
  | w + 1, n => by simp [hexPad, length_hexPad w]

theorem mem_hexPad {c : Char} : ∀ {w n : Nat}, c ∈ hexPad w n → ∃ k, c = hexDigit k
  | 0, _, h => by simp [hexPad] at h
  | w + 1, n, h => by
    rw [hexPad, List.mem_append, List.mem_singleton] at h
    rcases h with h | rfl
    · exact mem_hexPad h
    · exact ⟨n, rfl⟩

theorem parseGrouped_hexPad : ∀ (w n acc : Nat) (o : Bool) (rest : List Char), n < 16 ^ w →
    parseGrouped hexVal? 16 o acc (hexPad w n ++ rest) =
      parseGrouped hexVal? 16 (if w = 0 then o else false) (acc * 16 ^ w + n) rest
  | 0, n, acc, o, rest, h => by
    have hn : n = 0 := by simpa using h
    simp [hexPad, hn]
  | w + 1, n, acc, o, rest, h => by
    have hdiv : n / 16 < 16 ^ w := Nat.div_lt_of_lt_mul (by rw [Nat.pow_succ] at h; omega)
    obtain ⟨hv, -, -, -, hne⟩ := hexDigit_spec n
    rw [hexPad, List.append_assoc, parseGrouped_hexPad w _ acc o _ hdiv]
    simp only [List.singleton_append, parseGrouped, if_neg (hne '_' (by simp)), hv,
      Option.bind_some, Nat.add_eq_zero_iff, one_ne_zero, and_false, if_false]
    congr 1
    have := Nat.div_add_mod n 16
    rw [Nat.add_mul, Nat.pow_succ, Nat.mul_assoc]
    omega

/-- Text in which no pattern can start is not changed by removing the pattern. -/
theorem removeAll_of_not_mem {p : Char} {pat : List Char} :
    ∀ {s : List Char}, p ∉ s → removeAll (p :: pat) 0 s = s
  | [], _ => rfl
  | c :: cs, h => by
    rw [List.mem_cons, not_or] at h
    obtain ⟨hc, hcs⟩ := h
    have hpre : (p :: pat).isPrefixOf (c :: cs) = false := by
      simp [List.isPrefixOf, hc]
    simp [removeAll, hpre, removeAll_of_not_mem hcs]

theorem stripBraces_of_not_mem {s : List Char} (h : ∀ c ∈ s, isBrace c = false) :
    stripBraces s = s := by
  have hdrop : ∀ l : List Char, (∀ c ∈ l, isBrace c = false) → l.dropWhile isBrace = l := by
    intro l hl
    rw [List.dropWhile_eq_self_iff]
    intro hpos
    simp [hl _ (List.getElem_mem hpos)]
  rw [stripBraces, hdrop s h, hdrop _ fun c hc => h c (List.mem_reverse.mp hc),
    List.reverse_reverse]

theorem strip_of_not_mem {s : List Char} (h : ∀ c ∈ s, isAsciiSpace c = false) :
    strip s = s := by
  have hdrop : ∀ l : List Char, (∀ c ∈ l, isAsciiSpace c = false) →
      l.dropWhile isAsciiSpace = l := by
    intro l hl
    rw [List.dropWhile_eq_self_iff]
    intro hpos
    simp [hl _ (List.getElem_mem hpos)]
  rw [strip, hdrop s h, hdrop _ fun c hc => h c (List.mem_reverse.mp hc), List.reverse_reverse]

theorem toAscii_of_ascii {s : List Char} (h : ∀ c ∈ s, c.toNat < 128) : toAscii s = some s := by
  induction s with
  | nil => rfl
  | cons c cs ih =>
    have hc : toAscii? c = some c := if_pos (h c List.mem_cons_self)
    have := ih fun c hc => h c (List.mem_cons_of_mem _ hc)
    rw [toAscii] at this ⊢
    simp [List.mapM_cons, hc, this]

/-- `int(h, 16)` of hexadecimal digits alone. -/
theorem int16_hexPad {w n : Nat} (hw : 0 < w) (h : n < 16 ^ w) :
    int16 (hexPad w n) = some (n : Int) := by
  have hmem : ∀ c ∈ hexPad w n, ∃ k, c = hexDigit k := fun c hc => mem_hexPad hc
  have hascii : toAscii (hexPad w n) = some (hexPad w n) :=
    toAscii_of_ascii fun c hc => by
      obtain ⟨k, rfl⟩ := hmem c hc
      exact (hexDigit_spec k).2.1
  have hstrip : strip (hexPad w n) = hexPad w n :=
    strip_of_not_mem fun c hc => by
      obtain ⟨k, rfl⟩ := hmem c hc
      exact (hexDigit_spec k).2.2.1
  have hval := parseGrouped_hexPad w n 0 true [] h
  rw [List.append_nil, if_neg (by omega)] at hval
  have hsign : splitSign (hexPad w n) = (false, hexPad w n) := by
    cases hl : hexPad w n with
    | nil => rfl
    | cons c cs =>
      obtain ⟨k, rfl⟩ := hmem c (by simp [hl])
      have hne := (hexDigit_spec k).2.2.2.2
      unfold splitSign
      split
      · rename_i heq
        exact absurd (List.cons.inj heq).1 (hne '+' (by simp))
      · rename_i heq
        exact absurd (List.cons.inj heq).1 (hne '-' (by simp))
      · rfl
  have hprefix : dropHexPrefix (hexPad w n) = hexPad w n := by
    unfold dropHexPrefix
    split
    · rename_i x cs heq
      obtain ⟨k, rfl⟩ := hmem x (by simp [heq])
      have hne := (hexDigit_spec k).2.2.2.2
      rw [if_neg (by simp [hne 'x', hne 'X'])]
      exact heq.symm
    · rfl
  simp [int16, hascii, hstrip, hsign, hprefix, hval, parseGrouped]

theorem groups_eq (h : List Char) :
    h.take 8 ++ ((h.drop 8).take 4 ++ ((h.drop 12).take 4 ++ ((h.drop 16).take 4 ++
      h.drop 20))) = h := by
  have h₁ := List.take_append_drop 4 (h.drop 16)
  have h₂ := List.take_append_drop 4 (h.drop 12)
  have h₃ := List.take_append_drop 4 (h.drop 8)
  rw [List.drop_drop] at h₁ h₂ h₃
  rw [h₁, h₂, h₃, List.take_append_drop]

theorem mem_hyphenate {c : Char} {h : List Char} (hc : c ∈ hyphenate h) : c ∈ h ∨ c = '-' := by
  simp only [hyphenate, List.mem_append, List.mem_cons] at hc
  rcases hc with hc | rfl | hc | rfl | hc | rfl | hc | rfl | hc
  · exact Or.inl (List.mem_of_mem_take hc)
  · exact Or.inr rfl
  · exact Or.inl (List.mem_of_mem_drop (List.mem_of_mem_take hc))
  · exact Or.inr rfl
  · exact Or.inl (List.mem_of_mem_drop (List.mem_of_mem_take hc))
  · exact Or.inr rfl
  · exact Or.inl (List.mem_of_mem_drop (List.mem_of_mem_take hc))
  · exact Or.inr rfl
  · exact Or.inl (List.mem_of_mem_drop hc)

theorem filter_hyphenate {h : List Char} (hh : '-' ∉ h) :
    (hyphenate h).filter (· ≠ '-') = h := by
  have hkeep : ∀ l : List Char, l ⊆ h → l.filter (· ≠ '-') = l := by
    intro l hl
    rw [List.filter_eq_self]
    intro c hc
    have : c ≠ '-' := fun he => hh (he ▸ hl hc)
    simpa using this
  have htake : ∀ m n, ((h.drop m).take n) ⊆ h :=
    fun m n c hc => List.mem_of_mem_drop (List.mem_of_mem_take hc)
  have hdrop : ∀ m, h.drop m ⊆ h := fun m c hc => List.mem_of_mem_drop hc
  rw [hyphenate, List.filter_append, List.filter_cons_of_neg (by simp), List.filter_append,
    List.filter_cons_of_neg (by simp), List.filter_append, List.filter_cons_of_neg (by simp),
    List.filter_append, List.filter_cons_of_neg (by simp),
    hkeep _ (fun c hc => List.mem_of_mem_take hc), hkeep _ (htake 8 4), hkeep _ (htake 12 4),
    hkeep _ (htake 16 4), hkeep _ (hdrop 20), groups_eq]

/-- Every character of `str(u)` is a hexadecimal digit or a hyphen. -/
theorem UUID.mem_str {u : UUID} {c : Char} (hc : c ∈ u.str) :
    (∃ k, c = hexDigit k) ∨ c = '-' :=
  (mem_hyphenate hc).imp mem_hexPad id

/-- **`UUID(str(u))` is `u`.** No prefix, brace or other hyphen is in what was written, and its 32
digits are the number. -/
theorem UUID.parse_str (u : UUID) : UUID.parse u.str = some u := by
  have hu : 'u' ∉ u.str := by
    intro hc
    rcases UUID.mem_str hc with ⟨k, hk⟩ | hk
    · exact (hexDigit_spec k).2.2.2.2 'u' (by simp) hk.symm
    · exact absurd hk (by decide)
  have hbrace : ∀ c ∈ u.str, isBrace c = false := by
    intro c hc
    rcases UUID.mem_str hc with ⟨k, rfl⟩ | rfl
    · exact (hexDigit_spec k).2.2.2.1
    · rfl
  have hdash : '-' ∉ u.hex := by
    intro hc
    obtain ⟨k, hk⟩ := mem_hexPad hc
    exact (hexDigit_spec k).2.2.2.2 '-' (by simp) hk.symm
  have hlt : u.int < 16 ^ 32 := by
    have hpow : (16 : Nat) ^ 32 = 2 ^ 128 := by rw [show (16 : Nat) = 2 ^ 4 from rfl, ← pow_mul]
    rw [hpow]
    exact u.lt
  have hfit : 0 ≤ (u.int : Int) ∧ (u.int : Int).toNat < 2 ^ 128 := by
    rw [Int.toNat_natCast]
    exact ⟨Int.natCast_nonneg _, u.lt⟩
  unfold UUID.parse
  simp only [removeAll_of_not_mem hu, stripBraces_of_not_mem hbrace]
  rw [UUID.str, filter_hyphenate hdash, UUID.hex, length_hexPad, int16_hexPad (by decide) hlt,
    if_neg (by simp), Option.bind_some, dif_pos hfit]
  rfl

/-- Two UUIDs that are written alike are one, since the text is read back. -/
theorem UUID.str_injective : Function.Injective UUID.str := by
  intro u v h
  have hu := UUID.parse_str u
  rw [h, UUID.parse_str] at hu
  exact (Option.some.inj hu).symm

end Py
