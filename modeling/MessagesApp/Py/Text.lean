import Mathlib.Data.List.Basic
import Mathlib.Tactic.IntervalCases

/-!
# Numbers in Python text

What `int(s)`, `int(s, 16)` and `float(s)` accept, and the zero-padded decimal fields that
`'%02d'` writes. Texts are read as lists of code points.

`int` and `float` first replace every Unicode space by an ASCII one and every Unicode decimal
digit by its ASCII digit (`toAscii`); a code point that is neither makes the number malformed.
Then a sign, digits with single underscores between them, and for base 16 an `0x`. The settings of
the service and the limit of a list go through `int`, so that `" 5_000 "` is a port and `abc` is an
exception; a UUID goes through `int(s, 16)`.

`float` is here only as far as whether it raises (`floatOk`), since no modelled function uses the
number it gives. `lower` and `occursIn` are what the service does with the text of an error.

Left out are the letters outside ASCII that lower to ASCII, bases other than 10 and 16, and the
Unicode digits of versions later than the table has.
-/

set_option autoImplicit false

namespace Py

/-! ## Digits -/

def digitVal (c : Char) : Nat := c.toNat - 48

/-- The ASCII digit of `n % 10`. -/
def digit (n : Nat) : Char := Char.ofNat (48 + n % 10)

private theorem digit_lt (k : Fin 10) :
    (Char.ofNat (48 + k.val)).isDigit = true ∧ digitVal (Char.ofNat (48 + k.val)) = k.val := by
  revert k
  decide

@[simp] theorem isDigit_digit (n : Nat) : (digit n).isDigit = true :=
  (digit_lt ⟨n % 10, Nat.mod_lt _ (by decide)⟩).1

@[simp] theorem digitVal_digit (n : Nat) : digitVal (digit n) = n % 10 :=
  (digit_lt ⟨n % 10, Nat.mod_lt _ (by decide)⟩).2

/-- A digit is none of the separators a parser looks for. -/
theorem digit_ne {n : Nat} {c : Char} (h : c.isDigit = false) : digit n ≠ c := by
  rintro rfl
  simp at h

/-- `'%0wd' % n`, for `n` of at most `w` digits: as many digits as asked for, with zeros in
front. -/
def pad : Nat → Nat → List Char
  | 0, _ => []
  | w + 1, n => pad w (n / 10) ++ [digit n]

@[simp] theorem length_pad : ∀ w n, (pad w n).length = w
  | 0, _ => rfl
  | w + 1, n => by simp [pad, length_pad w]

/-- Exactly `n` ASCII digits, read after the value `acc`; `none` at any other character. The rest of
the text is given back. -/
def parseDigits : Nat → Nat → List Char → Option (Nat × List Char)
  | 0, acc, cs => some (acc, cs)
  | _ + 1, _, [] => none
  | n + 1, acc, c :: cs =>
      if c.isDigit then parseDigits n (acc * 10 + digitVal c) cs else none

theorem parseDigits_add : ∀ (m n acc : Nat) (cs : List Char),
    parseDigits (m + n) acc cs = (parseDigits m acc cs).bind fun r => parseDigits n r.1 r.2
  | 0, n, acc, cs => by simp [parseDigits]
  | m + 1, n, acc, [] => by rw [Nat.add_right_comm]; simp [parseDigits]
  | m + 1, n, acc, c :: cs => by
    rw [Nat.add_right_comm]
    simp only [parseDigits]
    split
    · exact parseDigits_add m n _ cs
    · rfl

/-- **A padded field is read back**, whatever stands behind it. By induction on the width, the last
digit being split off. -/
theorem parseDigits_pad : ∀ (w n acc : Nat) (rest : List Char), n < 10 ^ w →
    parseDigits w acc (pad w n ++ rest) = some (acc * 10 ^ w + n, rest)
  | 0, n, acc, rest, h => by
    have hn : n = 0 := by simpa using h
    simp [parseDigits, pad, hn]
  | w + 1, n, acc, rest, h => by
    have hdiv : n / 10 < 10 ^ w := Nat.div_lt_of_lt_mul (by rw [Nat.pow_succ] at h; omega)
    rw [parseDigits_add w 1, pad, List.append_assoc, parseDigits_pad w (n / 10) acc _ hdiv]
    simp only [Option.bind_some, List.singleton_append, parseDigits, isDigit_digit, if_true,
      digitVal_digit, Option.some.injEq, Prod.mk.injEq, and_true, Nat.pow_succ, Nat.add_mul]
    have := Nat.div_add_mod n 10
    rw [Nat.mul_assoc]
    omega

/-! ## Unicode spaces and digits -/

/-- `str.isspace` for one code point. -/
def isSpace (c : Char) : Bool :=
  let n := c.toNat
  (9 ≤ n && n ≤ 13) || (28 ≤ n && n ≤ 32) || n == 0x85 || n == 0xA0 || n == 0x1680 ||
  (0x2000 ≤ n && n ≤ 0x200A) || n == 0x2028 || n == 0x2029 || n == 0x202F || n == 0x205F ||
  n == 0x3000

/-- The code points of the digit zero in every script with decimal digits; each is followed by
its script's one to nine. -/
def decimalZeros : List Nat :=
  [0x30, 0x660, 0x6F0, 0x7C0, 0x966, 0x9E6, 0xA66, 0xAE6, 0xB66, 0xBE6, 0xC66, 0xCE6, 0xD66,
   0xDE6, 0xE50, 0xED0, 0xF20, 0x1040, 0x1090, 0x17E0, 0x1810, 0x1946, 0x19D0, 0x1A80, 0x1A90,
   0x1B50, 0x1BB0, 0x1C40, 0x1C50, 0xA620, 0xA8D0, 0xA900, 0xA9D0, 0xA9F0, 0xAA50, 0xABF0,
   0xFF10, 0x104A0, 0x10D30, 0x11066, 0x110F0, 0x11136, 0x111D0, 0x112F0, 0x11450, 0x114D0,
   0x11650, 0x116C0, 0x11730, 0x118E0, 0x11950, 0x11C50, 0x11D50, 0x11DA0, 0x11F50, 0x16A60,
   0x16AC0, 0x16B50, 0x1D7CE, 0x1D7D8, 0x1D7E2, 0x1D7EC, 0x1D7F6, 0x1E140, 0x1E2F0, 0x1E4F0,
   0x1E950, 0x1FBF0]

/-- One code point in the ASCII form `int` and `float` read; `none` where there is none. ASCII
itself is not changed, so that a letter is refused later. -/
def toAscii? (c : Char) : Option Char :=
  if c.toNat < 128 then some c
  else if isSpace c then some ' '
  else (decimalZeros.find? fun z => z ≤ c.toNat && c.toNat ≤ z + 9).map
    fun z => Char.ofNat (48 + (c.toNat - z))

def toAscii (s : List Char) : Option (List Char) := s.mapM toAscii?

/-- The C library's `isspace`, for the ASCII text `int` and `float` strip. -/
def isAsciiSpace (c : Char) : Bool :=
  let n := c.toNat
  (9 ≤ n && n ≤ 13) || n == 32

/-- `s.strip()` on ASCII text. -/
def strip (s : List Char) : List Char :=
  ((s.dropWhile isAsciiSpace).reverse.dropWhile isAsciiSpace).reverse

/-! ## Case and substrings -/

/-- `s.lower()`, as far as ASCII goes. The letters outside ASCII that lower to ASCII are the Kelvin
sign and the dotted capital I, which lower to `k` and to `i` with a mark; what the service looks
for in a lowered text has no `k`, and no `i` before a mark. -/
def lower (s : List Char) : List Char := s.map Char.toLower

/-- `pat in s`. -/
def occursIn (pat : List Char) (s : List Char) : Bool := s.tails.any fun t => pat.isPrefixOf t

/-! ## `int` -/

/-- The value of a digit in base 16; `none` for any other character. -/
def hexVal? (c : Char) : Option Nat :=
  if c.isDigit then some (c.toNat - 48)
  else if 'a' ≤ c ∧ c ≤ 'f' then some (c.toNat - 87)
  else if 'A' ≤ c ∧ c ≤ 'F' then some (c.toNat - 55)
  else none

def decVal? (c : Char) : Option Nat := if c.isDigit then some (digitVal c) else none

/-- Digits with single underscores between them; `open_` says that a digit must follow, at the start
and after an underscore. `none` is the `ValueError`. -/
def parseGrouped (val? : Char → Option Nat) (base : Nat) : Bool → Nat → List Char → Option Nat
  | open_, acc, [] => if open_ then none else some acc
  | open_, acc, c :: cs =>
      if c = '_' then (if open_ then none else parseGrouped val? base true acc cs)
      else (val? c).bind fun v => parseGrouped val? base false (acc * base + v) cs

def splitSign : List Char → Bool × List Char
  | '+' :: cs => (false, cs)
  | '-' :: cs => (true, cs)
  | cs => (false, cs)

/-- The digits of `s` after its `0x`, if it has one: one underscore may stand between them. -/
def dropHexPrefix : List Char → List Char
  | '0' :: x :: cs =>
      if x = 'x' ∨ x = 'X' then (match cs with | '_' :: cs' => cs' | _ => cs) else '0' :: x :: cs
  | cs => cs

/-- `int(s, 16)`; `none` is the `ValueError`. -/
def int16 (s : List Char) : Option Int :=
  (toAscii s).bind fun a =>
    let (neg, ds) := splitSign (strip a)
    (parseGrouped hexVal? 16 true 0 (dropHexPrefix ds)).map fun n => if neg then -n else n

/-- The number of decimal digits `int` converts before it raises. -/
def intMaxStrDigits : Nat := 4300

/-- `int(s)`; `none` is the `ValueError`, which is also raised for a text of more than
`intMaxStrDigits` digits. -/
def int (s : List Char) : Option Int :=
  (toAscii s).bind fun a =>
    let (neg, ds) := splitSign (strip a)
    if intMaxStrDigits < (ds.filter Char.isDigit).length then none
    else (parseGrouped decVal? 10 true 0 ds).map fun n => if neg then -n else n

/-! ## `float` -/

/-- Every underscore stands between two digits, which is what `float` asks before it takes them
out. -/
def underscoresOk : Option Char → List Char → Bool
  | prev, '_' :: c :: cs =>
      (prev.map Char.isDigit).getD false && c.isDigit && underscoresOk (some c) cs
  | _, ['_'] => false
  | _, c :: cs => underscoresOk (some c) cs
  | _, [] => true

/-- `digits`, or `digits` and an exponent. -/
def exponentOk (s : List Char) : Bool :=
  match s with
  | [] => true
  | e :: cs => (e == 'e' || e == 'E') &&
      (let ds := (splitSign cs).2; !ds.isEmpty && ds.all Char.isDigit)

/-- An unsigned decimal number: digits, a fraction, an exponent, at least one digit before it. -/
def decimalOk (s : List Char) : Bool :=
  let whole := s.takeWhile Char.isDigit
  match s.dropWhile Char.isDigit with
  | '.' :: cs =>
      let frac := cs.takeWhile Char.isDigit
      !(whole.isEmpty && frac.isEmpty) && exponentOk (cs.dropWhile Char.isDigit)
  | cs => !whole.isEmpty && exponentOk cs

/-- `float(s)` does not raise: a decimal number, or an infinity or `nan` in any case, with blanks
around it. -/
def floatOk (s : List Char) : Bool :=
  match toAscii s with
  | none => false
  | some a =>
      let t := strip a
      let u := (splitSign (t.filter (· ≠ '_'))).2
      underscoresOk none t &&
        (decimalOk u ||
          (!t.contains '_' &&
            ["inf", "infinity", "nan"].any fun w => w.toList == u.map Char.toLower))

end Py
