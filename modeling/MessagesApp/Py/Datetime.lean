import MessagesApp.Py.Text
import Mathlib.Order.Lattice
import Mathlib.Order.Basic
import Mathlib.Data.List.TakeWhile

/-!
# `datetime.datetime`

A naive `datetime` carries its own validity, so an impossible date cannot be built. `isoformat`
and `str` write it; `fromisoformat` reads every spelling CPython accepts (basic and extended
dates, ISO weeks, fractions of any length, offsets), and reads back what the two wrote.

The reader follows CPython's C code (`_datetimemodule.c` of 3.11 and 3.12), including the places
where it is more liberal than its documentation: the character between date and time is arbitrary,
and a separator that ends the time part is accepted when an offset follows. It follows it in what a
length is, too. The C code looks at the bytes of the text in UTF-8, so that a character that takes
two of them is never "the one behind the last field", and `…T12:00:00éZ` is refused; `utf8` gives
these bytes, and everything below it counts them.

`fromisoformat_isoformatSep` is what the cursors and the pages rest on. It goes from the end: the
fraction, the clock (`parseClock_clock`), the date, and the place where the two are separated.

Leap seconds, time zones by name and `fold` are left out, since no `isoformat` of the service has
them; the offset of an aware datetime is kept only to tell it from a naive one.
-/

set_option autoImplicit false

namespace Py

/-! ## The proleptic Gregorian calendar -/

def isLeap (y : Nat) : Bool := y % 4 == 0 && (y % 100 != 0 || y % 400 == 0)

def daysInMonth (y m : Nat) : Nat :=
  if m = 2 then (if isLeap y then 29 else 28)
  else if m = 4 ∨ m = 6 ∨ m = 9 ∨ m = 11 then 30 else 31

/-- Days of the year before the first of month `m`. -/
def daysBeforeMonth (y m : Nat) : Nat :=
  ((List.range (m - 1)).map fun k => daysInMonth y (k + 1)).sum

/-- `date(y, m, d).toordinal()`. -/
def ymdToOrd (y m d : Nat) : Nat :=
  (y - 1) * 365 + (y - 1) / 4 - (y - 1) / 100 + (y - 1) / 400 + daysBeforeMonth y m + d

/-- The year of day number `n`, counted from zero at 0001-01-01, and the days into it. `ord_to_ymd`:
by cycles of 400, 100, 4 and 1 years. -/
def yearOfDay (n : Nat) : Nat × Nat :=
  let n400 := n / 146097
  let n := n % 146097
  let n100 := n / 36524
  let n := n % 36524
  let n4 := n / 1461
  let n := n % 1461
  let n1 := n / 365
  let year := n400 * 400 + 1 + n100 * 100 + n4 * 4 + n1
  -- the last day of a cycle of four or four hundred years falls past its last year
  if n1 = 4 ∨ n100 = 4 then (year - 1, 365) else (year, n % 365)

/-- `date.fromordinal(ord)` as year, month and day. -/
def ordToYmd (ord : Nat) : Nat × Nat × Nat :=
  let (y, n) := yearOfDay (ord - 1)
  let m := ((List.range 12).filter fun k => daysBeforeMonth y (k + 1) ≤ n).length
  (y, m, n - daysBeforeMonth y m + 1)

def weekday (y m d : Nat) : Nat := (ymdToOrd y m d + 6) % 7

/-- The day number of the Monday of ISO week 1. -/
def isoWeek1Monday (y : Nat) : Nat :=
  let first := ymdToOrd y 1 1
  let wd := (first + 6) % 7
  if 3 < wd then first - wd + 7 else first - wd

/-- An ISO year, week and day as a calendar date; `none` for a week the year does not have, or a day
that is none of the seven. -/
def isoToYmd (y w d : Nat) : Option (Nat × Nat × Nat) :=
  let wd := weekday y 1 1
  if y < 1 ∨ 9999 < y then none
  else if w = 0 ∨ 53 < w ∨ (w = 53 ∧ ¬ (wd = 3 ∨ (wd = 2 ∧ isLeap y = true))) then none
  else if d = 0 ∨ 7 < d then none
  else some (ordToYmd (isoWeek1Monday y + (w - 1) * 7 + d - 1))

/-! ## The type -/

def ValidDateTime (y mo d h mi s us : Nat) : Prop :=
  1 ≤ y ∧ y ≤ 9999 ∧ 1 ≤ mo ∧ mo ≤ 12 ∧ 1 ≤ d ∧ d ≤ daysInMonth y mo ∧
    h < 24 ∧ mi < 60 ∧ s < 60 ∧ us < 1000000

instance (y mo d h mi s us : Nat) : Decidable (ValidDateTime y mo d h mi s us) := by
  unfold ValidDateTime
  infer_instance

/-- A naive `datetime.datetime`. The fields are in their ranges, the day in that of its month, as
the constructor makes sure. -/
structure DateTime where
  year : Nat
  month : Nat
  day : Nat
  hour : Nat
  minute : Nat
  second : Nat
  microsecond : Nat
  valid : ValidDateTime year month day hour minute second microsecond
deriving DecidableEq

theorem daysInMonth_le (y m : Nat) : daysInMonth y m ≤ 31 := by
  unfold daysInMonth
  split <;> split <;> omega

/-- The fields as one number that grows with time. The order of datetimes is that of their ranks,
which is how PostgreSQL compares timestamps and Python naive datetimes. -/
def DateTime.rank (t : DateTime) : Nat :=
  (((((t.year * 13 + t.month) * 32 + t.day) * 24 + t.hour) * 60 + t.minute) * 60 + t.second)
    * 1000000 + t.microsecond

theorem DateTime.rank_injective : Function.Injective DateTime.rank := by
  rintro ⟨y, mo, d, h, mi, s, us, hv⟩ ⟨y', mo', d', h', mi', s', us', hv'⟩ hr
  simp only [rank] at hr
  obtain ⟨-, -, -, hmo, -, hd, hh, hmi, hs, hus⟩ := hv
  obtain ⟨-, -, -, hmo', -, hd', hh', hmi', hs', hus'⟩ := hv'
  have hd31 := hd.trans (daysInMonth_le y mo)
  have hd31' := hd'.trans (daysInMonth_le y' mo')
  have h₁ : us = us' := by omega
  have h₂ : s = s' := by omega
  have h₃ : mi = mi' := by omega
  have h₄ : h = h' := by omega
  have h₅ : d = d' := by omega
  have h₆ : mo = mo' := by omega
  have h₇ : y = y' := by omega
  subst h₁ h₂ h₃ h₄ h₅ h₆ h₇
  rfl

instance : LinearOrder DateTime := LinearOrder.lift' DateTime.rank DateTime.rank_injective

/-- A UTC offset in microseconds. -/
abbrev UtcOffset := Int

/-- What `fromisoformat` returns: a naive datetime, or an aware one with its offset. The two are one
type in Python, and asyncpg refuses an aware one for a `timestamp` column. -/
structure ParsedDateTime where
  naive : DateTime
  offset : Option UtcOffset
deriving DecidableEq

/-! ## Writing -/

def pad2 (n : Nat) : List Char := pad 2 n
def pad4 (n : Nat) : List Char := pad 4 n
def pad6 (n : Nat) : List Char := pad 6 n

/-- `'.%06d'`, written only for a fraction that is not zero. -/
def fraction (us : Nat) : List Char := if us = 0 then [] else '.' :: pad6 us

def clock (t : DateTime) : List Char :=
  pad2 t.hour ++ ':' :: (pad2 t.minute ++ ':' :: (pad2 t.second ++ fraction t.microsecond))

/-- `t.isoformat(sep)` of a naive datetime. -/
def isoformatSep (sep : Char) (t : DateTime) : List Char :=
  pad4 t.year ++ '-' :: (pad2 t.month ++ '-' :: (pad2 t.day ++ sep :: clock t))

/-- `t.isoformat()`. -/
def isoformat (t : DateTime) : List Char := isoformatSep 'T' t

/-- `str(t)`. -/
def strDateTime (t : DateTime) : List Char := isoformatSep ' ' t

/-! ## Reading -/

/-- The text as the C code has it, from `PyUnicode_AsUTF8AndSize`: its bytes in UTF-8, each as the
character of its number. Every length and position of the reader counts these, so a character that
takes several is never the one that may follow the last field of a clock. -/
def utf8 (cs : List Char) : List Char :=
  cs.flatMap fun c => (String.utf8EncodeChar c).map fun b => Char.ofNat b.toNat

/-- Behind the character between date and time, whose first byte says how many it has. -/
def skipSeparator : List Char → List Char
  | [] => []
  | b :: bs =>
      if b.toNat < 0x80 then bs
      else if b.toNat / 0x10 = 0xe then bs.drop 2
      else if b.toNat / 0x10 = 0xf then bs.drop 3
      else bs.drop 1

/-- The C code reads one byte past the end of the text, a NUL. -/
def atNul : List Char → Bool
  | [] => true
  | c :: _ => c == '\x00'

/-- Where the character between date and time stands; `none` where no date can be read.
`_find_isoformat_datetime_separator`, branch by branch: it goes by the length and by where dashes
and a `W` stand. -/
def findSeparator (cs : List Char) : Option Nat :=
  let len := cs.length
  if len = 7 then some 7
  else if cs[4]? = some '-' then
    if cs[5]? = some 'W' then
      if len < 8 then none
      else if 8 < len ∧ cs[8]? = some '-' then
        if len = 9 then none
        else if (cs[10]?.map Char.isDigit).getD false then some 8 else some 10
      else some 8
    else some 10
  else if cs[4]? = some 'W' then
    let pos := 7 + ((cs.drop 7).takeWhile Char.isDigit).length
    if pos < 9 then some pos else if pos % 2 = 0 then some 7 else some 8
  else some 8

/-- A dash, if the date is written with dashes. -/
def eatDash (dash : Bool) (cs : List Char) : Option (List Char) :=
  if dash then (match cs with | '-' :: cs' => some cs' | _ => none) else some cs

/-- The date at the start of `cs`, which ends at position `sep`: a calendar date, or an ISO week
with or without its day, with dashes at all places or at none. -/
def parseDate (cs : List Char) (sep : Nat) : Option (Nat × Nat × Nat) :=
  (parseDigits 4 0 cs).bind fun (y, p) =>
    let dash := p.head? == some '-'
    let p := if dash then p.tail else p
    match p with
    | 'W' :: p =>
        (parseDigits 2 0 p).bind fun (w, p) =>
          if cs.length - p.length < sep then
            (eatDash dash p).bind fun p =>
              (parseDigits 1 0 p).bind fun (d, _) => isoToYmd y w d
          else isoToYmd y w 1
    | p =>
        (parseDigits 2 0 p).bind fun (m, p) =>
          (eatDash dash p).bind fun p => (parseDigits 2 0 p).map fun (d, _) => (y, m, d)

/-- The digits of a fraction that ends `stop` characters before the end of `cs`. Digits after the
sixth are skipped; the flag says that something follows them. -/
def parseFraction (cs : List Char) (stop : Nat) : Option (Bool × Nat) :=
  let n := min 6 (cs.length - stop)
  (parseDigits n 0 cs).map fun (v, p) =>
    (!atNul (p.dropWhile Char.isDigit), v * 10 ^ (6 - n))

/-- The fields `k ≤ 3` still to read of `HH[:?MM[:?SS]]`, then the fraction. `stop` characters of
`cs` lie beyond the end of this part; the flag says that reading did not stop at a NUL. Whether
there are colons is decided at the first place where there may be one. -/
def parseClock (stop : Nat) : Nat → Bool → List Nat → List Char → Option (Bool × List Nat × Nat)
  | 0, _, vals, cs => (parseFraction cs stop).map fun (r, us) => (r, vals, us)
  | k + 1, colon, vals, cs =>
      (parseDigits 2 0 cs).bind fun (v, p) =>
        let vals := vals ++ [v]
        let colon := if vals.length = 1 then p.head? == some ':' else colon
        if p.length ≤ stop + 1 then some (!atNul p, vals, 0)
        else
          match p with
          | c :: p' =>
              if colon && c == ':' then parseClock stop k colon vals p'
              else if c == '.' || c == ',' then
                (parseFraction p' stop).map fun (r, us) => (r, vals, us)
              else if !colon then parseClock stop k colon vals p
              else none
          | [] => none

/-- Hour, minute and second, zero where the text gave none. -/
def hms (vals : List Nat) : Nat × Nat × Nat :=
  (vals.getD 0 0, vals.getD 1 0, vals.getD 2 0)

def isZoneStart (c : Char) : Bool := c == '+' || c == '-' || c == 'Z'

/-- A zone: `Z`, or a sign and an offset of less than a day. -/
def parseZone (cs : List Char) : Option UtcOffset :=
  match cs with
  | 'Z' :: p => if atNul p then some 0 else none
  | sign :: p =>
      (parseClock 0 3 false [] p).bind fun (more, vals, us) =>
        if more then none
        else
          let (h, mi, s) := hms vals
          let secs := h * 3600 + mi * 60 + s
          if secs = 0 then some 0
          else
            let off : Int := secs * 1000000 + us
            if off < 86400 * 1000000 then some (if sign = '-' then -off else off) else none
  | [] => none

/-- The time part: a clock up to the first character that starts a zone, and the zone, if there is
one. Without a zone, nothing may be left behind the clock. -/
def parseTime (cs : List Char) : Option ((Nat × Nat × Nat) × Nat × Option UtcOffset) :=
  let zone := cs.dropWhile fun c => !isZoneStart c
  (parseClock zone.length 3 false [] cs).bind fun (more, vals, us) =>
    match zone with
    | [] => if more then none else some (hms vals, us, none)
    | _ => (parseZone zone).map fun off => (hms vals, us, some off)

/-- The constructor: a `ValueError` for a field out of range. -/
def mkDateTime (ymd hms : Nat × Nat × Nat) (us : Nat) : Option DateTime :=
  if h : ValidDateTime ymd.1 ymd.2.1 ymd.2.2 hms.1 hms.2.1 hms.2.2 us then
    some ⟨ymd.1, ymd.2.1, ymd.2.2, hms.1, hms.2.1, hms.2.2, us, h⟩
  else none

/-- `datetime.fromisoformat(s)`; `none` is the `ValueError`. The text must have seven characters
before its bytes are looked at; from there on bytes are counted. -/
def fromisoformat (cs : List Char) : Option ParsedDateTime :=
  if cs.length < 7 then none
  else
    let bs := utf8 cs
    (findSeparator bs).bind fun sep =>
      (parseDate bs sep).bind fun ymd =>
        match bs.drop sep with
        | [] => (mkDateTime ymd (0, 0, 0) 0).map fun t => ⟨t, none⟩
        | rest =>
            (parseTime (skipSeparator rest)).bind fun (hms, us, off) =>
              (mkDateTime ymd hms us).map fun t => ⟨t, off⟩

/-! ## Reading back what was written -/

theorem pad2_eq (n : Nat) : pad2 n = [digit (n / 10), digit n] := rfl

theorem pad4_eq (n : Nat) :
    pad4 n = [digit (n / 10 / 10 / 10), digit (n / 10 / 10), digit (n / 10), digit n] := rfl

theorem parseDigits_pad2 {n : Nat} (h : n < 100) (rest : List Char) :
    parseDigits 2 0 (pad2 n ++ rest) = some (n, rest) := by
  have := parseDigits_pad 2 n 0 rest (by simpa using h)
  simpa [pad2] using this

theorem parseDigits_pad4 {n : Nat} (h : n < 10000) (rest : List Char) :
    parseDigits 4 0 (pad4 n ++ rest) = some (n, rest) := by
  have := parseDigits_pad 4 n 0 rest (by simpa using h)
  simpa [pad4] using this

theorem parseFraction_pad6 {us : Nat} (h : us < 1000000) :
    parseFraction (pad6 us) 0 = some (false, us) := by
  have hp := parseDigits_pad 6 us 0 [] (by simpa using h)
  simp only [List.append_nil] at hp
  simp [parseFraction, pad6, hp, atNul]

/-- Neither a clock field nor a fraction holds a character that starts a zone. -/
theorem isZoneStart_digit (n : Nat) : isZoneStart (digit n) = false := by
  have h₁ := digit_ne (n := n) (c := '+') (by decide)
  have h₂ := digit_ne (n := n) (c := '-') (by decide)
  have h₃ := digit_ne (n := n) (c := 'Z') (by decide)
  simp [isZoneStart, h₁, h₂, h₃]

theorem zone_pad (w n : Nat) : ∀ c ∈ pad w n, isZoneStart c = false := by
  induction w generalizing n with
  | zero => simp [pad]
  | succ w ih =>
    intro c hc
    rw [pad, List.mem_append, List.mem_singleton] at hc
    rcases hc with hc | rfl
    · exact ih _ c hc
    · exact isZoneStart_digit n

theorem zone_fraction (us : Nat) : ∀ c ∈ fraction us, isZoneStart c = false := by
  intro c hc
  unfold fraction at hc
  split at hc
  · simp at hc
  · rcases List.mem_cons.mp hc with rfl | hc
    · rfl
    · exact zone_pad 6 us c hc

theorem zone_clock (t : DateTime) : (clock t).dropWhile (fun c => !isZoneStart c) = [] := by
  rw [List.dropWhile_eq_nil_iff]
  intro c hc
  simp only [clock, List.mem_append, List.mem_cons] at hc
  rcases hc with hc | rfl | hc | rfl | hc | hc
  · simp [zone_pad 2 _ c hc]
  · rfl
  · simp [zone_pad 2 _ c hc]
  · rfl
  · simp [zone_pad 2 _ c hc]
  · simp [zone_fraction _ c hc]

theorem not_mem_pad {c : Char} (hc : c.isDigit = false) (w n : Nat) : c ∉ pad w n := by
  induction w generalizing n with
  | zero => simp [pad]
  | succ w ih =>
    rw [pad, List.mem_append, List.mem_singleton, not_or]
    exact ⟨ih _, fun h => digit_ne hc h.symm⟩

/-- An isoformat is digits, its separator, and three marks. So a bar, or a letter, is not in it, and
a cursor can be cut at its bar. -/
theorem not_mem_isoformatSep {c sep : Char} (t : DateTime) (hc : c.isDigit = false)
    (hsep : c ≠ sep) (hdash : c ≠ '-') (hcolon : c ≠ ':') (hdot : c ≠ '.') :
    c ∉ isoformatSep sep t := by
  have hpad := not_mem_pad hc
  have hfrac : c ∉ fraction t.microsecond := by
    unfold fraction
    split
    · exact List.not_mem_nil
    · rw [List.mem_cons, not_or]
      exact ⟨hdot, hpad 6 _⟩
  simp only [isoformatSep, clock, pad4, pad2, List.mem_append, List.mem_cons, not_or]
  exact ⟨hpad 4 _, hdash, hpad 2 _, hdash, hpad 2 _, hsep, hpad 2 _, hcolon, hpad 2 _, hcolon,
    hpad 2 _, hfrac⟩

/-- The clock ends with its fraction, present or not. -/
theorem parseClock_seconds (h mi s us : Nat) (hs : s < 60) (hus : us < 1000000) :
    parseClock 0 1 true [h, mi] (pad2 s ++ fraction us) = some (false, [h, mi, s], us) := by
  rw [parseClock, parseDigits_pad2 (by omega)]
  unfold fraction
  split
  · rename_i h0
    simp [h0, atNul]
  · rw [Option.bind_some]
    simp only [List.length_cons, List.length_nil, List.cons_append, List.nil_append]
    rw [if_neg (by simp [pad6])]
    simp [parseFraction_pad6 hus]

theorem parseClock_clock (t : DateTime) :
    parseClock 0 3 false [] (clock t) =
      some (false, [t.hour, t.minute, t.second], t.microsecond) := by
  obtain ⟨-, -, -, -, -, -, hh, hmi, hs, hus⟩ := t.valid
  rw [clock, parseClock, parseDigits_pad2 (by omega), Option.bind_some]
  simp only [List.nil_append, List.length_cons, List.length_append, List.length_nil,
    List.head?_cons, beq_self_eq_true]
  rw [if_neg (by simp [pad2])]
  simp only [if_true, Bool.true_and]
  rw [parseClock, parseDigits_pad2 (by omega), Option.bind_some]
  simp only [List.cons_append, List.nil_append, List.length_cons, List.length_append,
    List.length_nil]
  rw [if_neg (by simp [pad2])]
  simp only [Nat.reduceAdd, OfNat.ofNat_ne_one, if_false, Bool.true_and, beq_self_eq_true,
    if_true]
  exact parseClock_seconds _ _ _ _ hs hus

theorem parseTime_clock (t : DateTime) :
    parseTime (clock t) = some ((t.hour, t.minute, t.second), t.microsecond, none) := by
  unfold parseTime
  simp only [zone_clock, List.length_nil, parseClock_clock, Option.bind_some]
  simp [hms]

/-- A calendar date, as `isoformat` writes it. -/
def isodate (t : DateTime) : List Char :=
  pad4 t.year ++ '-' :: (pad2 t.month ++ '-' :: pad2 t.day)

theorem length_isodate (t : DateTime) : (isodate t).length = 10 := by
  simp [isodate, pad2, pad4]

theorem isoformatSep_eq (sep : Char) (t : DateTime) :
    isoformatSep sep t = isodate t ++ sep :: clock t := by
  simp [isoformatSep, isodate]

theorem findSeparator_isodate (t : DateTime) (rest : List Char) :
    findSeparator (isodate t ++ rest) = some 10 := by
  have hW := digit_ne (n := t.month / 10) (c := 'W') (by decide)
  have hlen : (isodate t).length + rest.length ≠ 7 := by
    rw [length_isodate]
    omega
  have h4 : (isodate t ++ rest)[4]? = some '-' := by simp [isodate, pad4_eq]
  have h5 : (isodate t ++ rest)[5]? = some (digit (t.month / 10)) := by
    simp [isodate, pad4_eq, pad2_eq]
  simp [findSeparator, hlen, h4, h5, hW]

theorem parseDate_isodate (t : DateTime) (rest : List Char) :
    parseDate (isodate t ++ rest) 10 = some (t.year, t.month, t.day) := by
  obtain ⟨-, hy, -, hmo, -, hd, -⟩ := t.valid
  have hd31 := hd.trans (daysInMonth_le _ _)
  have hW := digit_ne (n := t.month / 10) (c := 'W') (by decide)
  simp only [isodate, List.append_assoc, List.cons_append]
  rw [parseDate, parseDigits_pad4 (by omega), Option.bind_some]
  simp only [List.head?_cons, beq_self_eq_true, if_true, List.tail_cons]
  have hm := parseDigits_pad2 (n := t.month) (by omega) ('-' :: (pad2 t.day ++ rest))
  have hdd := parseDigits_pad2 (n := t.day) (by omega) rest
  rw [pad2_eq] at hm ⊢
  simp only [List.cons_append, List.nil_append] at hm ⊢
  split
  · rename_i heq
    exact absurd (List.cons.inj heq).1 hW
  · simp [hm, hdd, eatDash]

/-! ## Bytes -/

theorem utf8_append (cs cs' : List Char) : utf8 (cs ++ cs') = utf8 cs ++ utf8 cs' :=
  List.flatMap_append

theorem utf8_cons (c : Char) (cs : List Char) : utf8 (c :: cs) = utf8 [c] ++ utf8 cs :=
  utf8_append [c] cs

theorem toNat_byte {n : Nat} (h : n < 0x100) : (Char.ofNat (UInt8.ofNat n).toNat).toNat = n := by
  have hbyte : ∀ n < 0x100, (Char.ofNat n).toNat = n := by decide +kernel
  rw [UInt8.toNat_ofNat', Nat.mod_eq_of_lt h]
  exact hbyte n h

/-- An ASCII text is its own bytes. -/
theorem utf8_of_ascii {cs : List Char} (h : ∀ c ∈ cs, c.toNat < 0x80) : utf8 cs = cs := by
  induction cs with
  | nil => rfl
  | cons c cs ih =>
    have hc : c.toNat < 0x80 := h c List.mem_cons_self
    have hbyte : utf8 [c] = [c] := by
      have hle : c.val.toNat ≤ 0x7f := Nat.le_of_lt_succ hc
      have hsame : Char.ofNat (UInt8.ofNat c.val.toNat).toNat = c := by
        apply Char.toNat_inj.mp
        exact toNat_byte (n := c.toNat) (by omega)
      simp only [utf8, String.utf8EncodeChar, if_pos hle, List.flatMap_cons, List.flatMap_nil,
        List.map_cons, List.map_nil, List.append_nil, hsame]
    rw [utf8_cons, hbyte, ih fun c' hc' => h c' (List.mem_cons_of_mem _ hc')]
    rfl

/-- The first byte of a character says how many to skip. -/
theorem skipSeparator_utf8 (c : Char) (rest : List Char) :
    skipSeparator (utf8 [c] ++ rest) = rest := by
  simp only [utf8, List.flatMap_cons, List.flatMap_nil, List.append_nil, String.utf8EncodeChar]
  generalize c.val.toNat = v
  split
  · simp only [List.map_cons, List.map_nil, List.cons_append, List.nil_append, skipSeparator]
    rw [toNat_byte (by omega), if_pos (by omega)]
  · split
    · have hfirst : v / 64 % 0x20 + 0xc0 < 0x100 := by omega
      simp only [List.map_cons, List.map_nil, List.cons_append, List.nil_append, skipSeparator,
        toNat_byte hfirst]
      rw [if_neg (by omega), if_neg (by omega), if_neg (by omega)]
      rfl
    · split
      · have hfirst : v / 4096 % 0x10 + 0xe0 < 0x100 := by omega
        simp only [List.map_cons, List.map_nil, List.cons_append, List.nil_append, skipSeparator,
          toNat_byte hfirst]
        rw [if_neg (by omega), if_pos (by omega)]
        rfl
      · have hfirst : v / 262144 % 0x08 + 0xf0 < 0x100 := by omega
        simp only [List.map_cons, List.map_nil, List.cons_append, List.nil_append, skipSeparator,
          toNat_byte hfirst]
        rw [if_neg (by omega), if_neg (by omega), if_pos (by omega)]
        rfl

theorem utf8_ne_nil (c : Char) (cs : List Char) : utf8 (c :: cs) ≠ [] := by
  rw [utf8_cons]
  refine List.append_ne_nil_of_left_ne_nil (fun h => ?_) _
  rw [utf8, List.flatMap_cons, List.flatMap_nil, List.append_nil, List.map_eq_nil_iff] at h
  exact String.utf8EncodeChar_ne_nil h

theorem ascii_pad (w n : Nat) : ∀ c ∈ pad w n, c.toNat < 0x80 := by
  have hdigit : ∀ k < 10, (Char.ofNat (48 + k)).toNat < 0x80 := by decide
  induction w generalizing n with
  | zero => simp [pad]
  | succ w ih =>
    intro c hc
    rw [pad, List.mem_append, List.mem_singleton] at hc
    rcases hc with hc | rfl
    · exact ih _ c hc
    · exact hdigit (n % 10) (Nat.mod_lt _ (by decide))

theorem ascii_isodate (t : DateTime) : ∀ c ∈ isodate t, c.toNat < 0x80 := by
  intro c hc
  simp only [isodate, List.mem_append, List.mem_cons] at hc
  rcases hc with hc | rfl | hc | rfl | hc
  · exact ascii_pad 4 _ c hc
  · decide
  · exact ascii_pad 2 _ c hc
  · decide
  · exact ascii_pad 2 _ c hc

theorem ascii_clock (t : DateTime) : ∀ c ∈ clock t, c.toNat < 0x80 := by
  have hfraction : ∀ c ∈ fraction t.microsecond, c.toNat < 0x80 := by
    intro c hc
    unfold fraction at hc
    split at hc
    · cases hc
    · rcases List.mem_cons.mp hc with rfl | hc
      · decide
      · exact ascii_pad 6 _ c hc
  intro c hc
  simp only [clock, List.mem_append, List.mem_cons] at hc
  rcases hc with hc | rfl | hc | rfl | hc | hc
  · exact ascii_pad 2 _ c hc
  · decide
  · exact ascii_pad 2 _ c hc
  · decide
  · exact ascii_pad 2 _ c hc
  · exact hfraction c hc

theorem mkDateTime_self (t : DateTime) :
    mkDateTime (t.year, t.month, t.day) (t.hour, t.minute, t.second) t.microsecond = some t := by
  unfold mkDateTime
  rw [dif_pos t.valid]

/-- **`fromisoformat` undoes `isoformat`**, whatever character separates date and time: the date
and the clock are ASCII, and the bytes of the separator are skipped by the first of them. -/
theorem fromisoformat_isoformatSep (sep : Char) (t : DateTime) :
    fromisoformat (isoformatSep sep t) = some ⟨t, none⟩ := by
  have hlen : ¬ (isoformatSep sep t).length < 7 := by
    rw [isoformatSep_eq, List.length_append, length_isodate]
    omega
  have hbytes : utf8 (isoformatSep sep t) = isodate t ++ (utf8 [sep] ++ clock t) := by
    rw [isoformatSep_eq, utf8_append, utf8_cons, utf8_of_ascii (ascii_isodate t),
      utf8_of_ascii (ascii_clock t)]
  have hdrop : (isodate t ++ (utf8 [sep] ++ clock t)).drop 10 = utf8 [sep] ++ clock t := by
    rw [← length_isodate t, List.drop_left]
  simp only [fromisoformat, if_neg hlen, hbytes, findSeparator_isodate, Option.bind_some,
    parseDate_isodate, hdrop]
  split
  · rename_i hnil
    exact absurd (List.append_eq_nil_iff.mp hnil).1 (utf8_ne_nil sep [])
  · rw [skipSeparator_utf8, parseTime_clock, Option.bind_some, mkDateTime_self, Option.map_some]

end Py
