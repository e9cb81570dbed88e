import Hydroseries.Proofs.Decimal.Digits
import Hydroseries.Proofs.Text.Blank
import Mathlib.Algebra.Order.Field.Power
import Mathlib.Data.Rat.Cast.Order

/-!
# Reading real numbers

A field of a record is read as a real number: blanks around it do not count, there is a sign or not,
digits with a point among them or none, and an exponent or not. The exponent is an integer behind the
letter, or one with a sign without it.
-/

namespace Hydroseries.Record

open Text (isDigit digitsValue splitSign trimChars trimFront trimBack isBlank readDigits?)

/-- The integer of digits behind an optional sign. -/
def readInteger? (cs : List Char) : Option ℤ :=
  let (negative, digits) := splitSign cs
  (readDigits? digits).map fun n : ℕ => if negative then -(n : ℤ) else n

/-- The exponent of a real: nothing, or a letter and an integer, or an integer with a sign. -/
def readExponent? : List Char → Option ℤ
  | [] => some 0
  | c :: cs =>
    if c = 'E' then readInteger? cs
    else if c = '+' ∨ c = '-' then readInteger? (c :: cs)
    else none

/-- The digits before the point, those behind it, and the rest. -/
def splitPoint (cs : List Char) : List Char × List Char × List Char :=
  let (whole, rest) := cs.span isDigit
  match rest with
  | '.' :: tail => (whole, tail.span isDigit)
  | rest => (whole, [], rest)

/-- The number that a field shows, if it shows one. -/
def readReal? (field : List Char) : Option ℚ :=
  let (negative, unsigned) := splitSign (trimChars field)
  let (whole, fraction, exponent) := splitPoint unsigned
  if whole ++ fraction = [] then none
  else (readExponent? exponent).map fun e : ℤ =>
    (if negative then -1 else 1) * (digitsValue (whole ++ fraction) : ℚ) *
      10 ^ (e - fraction.length)

/-- The parts of the number that a field shows: whether it has a minus sign, the number that its
digits make without the point, and the place of the last one of them. -/
def readParts? (field : List Char) : Option (Bool × ℕ × ℤ) :=
  let (negative, unsigned) := splitSign (trimChars field)
  let (whole, fraction, exponent) := splitPoint unsigned
  if whole ++ fraction = [] then none
  else (readExponent? exponent).map fun e : ℤ =>
    (negative, digitsValue (whole ++ fraction), e - fraction.length)

/-- The unit of the last digit that a field shows. -/
def lastUnit? (field : List Char) : Option ℚ := (readParts? field).map fun parts => 10 ^ parts.2.2

/-- The characters that numbers are written with. -/
def isNumeral (c : Char) : Bool := isDigit c || c == '+' || c == '-' || c == '.' || c == 'E'

/-! ## Parts -/

/-- The number is made of its parts. -/
theorem readReal?_of_parts {field : List Char} {negative : Bool} {units : ℕ} {place : ℤ}
    (h : readParts? field = some (negative, units, place)) :
    readReal? field = some ((if negative then -1 else 1) * (units : ℚ) * 10 ^ place) := by
  have hmap : readReal? field = (readParts? field).map fun parts =>
      (if parts.1 then -1 else 1) * (parts.2.1 : ℚ) * 10 ^ parts.2.2 := by
    unfold readReal? readParts?
    dsimp only
    split
    next => rfl
    next => rw [Option.map_map]; rfl
  rw [hmap, h, Option.map_some]

theorem isNumeral_of_isDigit {c : Char} (h : isDigit c = true) : isNumeral c = true := by
  simp [isNumeral, h]

theorem isBlank_of_isNumeral {c : Char} (h : isNumeral c = true) : isBlank c = false := by
  simp only [isNumeral, Bool.or_eq_true, beq_iff_eq] at h
  rcases h with (((hdigit | rfl) | rfl) | rfl) | rfl
  · exact Text.isBlank_of_isDigit hdigit
  all_goals decide

theorem isDigit_of_readExponent? {c : Char} {cs : List Char} {e : ℤ}
    (h : readExponent? (c :: cs) = some e) : isDigit c = false := by
  rw [readExponent?] at h
  split at h
  next hc => subst hc; decide
  next =>
    split at h
    next hc => rcases hc with rfl | rfl <;> decide
    next => cases h

theorem splitPoint_eq {whole fraction exponent : List Char} {e : ℤ}
    (hwhole : ∀ c ∈ whole, isDigit c = true) (hfraction : ∀ c ∈ fraction, isDigit c = true)
    (hexponent : readExponent? exponent = some e) :
    splitPoint (whole ++ '.' :: (fraction ++ exponent)) = (whole, fraction, exponent) := by
  have hspan : (whole ++ '.' :: (fraction ++ exponent)).span isDigit =
      (whole, '.' :: (fraction ++ exponent)) := by
    refine Text.span_of_all hwhole fun c hc => ?_
    obtain rfl := Option.some.inj hc
    decide
  have htail : (fraction ++ exponent).span isDigit = (fraction, exponent) := by
    refine Text.span_of_all hfraction fun c hc => ?_
    cases exponent with
    | nil => cases hc
    | cons c' cs =>
      obtain rfl := Option.some.inj hc
      exact isDigit_of_readExponent? hexponent
  rw [splitPoint, hspan]
  simp only [htail]

theorem splitPoint_of_digits {whole : List Char} (hwhole : ∀ c ∈ whole, isDigit c = true) :
    splitPoint whole = (whole, [], []) := by
  have hspan : (whole ++ []).span isDigit = (whole, []) := Text.span_of_all hwhole nofun
  rw [List.append_nil] at hspan
  rw [splitPoint, hspan]

/-- The sign of a number that is shown. -/
def signChars (negative : Bool) : List Char := if negative then ['-'] else []

/-- A sign in front of what begins with a digit or the point. -/
theorem splitSign_signChars (negative : Bool) {c : Char} {cs : List Char}
    (hc : isDigit c = true ∨ c = '.') :
    splitSign (signChars negative ++ c :: cs) = (negative, c :: cs) := by
  cases negative with
  | true => rfl
  | false => rw [signChars, if_neg Bool.false_ne_true, List.nil_append, Text.splitSign_unsigned hc]

/-! ## Numbers that are shown -/

variable {field whole fraction exponent : List Char} {negative : Bool} {e : ℤ}

/-- Digits with a point among them, and an exponent or none. -/
theorem readParts?_eq (hwhole : ∀ c ∈ whole, isDigit c = true)
    (hfraction : ∀ c ∈ fraction, isDigit c = true) (hsome : whole ++ fraction ≠ [])
    (hexponent : readExponent? exponent = some e)
    (hfield : trimChars field = signChars negative ++ (whole ++ '.' :: (fraction ++ exponent))) :
    readParts? field = some (negative, digitsValue (whole ++ fraction), e - fraction.length) := by
  have hsign : splitSign (trimChars field) = (negative, whole ++ '.' :: (fraction ++ exponent)) := by
    rw [hfield]
    cases whole with
    | nil => exact splitSign_signChars negative (.inr rfl)
    | cons c cs => exact splitSign_signChars negative (.inl (hwhole c List.mem_cons_self))
  simp only [readParts?, hsign, splitPoint_eq hwhole hfraction hexponent, if_neg hsome, hexponent,
    Option.map_some]

/-- Digits without a point. -/
theorem readParts?_of_digits (hwhole : ∀ c ∈ whole, isDigit c = true) (hsome : whole ≠ [])
    (hfield : trimChars field = signChars negative ++ whole) :
    readParts? field = some (negative, digitsValue whole, 0) := by
  obtain ⟨c, cs, rfl⟩ := List.exists_cons_of_ne_nil hsome
  have hsign : splitSign (trimChars field) = (negative, c :: cs) := by
    rw [hfield]
    exact splitSign_signChars negative (.inl (hwhole c List.mem_cons_self))
  simp only [readParts?, hsign, splitPoint_of_digits hwhole, List.append_nil, if_neg hsome,
    readExponent?, Option.map_some]
  rfl

end Hydroseries.Record
