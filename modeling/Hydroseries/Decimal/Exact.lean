import Hydroseries.Double

/-!
# Exact values of floats and their rounding to decimals

A finite float is an exact quotient of naturals with a sign. The functions here round such a
quotient to a decimal grid in exact arithmetic, so nothing is rounded twice.
-/

namespace Hydroseries.Decimal

/-- Which of two equally close neighbours a rounding takes. -/
inductive Tie where
  | toEven
  | awayFromZero
  deriving DecidableEq, Repr

/-- The natural nearest to `num / den`. -/
def roundDiv (num den : Nat) (tie : Tie) : Nat :=
  let q := num / den
  match compare (2 * (num % den)) den, tie with
  | .lt, _ => q
  | .gt, _ => q + 1
  | .eq, .awayFromZero => q + 1
  | .eq, .toEven => if q % 2 == 0 then q else q + 1

/-- A rounded quotient is within half a unit of the exact one. -/
theorem roundDiv_near (num den : Nat) (tie : Tie) (h : 0 < den) :
    2 * (roundDiv num den tie * den) ≤ 2 * num + den ∧
      2 * num ≤ 2 * (roundDiv num den tie * den) + den := by
  have e : den * (num / den) + num % den = num := Nat.div_add_mod num den
  have l : num % den < den := Nat.mod_lt _ h
  simp only [roundDiv]
  generalize num / den = q at *
  generalize num % den = r at *
  have hq : (q + 1) * den = den * q + den := by rw [Nat.add_mul, Nat.mul_comm]; simp
  have hq0 : q * den = den * q := Nat.mul_comm ..
  generalize den * q = p at *
  split
  · rename_i hc; rw [Nat.compare_eq_lt] at hc; omega
  · rename_i hc; rw [Nat.compare_eq_gt] at hc; omega
  · rename_i hc; rw [Nat.compare_eq_eq] at hc; omega
  · rename_i hc; rw [Nat.compare_eq_eq] at hc; split <;> omega

/-- A signed quotient of naturals, the exact value of a finite float. -/
structure Exact where
  /-- True for values below zero and for the negative zero. -/
  negative : Bool
  num : Nat
  den : Nat
  deriving DecidableEq, Repr

namespace Exact

/-- The bits of a finite float hold its fraction and its exponent. -/
def ofDouble (x : Double) : Exact :=
  let e := x.exponentBits
  let f := x.fractionBits
  let m := if e == 0 then f else Nat.pow 2 52 + f
  let q := if e == 0 then 1074 else 1075 - e
  ⟨x.isNegative, m * Nat.pow 2 (e - 1075), Nat.pow 2 q⟩

/-- Compares the magnitude with a power of ten. -/
def comparePow (x : Exact) (e : Int) : Ordering :=
  compare (x.num * Nat.pow 10 (-e).toNat) (x.den * Nat.pow 10 e.toNat)

/-- The decimal exponent of the leading digit of a magnitude other than zero. The estimate from the
binary logarithm misses by at most one. -/
def leadingExponent (x : Exact) : Int :=
  let twos : Int := (x.num.log2 : Int) - x.den.log2
  let guess := twos * 30103 / 100000
  if x.comparePow (guess + 1) != .lt then guess + 1
  else if x.comparePow guess == .lt then guess - 1
  else guess

/-- The magnitude in units of `10 ^ (-places)`, rounded to a natural. -/
def unitsAt (x : Exact) (places : Int) (tie : Tie) : Nat :=
  roundDiv (x.num * Nat.pow 10 places.toNat) (x.den * Nat.pow 10 (-places).toNat) tie

/-- The magnitude rounded to `figures + 1` significant digits: the digits as a natural and the
exponent of the leading one. A carry out of the leading digit moves the exponent. -/
def significant (x : Exact) (figures : Nat) : Nat × Int :=
  if x.num == 0 then (0, 0)
  else
    let e := x.leadingExponent
    let units := x.unitsAt (figures - e) .toEven
    if units ≥ Nat.pow 10 (figures + 1) then (units / 10, e + 1) else (units, e)

end Exact

/-! ### Whole numbers -/

/-- The integer part of a finite float, toward zero. -/
def truncate (x : Double) : Int :=
  let v := Exact.ofDouble x
  let n : Int := v.num / v.den
  if v.negative then -n else n

/-- The integer nearest to a finite float, a half going away from zero. -/
def nearest (x : Double) : Int :=
  let v := Exact.ofDouble x
  let n : Int := roundDiv v.num v.den .awayFromZero
  if v.negative then -n else n

def clamp (low high n : Int) : Int := if n < low then low else if n > high then high else n

/-- A whole number of any float: what is not a number counts as zero, the infinities as the bounds. -/
def boundedBy (low high : Int) (whole : Double → Int) (x : Double) : Int :=
  if x.isNaN then 0
  else if x.isInf then (if x.isNegative then low else high)
  else clamp low high (whole x)

/-- The integer of a signed word of 64 bits nearest to a float. -/
def roundToWord64 (x : Double) : Int := boundedBy (-Nat.pow 2 63) (Nat.pow 2 63 - 1) nearest x

/-- The integer part of a float, kept in a signed word of 64 bits. -/
def truncateToWord64 (x : Double) : Int := boundedBy (-Nat.pow 2 63) (Nat.pow 2 63 - 1) truncate x

/-- The integer part of a float, kept in an unsigned word of 64 bits. -/
def truncateToSize (x : Double) : Nat := (boundedBy 0 (Nat.pow 2 64 - 1) truncate x).toNat

/-! ### Laying digits out -/

def digitsOf (n : Nat) : String := toString n

/-- A natural count of `10 ^ (-places)` written with a decimal point before the last `places`
digits; without places there is no point. -/
def pointed (units places : Nat) : String :=
  let text := digitsOf units
  let padded := String.ofList (List.replicate (places + 1 - text.length) '0') ++ text
  if places == 0 then padded
  else
    let cs := padded.toList
    let whole := cs.length - places
    String.ofList (cs.take whole) ++ "." ++ String.ofList (cs.drop whole)

/-- A text with the sign that its value calls for. -/
def signed (negative : Bool) (text : String) : String := if negative then "-" ++ text else text

/-- The texts of the values that are no quotients. -/
def special? (x : Double) : Option String :=
  if x.isNaN then some "NaN"
  else if x.isInf then some (signed x.isNegative "inf")
  else none

/-- Fixed notation: the exact value rounded to `places` digits after the point, ties to even. -/
def fixed (places : Nat) (x : Double) : String :=
  (special? x).getD <|
    let v := Exact.ofDouble x
    signed v.negative (pointed (v.unitsAt places .toEven) places)

/-- Exponent notation with `places` digits after the point, ties to even. -/
def scientific (places : Nat) (x : Double) : String :=
  (special? x).getD <|
    let v := Exact.ofDouble x
    let (units, e) := v.significant places
    signed v.negative (pointed units places ++ "e" ++ toString e)

end Hydroseries.Decimal
