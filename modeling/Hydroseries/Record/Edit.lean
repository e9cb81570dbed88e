import Hydroseries.Arith
import Hydroseries.Decimal.Shortest
import Hydroseries.Record.Descriptor
import Hydroseries.Text.Blank

/-!
# Numbers in fixed columns

A number that does not fit its width becomes a row of asterisks. The exponent form writes its digits
behind the point, or one of them before it under a scale factor of one; three digits of an exponent
take the place of the letter. The general form writes values of moderate size without exponent and
leaves four blanks behind them.
-/

namespace Hydroseries.Record

/-- The text at the right end of `width` columns, or asterisks if it is wider. -/
def fit (text : String) (width : Nat) : String :=
  if text.length > width then String.ofList (List.replicate width '*') else Text.padLeft width text

/-- The exponent part: a letter, a sign and two digits, or a sign and three digits. -/
def exponentText (e : Int) : String :=
  let sign := if e < 0 then "-" else "+"
  if e.natAbs ≤ 99 then "E" ++ sign ++ Text.padZero 2 (toString e.natAbs)
  else sign ++ Text.padZero 3 (toString e.natAbs)

/-- The significant digits of a finite magnitude and the exponent of the leading one. -/
def significantDigits (value : Double) (count : Nat) : List Char × Int :=
  let (digits, e) := (Decimal.Exact.ofDouble value).significant (count - 1)
  ((Decimal.digitsOf digits).toList, e)

/-- The exponent form with `decimals` digits behind the point. Scale factors count as zero or one. -/
def editExponent (value : Double) (width decimals : Nat) (scale : Int) : String :=
  if !value.isFinite then fit (Decimal.plain value) width
  else
    let ahead := scale ≥ 1
    let count := if ahead then decimals + 1 else decimals
    let (digits, e) :=
      if value == 0.0 then (List.replicate (max count 1) '0', 0)
      else
        let (digits, e) := significantDigits value count
        (digits, if ahead then e else e + 1)
    let sign := if value < 0.0 then "-" else ""
    let fraction := String.ofList (if ahead then digits.drop 1 else digits)
    let whole := if ahead then String.ofList (digits.take 1) else "0"
    let text := sign ++ whole ++ "." ++ fraction ++ exponentText e
    -- The zero before the point is given up first.
    if text.length > width && !ahead then fit (sign ++ "." ++ fraction ++ exponentText e) width
    else fit text width

/-- A power of ten, as a reciprocal for negative exponents. -/
def tenTo (e : Int) : Double :=
  if e < 0 then 1.0 / Arith.pow (10.0 : Double) e.natAbs else Arith.pow (10.0 : Double) e.natAbs

/-- The general form with `decimals` significant digits, which are counted in a signed word of 32
bits. -/
def editGeneral (value : Double) (width decimals : Nat) (scale : Int) : String :=
  let inner := width - 4
  let blanks := "    "
  let magnitude := value.abs
  let count := narrow decimals
  if value == 0.0 then fit (Decimal.fixed (decimals - 1) 0.0) inner ++ blanks
  else if !value.isFinite || magnitude < 0.1 - 0.5 * tenTo (-count - 1) ||
      magnitude ≥ tenTo count - 0.5 then
    editExponent value width decimals scale
  else
    -- Digits before the point, by the power of ten that the rounded value stays below.
    let before := ((List.range (count + 1).toNat).find? fun (s : Nat) =>
      decide (magnitude < tenTo s - 0.5 * tenTo ((s : Int) - count))).elim count Int.ofNat
    fit (Decimal.fixed (count - before).toNat value) inner ++ blanks

/-- The general form of a record. The least number of a signed word has no opposite to compare the
value with. -/
def general (value : Double) (width decimals : Nat) (scale : Int) : Outcome String :=
  if narrow decimals = -Nat.pow 2 31 ∧ value.isFinite && value != 0.0 then .error .outOfRange
  else .ok (editGeneral value width decimals scale)

end Hydroseries.Record
