import Hydroseries.Double
import Hydroseries.Text.Blank

/-!
# Reading numbers

Integers carry an optional sign. Decimals follow the grammar
`[sign] (digits [. digits] | . digits) [e [sign] digits]`, or one of the words `inf`, `infinity` and
`nan` in any case; a point may also end the digits. Nothing else is accepted, blanks included.
-/

namespace Hydroseries.Text

/-- ASCII digits. -/
def isDigit (c : Char) : Bool := '0' ≤ c && c ≤ '9'

def digitsValue (cs : List Char) : Nat := cs.foldl (fun n c => 10 * n + (c.toNat - '0'.toNat)) 0

def readDigits? (cs : List Char) : Option Nat :=
  if !cs.isEmpty && cs.all isDigit then some (digitsValue cs) else none

/-- Splits an optional sign off; true means minus. -/
def splitSign : List Char → Bool × List Char
  | '-' :: cs => (true, cs)
  | '+' :: cs => (false, cs)
  | cs => (false, cs)

/-- A natural below `bound`; a plus sign is accepted, a minus sign is not. -/
def readNat? (bound : Nat) (s : String) : Option Nat :=
  let digits := match s.toList with
    | '+' :: cs => cs
    | cs => cs
  (readDigits? digits).filter (· < bound)

/-- An integer from `-bound` up to but not including `bound`. -/
def readInt? (bound : Nat) (s : String) : Option Int :=
  let (minus, digits) := splitSign s.toList
  (readDigits? digits).bind fun n =>
    let v : Int := if minus then -(n : Int) else n
    if -(bound : Int) ≤ v ∧ v < bound then some v else none

/-- A number of unsigned machine words of 32 bits. -/
def readWord32? (s : String) : Option Nat := readNat? (Nat.pow 2 32) s

/-- A number of unsigned machine words of 64 bits. -/
def readWord64? (s : String) : Option Nat := readNat? (Nat.pow 2 64) s

/-- A number of signed machine words of 64 bits. -/
def readInt64? (s : String) : Option Int := readInt? (Nat.pow 2 63) s

/-- A number of signed machine words of 32 bits. -/
def readInt32? (s : String) : Option Int := readInt? (Nat.pow 2 31) s

inductive Numeral where
  /-- The value `± digits * 10 ^ exp`. -/
  | finite (negative : Bool) (digits : Nat) (exp : Int)
  | infinite (negative : Bool)
  /-- What is not a number; it keeps its sign. -/
  | nan (negative : Bool)
  deriving DecidableEq, Repr

namespace Numeral

/-- The exponent part: nothing, or a mark, an optional sign and digits. -/
def readExponent? : List Char → Option Int
  | [] => some 0
  | c :: cs =>
    if c == 'e' || c == 'E' then
      let (minus, digits) := splitSign cs
      (readDigits? digits).map fun n => if minus then -(n : Int) else n
    else none

/-- The digits, the point and the exponent. -/
def readUnsigned? (negative : Bool) (cs : List Char) : Option Numeral :=
  let (whole, rest) := cs.span isDigit
  let (fraction, rest) := match rest with
    | '.' :: tail => tail.span isDigit
    | _ => ([], rest)
  if whole.isEmpty && fraction.isEmpty then none
  else (readExponent? rest).map fun e =>
    .finite negative (digitsValue (whole ++ fraction)) (e - fraction.length)

def ofChars? (cs : List Char) : Option Numeral :=
  let (negative, rest) := splitSign cs
  let word := String.ofList (rest.map Char.toLower)
  if word == "inf" || word == "infinity" then some (.infinite negative)
  else if word == "nan" then some (.nan negative)
  else readUnsigned? negative rest

/-- The nearest float, ties to even. Exponents beyond the range of floats are cut short before the
power of ten is formed. -/
def toDouble : Numeral → Double
  | .finite negative digits exp =>
    let magnitude : Double :=
      if digits == 0 then 0
      else
        let top := (toString digits).length + exp
        if top > 400 then .infinity
        else if top < -400 then 0
        else .ofScientific digits (exp < 0) exp.natAbs
    if negative then -magnitude else magnitude
  | .infinite negative => if negative then -.infinity else .infinity
  | .nan negative => if negative then -.nan else .nan

end Numeral

/-- The float that a text stands for, without blanks around it. -/
def readDouble? (s : String) : Option Double := (Numeral.ofChars? s.toList).map Numeral.toDouble

end Hydroseries.Text
