import Hydroseries.Decimal.Exact

/-!
# Shortest decimals

The shortest decimal that identifies a float is the first one found when the grids of one, two, three
and more significant digits are tried in turn: a point of a grid is accepted when it lies among the
reals that round to the float, and of two accepted points the nearer is taken. Between two equally
near ones the larger magnitude wins.
-/

namespace Hydroseries.Decimal

/-- A finite magnitude `m * 2 ^ q` in the grid of the floats. -/
structure Binary where
  m : Nat
  q : Int
  /-- The gap to the next magnitude below is half the gap to the one above. -/
  narrowBelow : Bool
  deriving DecidableEq, Repr

/-- The magnitude that the bits of a finite float stand for. -/
def Binary.ofDouble (x : Double) : Binary :=
  let e := x.exponentBits
  let f := x.fractionBits
  if e == 0 then ⟨f, -1074, false⟩ else ⟨Nat.pow 2 52 + f, (e : Int) - 1075, f == 0 && e > 1⟩

/-- The magnitude `digits * 10 ^ exp`. -/
structure Scaled where
  digits : Nat
  exp : Int
  deriving DecidableEq, Repr

/-- Compares `a * 10 ^ i` with `n * 2 ^ j`, exactly. -/
def compareScaled (a : Nat) (i : Int) (n : Nat) (j : Int) : Ordering :=
  compare (a * Nat.pow 10 i.toNat * Nat.pow 2 (-j).toNat) (n * Nat.pow 2 j.toNat * Nat.pow 10 (-i).toNat)

/-- True when `d` lies among the reals that round to `x`; the ends of that interval belong to it
exactly when `m` is even. -/
def Binary.readsBack (x : Binary) (d : Scaled) : Bool :=
  -- Quarters of the unit in the last place, so that both ends are whole.
  let low := if x.narrowBelow then 4 * x.m - 1 else 4 * x.m - 2
  let high := 4 * x.m + 2
  let ends := x.m % 2 == 0
  let below := compareScaled d.digits d.exp low (x.q - 2)
  let above := compareScaled d.digits d.exp high (x.q - 2)
  (below == .gt || (ends && below == .eq)) && (above == .lt || (ends && above == .eq))

def Binary.toExact (x : Binary) : Exact := ⟨false, x.m * Nat.pow 2 x.q.toNat, Nat.pow 2 (-x.q).toNat⟩

/-- The accepted point of the grid `10 ^ exp` nearest to `x`, among the two neighbours of `x`. -/
def Binary.onGrid? (x : Binary) (exp : Int) : Option Scaled :=
  let v := x.toExact
  let num := v.num * Nat.pow 10 (-exp).toNat
  let den := v.den * Nat.pow 10 exp.toNat
  let low : Scaled := ⟨num / den, exp⟩
  let high : Scaled := ⟨num / den + 1, exp⟩
  match x.readsBack low, x.readsBack high with
  -- Both are accepted: the nearer one, and above in the middle.
  | true, true => some (if 2 * (num % den) < den then low else high)
  | true, false => some low
  | false, true => some high
  | false, false => none

/-- Moves trailing zeros of the digits into the exponent, at most `steps` of them. -/
def Scaled.strip : Nat → Scaled → Scaled
  | 0, d => d
  | steps + 1, d =>
    if d.digits ≠ 0 ∧ d.digits % 10 = 0 then Scaled.strip steps ⟨d.digits / 10, d.exp + 1⟩ else d

/-- The shortest decimal that reads back as a magnitude other than zero. Seventeen digits identify
every float; should none be accepted, the exact value is returned. -/
def Binary.shortest (x : Binary) : Scaled :=
  let top := x.toExact.leadingExponent
  match (List.range 17).findSome? fun (n : Nat) => x.onGrid? (top - (n : Int)) with
  | some d => Scaled.strip 20 d
  | none =>
    if x.q ≥ 0 then ⟨x.m * Nat.pow 2 x.q.toNat, 0⟩ else ⟨x.m * Nat.pow 5 (-x.q).toNat, x.q⟩

/-- The shortest digits of a finite float, zero included. -/
def shortestOf (x : Double) : Scaled :=
  let b := Binary.ofDouble x
  if b.m == 0 then ⟨0, 0⟩ else b.shortest

/-- Shortest digits in exponent notation: one digit before the point, no point for a single digit. -/
def shortScientific (x : Double) : String :=
  (special? x).getD <|
    let d := shortestOf x
    let cs := (digitsOf d.digits).toList
    let fraction := cs.drop 1
    let e := d.exp + fraction.length
    signed x.isNegative <|
      String.ofList (cs.take 1) ++ (if fraction.isEmpty then "" else "." ++ String.ofList fraction) ++
        "e" ++ toString e

/-- Shortest digits written positionally, whatever the exponent. -/
def plain (x : Double) : String :=
  (special? x).getD <|
    let d := shortestOf x
    signed x.isNegative <|
      if d.exp ≥ 0 then digitsOf (d.digits * Nat.pow 10 d.exp.toNat) else pointed d.digits (-d.exp).toNat

end Hydroseries.Decimal
