import Hydroseries.Decimal.Exact

/-!
# Numbers

What the numeric routines ask of their numbers. Doubles are the numbers of a run; the class lets the
same definitions be read over other ordered fields, where nothing is rounded.
-/

namespace Hydroseries

/-- Field operations, an order that can be tested, and the two classes of values that are no
ordinary numbers. -/
class Arith (α : Type) extends Add α, Sub α, Mul α, Div α, Neg α, LT α, LE α, BEq α where
  decLt : (a b : α) → Decidable (a < b)
  decLe : (a b : α) → Decidable (a ≤ b)
  ofInt : Int → α
  /-- Where a sum starts, a left and right identity of addition. -/
  sumStart : α
  isNaN : α → Bool
  isFinite : α → Bool
  /-- A total order that agrees with the order on ordinary numbers. -/
  totalLe : α → α → Bool
  /-- The magnitude. -/
  abs : α → α
  /-- The largest natural that is not above a number; zero for what is not a number. -/
  floorNat : α → Nat
  /-- The least natural that is not below a number; zero for what is not a number. -/
  ceilNat : α → Nat
  /-- A value above all ordinary numbers, where there is one. -/
  infinity : α

instance (priority := 100) Arith.decidableLT {α : Type} [Arith α] : DecidableLT α := Arith.decLt

instance (priority := 100) Arith.decidableLE {α : Type} [Arith α] : DecidableLE α := Arith.decLe

namespace Arith

variable {α : Type} [Arith α]

/-- The natural number `n`. -/
def ofNat (n : Nat) : α := ofInt n

def zero : α := ofInt 0

def one : α := ofInt 1

/-- The larger number; a value that is not a number loses to one that is. -/
def max (a b : α) : α := if isNaN a then b else if a < b then b else a

/-- The smaller number; a value that is not a number loses to one that is. -/
def min (a b : α) : α := if isNaN a then b else if b < a then b else a

/-- The sum from the left. -/
def sum (xs : List α) : α := xs.foldl (· + ·) sumStart

def mean (xs : List α) : α := sum xs / ofNat xs.length

/-- Powers by repeated squaring: `acc * base ^ n`, the factors taken from the low bits up. -/
def powGo (acc base : α) (n : Nat) : α :=
  if h : n ≤ 1 then (if n = 1 then acc * base else acc)
  else powGo (if n % 2 = 1 then acc * base else acc) (base * base) (n / 2)
termination_by n
decreasing_by omega

def pow (a : α) (n : Nat) : α := powGo one a n

/-- Brings a number into closed bounds; what is not a number stays so. -/
def clamp (low high a : α) : α := if a < low then low else if high < a then high else a

/-- Ascending order, equal values in their order of arrival. -/
def sort (xs : List α) : List α := xs.mergeSort totalLe

end Arith

instance : Arith Double where
  decLt := inferInstance
  decLe := inferInstance
  ofInt := Double.ofInt
  sumStart := -0.0
  isNaN := Double.isNaN
  isFinite := Double.isFinite
  totalLe := Double.totalLe
  abs := Double.abs
  floorNat x := Decimal.truncateToSize x.floor
  ceilNat x := Decimal.truncateToSize x.ceil
  infinity := Double.infinity

/-- Numbers with roots, exponentials and logarithms. -/
class Transcendental (α : Type) extends Arith α where
  sqrt : α → α
  exp : α → α
  ln : α → α
  log10 : α → α
  sin : α → α
  cos : α → α
  tan : α → α
  /-- The power with any exponent. -/
  rpow : α → α → α

instance : Transcendental Double where
  sqrt := Double.sqrt
  exp := Double.exp
  ln := Double.log
  log10 := Double.log10
  sin := Double.sin
  cos := Double.cos
  tan := Double.tan
  rpow := Double.pow

end Hydroseries
