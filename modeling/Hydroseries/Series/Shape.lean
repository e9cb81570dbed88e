import Hydroseries.Arith
import Hydroseries.Series.Basic

/-!
# Series made from one series

Differences between neighbours, values moved along the index, and values erased or replaced by their
size.
-/

namespace Hydroseries

namespace TimeSeries

variable {α : Type}

/-- The differences of values from their predecessors; missing where one of the two is. -/
def differences [Arith α] : List (Option α) → List (Option α)
  | o :: p :: rest => (match o, p with
      | some v, some w => some (w - v)
      | _, _ => none) :: differences (p :: rest)
  | _ => []

/-- A value for the first position, which has no predecessor, and the differences. -/
def differenceValues [Arith α] (values : List (Option α)) : List (Option α) :=
  none :: differences values

/-- The value `lag` positions before `i`, or the filling beyond the ends. -/
def displacedAt (values : Array (Option α)) (fill : Option α) (lag : Int) (i : Nat) : Option α :=
  let source := (i : Int) - lag
  if 0 ≤ source then (values[source.toNat]?).getD fill else fill

/-- The values moved later by `lag` positions. Positions are signed machine words of 64 bits. -/
def displaceValues (values : List (Option α)) (fill : Option α) (lag : Int) :
    Outcome (List (Option α)) :=
  let array := values.toArray
  if 0 < array.size ∧ (array.size : Int) - 1 - lag ≥ Nat.pow 2 63 then .error .outOfRange
  else .ok ((List.range array.size).map (displacedAt array fill lag))

end TimeSeries

/-- Which values are erased: those between both bounds, or beyond the only one. -/
structure EraseBounds (α : Type) where
  lower : Option α
  upper : Option α

def EraseBounds.holds {α : Type} [Arith α] (b : EraseBounds α) (v : α) : Bool :=
  match b.lower, b.upper with
  | some low, some high => decide (low ≤ v) && decide (v ≤ high)
  | some low, none => decide (low ≤ v)
  | none, some high => decide (v ≤ high)
  | none, none => false

/-- The values with the erased ones replaced, or missing where there is no substitute. -/
def EraseBounds.clean {α : Type} [Arith α] (b : EraseBounds α) (substitute : Option α)
    (values : List (Option α)) : List (Option α) :=
  values.map fun o => match o with
    | some v => if b.holds v then substitute else some v
    | none => none

end Hydroseries
