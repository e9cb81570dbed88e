import Hydroseries.Stat.Summary
import Hydroseries.Decimal.Shortest

/-!
# Flow duration

The flow that is equalled or exceeded for a share of the time.
-/

namespace Hydroseries.FlowDuration

/-- The flow that is equalled or exceeded `percent` percent of the time. -/
def flowAt? {α : Type} [Arith α] (values : List α) (percent : α) : Option α :=
  Stat.quantile? values (Arith.one - percent / Arith.ofNat 100)

/-- The flow duration curve at the given percentages. A fault says the percentage as `write` spells
it. -/
def curveWith {α : Type} [Arith α] (write : α → String) (values percents : List α) :
    Outcome (List (α × α)) := do
  let tooFew := Fault.refused "flow duration needs at least one value"
  if values.isEmpty then throw tooFew
  percents.mapM fun p =>
    if Arith.zero ≤ p ∧ p ≤ Arith.ofNat 100 then
      match flowAt? values p with
      | some flow => pure (p, flow)
      | none => throw tooFew
    else
      throw (.invalid "exceedance_probabilities" (write p) "must be between 0 and 100")

/-- The flow duration curve of floats. -/
def curve (values percents : List Double) : Outcome (List (Double × Double)) :=
  curveWith Decimal.plain values percents

end Hydroseries.FlowDuration
