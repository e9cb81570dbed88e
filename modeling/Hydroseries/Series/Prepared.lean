import Hydroseries.Arith
import Hydroseries.Series.Basic

/-!
# Preparing series for statistics

Before statistics are taken of a series it is cut to a window, the gaps of its own frequency are put
back as missing values, its values are transformed, and what is no usable number counts as missing.
-/

namespace Hydroseries

structure Preparation where
  window : Window
  /-- Take decimal logarithms. -/
  log : Bool := false
  /-- Raise the values to a power. -/
  power : Double := 1.0
  deriving Repr

namespace Preparation

/-- The value after the transformation, missing when it is no finite number. -/
def value (p : Preparation) (v : Double) : Option Double :=
  let v := if p.log then Transcendental.log10 v else v
  let v := if p.power == 1.0 then v else Transcendental.rpow v p.power
  if v.isFinite then some v else none

/-- The prepared series, from its first value to its last. -/
def apply (p : Preparation) (s : Series) : Outcome Series := do
  let inside := s.within p.window
  let regular ← inside.regularized inside.frequency
  pure (TimeSeries.mk (regular.points.map fun q => (q.1, q.2.bind p.value))).trimmed

end Preparation

end Hydroseries
