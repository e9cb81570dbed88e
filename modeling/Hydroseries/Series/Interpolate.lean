import Hydroseries.Arith
import Hydroseries.Series.Basic

/-!
# Values between samples

Between two samples a value is taken to lie on the straight line through them; before the first and
after the last sample it is held. Distances in time count in whole milliseconds.
-/

namespace Hydroseries.TimeSeries

variable {α : Type} [Arith α]

/-- Whole milliseconds from `s` to `t` as a number. -/
def millisBetween (s t : Timestamp) : α := Arith.ofInt (t.millisSince s)

/-- The value at `t` on the line through two samples. -/
def lineThrough (p q : Timestamp × α) (t : Timestamp) : α :=
  p.2 + (q.2 - p.2) * (millisBetween p.1 t / millisBetween p.1 q.1)

/-- The value at `t`, a moment after the sample `p`, among the samples that follow it. -/
def valueAfter (p : Timestamp × α) (t : Timestamp) : List (Timestamp × α) → α
  | [] => p.2
  | q :: rest =>
    if t < q.1 then lineThrough p q t
    -- The sample itself, without the rounding of a line.
    else if t = q.1 then q.2
    else valueAfter q t rest

/-- The value at `t` among increasing samples; none if there are no samples. -/
def valueAmong? (samples : List (Timestamp × α)) (t : Timestamp) : Option α :=
  match samples with
  | [] => none
  | p :: rest => some (if t ≤ p.1 then p.2 else valueAfter p t rest)

/-- The values of a series at some moments. -/
def interpolateAt (s : TimeSeries α) (moments : List Timestamp) : List (Option α) :=
  let samples := s.valid
  moments.map (valueAmong? samples)

/-! ### Integrals -/

/-- The area between two samples, in value-seconds. -/
def trapezoid (p q : Timestamp × α) : α :=
  (p.2 + q.2) / Arith.ofInt 2 * (millisBetween p.1 q.1 / Arith.ofInt 1000)

def trapezoids : List (Timestamp × α) → List α
  | p :: q :: rest => trapezoid p q :: trapezoids (q :: rest)
  | _ => []

/-- A sample at a moment, if there is a value for it. -/
def sampleAt (s : TimeSeries α) (t : Timestamp) : List (Timestamp × α) :=
  ((valueAmong? s.valid t).map fun v => (t, v)).toList

/-- The samples strictly between two moments, with a value at either moment. -/
def samplesBetween (s : TimeSeries α) (first last : Timestamp) : List (Timestamp × α) :=
  s.sampleAt first ++ s.valid.filter (fun p => decide (first < p.1) && decide (p.1 < last)) ++
    s.sampleAt last

/-- The integral over a stretch of time, in value-seconds. -/
def integrate (s : TimeSeries α) (first last : Timestamp) : α :=
  Arith.sum (trapezoids (s.samplesBetween first last))

end Hydroseries.TimeSeries
