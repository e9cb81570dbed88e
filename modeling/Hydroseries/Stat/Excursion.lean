import Hydroseries.Series.Basic
import Hydroseries.Stat.Unit
import Hydroseries.Store.Tables

/-!
# Excursions beyond a threshold

Between two samples a value is taken to change linearly, so the moment at which it crosses a threshold
lies between them. An excursion lasts from one crossing to the next; several samples in a row beyond
the threshold belong to the same excursion.
-/

namespace Hydroseries.Excursion

variable {α : Type} [Arith α]

/-- True for values on the side of the threshold that counts. Values on the threshold do not. -/
def isBeyond (threshold : α) (direction : Direction) (v : α) : Bool :=
  match direction with
  | .above => decide (threshold < v)
  | .below => decide (v < threshold)

/-- Seconds between two moments, to the millisecond. -/
def secondsBetween (s t : Timestamp) : α := Arith.ofInt (t.millisSince s) / Arith.ofInt 1000

/-- Seconds from the first of two samples to the crossing between them. -/
def crossing (threshold : α) (span v w : α) : α := (threshold - v) / (w - v) * span

/-- The lengths of the excursions of samples. `current` is the length so far of the excursion that is
`under way`, if there is one. -/
def lengthsFrom (threshold : α) (direction : Direction) (current : α) (underWay : Bool) :
    List (Timestamp × α) → List α
  | (s, v) :: (t, w) :: rest =>
    let span := secondsBetween s t
    match isBeyond threshold direction v, isBeyond threshold direction w with
    -- Still beyond: the whole step counts.
    | true, true => lengthsFrom threshold direction (current + span) true ((t, w) :: rest)
    -- Back again: the step counts up to the crossing, and the excursion ends.
    | true, false =>
      (current + crossing threshold span v w) ::
        lengthsFrom threshold direction Arith.zero false ((t, w) :: rest)
    -- A new excursion: the step counts from the crossing on.
    | false, true =>
      lengthsFrom threshold direction (span - crossing threshold span v w) true ((t, w) :: rest)
    | false, false => lengthsFrom threshold direction current underWay ((t, w) :: rest)
  | _ => if underWay then [current] else []

/-- The lengths in seconds of the excursions of a series. -/
def lengths (s : TimeSeries α) (threshold : α) (direction : Direction) : List α :=
  lengthsFrom threshold direction Arith.zero false s.valid

/-- The seconds beyond the threshold, where the first `delay` seconds of each excursion do not
count. -/
def seconds (s : TimeSeries α) (threshold delay : α) (direction : Direction) : α :=
  Arith.sum ((lengths s threshold direction).map fun d => Arith.max (d - delay) Arith.zero)

/-- The rows of the table of exceedance times: thresholds with their delays, in units of time. -/
def rows (s : TimeSeries α) (first last : Timestamp) (unit : TimeUnit) (direction : Direction)
    (thresholds : List (α × α)) : List (ExceedanceRow α) :=
  let scale : α := unit.seconds
  let total := secondsBetween first last / scale
  thresholds.map fun (threshold, delay) =>
    let duration := seconds s threshold (delay * scale) direction / scale
    ⟨threshold, delay, duration, if Arith.zero < total then duration / total else Arith.zero⟩

end Hydroseries.Excursion
