import Hydroseries.Series.Basic

/-!
# Peaks and storm events

A peak is a value of at least a given size that no value within a window of positions on either side
surpasses; of equal values the earliest is the peak. An event is a peak with some positions before and
after it.
-/

namespace Hydroseries.Event

variable {α : Type} [Arith α]

structure Settings (α : Type) where
  riseLag : Nat
  fallLag : Nat
  window : Nat
  minPeak : α

def positionBound : Nat := Nat.pow 2 64

/-- True when `v` surpasses the values before it and is not surpassed by those from it on. -/
def dominates (v : α) (before after : List (Option α)) : Bool :=
  (before.all fun o => o.all fun w => decide (w < v)) &&
    after.all fun o => o.all fun w => decide (w ≤ v)

/-- The positions of the peaks of `values`, of which the first is at `i`; `passed` holds the values
before, nearest first. -/
def peaksFrom (window : Nat) (minPeak : α) (i : Nat) (passed : List (Option α)) :
    List (Option α) → Outcome (List Nat)
  | [] => .ok []
  | o :: rest => do
    let here ← match o with
      | none => pure false
      | some v =>
        if v < minPeak then pure false
        -- The window must end at a position that can be counted.
        else if i + window + 1 < positionBound then
          pure (dominates v (passed.take window) ((o :: rest).take (window + 1)))
        else throw .outOfRange
    let later ← peaksFrom window minPeak (i + 1) (o :: passed) rest
    pure (if here then i :: later else later)

def peaks (values : List (Option α)) (window : Nat) (minPeak : α) : Outcome (List Nat) :=
  peaksFrom window minPeak 0 [] values

/-- True for positions that belong to the event of a peak. -/
def covers (s : Settings α) (i peak : Nat) : Bool := peak - s.riseLag ≤ i && i ≤ peak + s.fallLag

/-- The series with the values of events only. -/
def extract (series : TimeSeries α) (s : Settings α) : Outcome (TimeSeries α) := do
  if s.window = 0 then throw (.invalid "window" "0" "must be at least 1")
  let found ← peaks series.values s.window s.minPeak
  if found.any fun p => decide (positionBound ≤ p + s.fallLag + 1) then throw .outOfRange
  pure ⟨series.points.mapIdx fun i p =>
    (p.1, if found.any (covers s i) then p.2 else none)⟩

end Hydroseries.Event
