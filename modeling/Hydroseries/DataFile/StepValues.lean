import Hydroseries.DataFile.StatVar

/-!
# Files of values at steps

The first line holds the number of values, which follow one a line; later lines are ignored. The
values stand at equal steps from a first moment on.
-/

namespace Hydroseries.DataFile.StepValues

/-- The values of lines at steps of some seconds from `t` on. The moment after the last value must be
in the calendar too. -/
def pointsFrom (path : String) (step : Int) (t : Timestamp) :
    List (String × Nat) → Outcome (List (Timestamp × Double))
  | [] => .ok []
  | (text, n) :: rest => do
    let v ← number path n text
    let some following := t.plus? (step * Timestamp.secondNanos) | throw .outOfRange
    let more ← pointsFrom path step following rest
    pure ((t, v) :: more)

def read (path text : String) (start : Timestamp) (step : Int) : Outcome Series := do
  let (count, rest) ← StatVar.countAndRest path "values" text
  let points ← pointsFrom path step start (rest.take count)
  if rest.length < count then
    throw (.unreadable path
      ("expected " ++ toString count ++ " values, found " ++ toString rest.length))
  TimeSeries.ofValues points

end Hydroseries.DataFile.StepValues
