import Hydroseries.Time.DateFormat

/-!
# Windows of time

A window has an optional first and an optional last moment, both inside.
-/

namespace Hydroseries

/-- A closed stretch of time, open-ended where a bound is missing. -/
structure Window where
  start : Option Timestamp := none
  finish : Option Timestamp := none
  deriving DecidableEq, Repr, Inhabited

namespace Window

def unbounded : Window := {}

def isUnbounded (w : Window) : Bool := w.start.isNone && w.finish.isNone

/-- True for the moments inside, bounds included. -/
def contains (w : Window) (t : Timestamp) : Bool :=
  w.start.all (fun s => decide (s ≤ t)) && w.finish.all fun e => decide (t ≤ e)

/-- Reads the bounds from dates and times of day. A time without its date is not looked at. -/
def read (date₁ time₁ date₂ time₂ : Option String) (format : DateFormat) : Outcome Window := do
  let start ← date₁.mapM fun d => format.combine d time₁
  let finish ← date₂.mapM fun d => format.combine d time₂
  match start, finish with
  | some s, some e =>
    if e < s then
      .error (.refused ("DATE_1/TIME_1 (" ++ s.text ++ ") is after DATE_2/TIME_2 (" ++ e.text ++ ")"))
    else pure ⟨start, finish⟩
  | _, _ => pure ⟨start, finish⟩

end Window

end Hydroseries
