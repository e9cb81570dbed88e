import Hydroseries.Series.Basic

/-!
# Uniform series

A series with one value at every step from a first moment on. Steps are fixed spans of time or whole
months; a step of months from a day that a month does not have ends on the last day of that month.
-/

namespace Hydroseries

/-- The distance between the points of a uniform series. -/
inductive UniformStep where
  | seconds (n : Nat)
  | months (n : Nat)
  deriving DecidableEq, Repr

namespace UniformStep

/-- Drops every `s` at the end. -/
def singular (word : String) : String :=
  String.ofList ((word.toList.reverse.dropWhile (· == 's')).reverse)

/-- Step counts are machine words of 32 bits. -/
def countBound : Nat := Nat.pow 2 32

/-- Reads a step: a unit, in the singular or the plural, and how many of it. -/
def read (unit : String) (interval : Nat) : Outcome UniformStep :=
  if interval = 0 then .error (.invalid "time_interval" "0" "must be at least 1")
  else
    match singular (Text.lower (Text.trim unit)) with
    | "second" | "sec" => .ok (seconds interval)
    | "minute" | "min" => .ok (seconds (interval * 60))
    | "hour" => .ok (seconds (interval * 3600))
    | "day" => .ok (seconds (interval * 86400))
    | "month" => .ok (months interval)
    | "year" => if interval * 12 < countBound then .ok (months (interval * 12)) else .error .outOfRange
    | _ =>
      .error (.invalid "time_unit" unit "expected seconds, minutes, hours, days, months or years")

/-- The day `n` months later, or the last day of that month if the month is too short. -/
def monthsLater? (d : Date) (n : Nat) : Option Date :=
  let c := d.civil
  let total := c.month - 1 + n
  let year := c.year + (total / 12 : Nat)
  let month := total % 12 + 1
  if n < Nat.pow 2 31 then Date.ofYmd? year month (min c.day (Calendar.daysInMonth year month)) else none

/-- The moment `count` steps after `start`, if counts and calendar reach it. -/
def advance? (step : UniformStep) (start : Timestamp) (count : Nat) : Option Timestamp :=
  match step with
  | seconds n => if count < Nat.pow 2 31 then start.plus? (n * count * Timestamp.secondNanos) else none
  | months n => (monthsLater? start.date (n * count)).map fun d => .ofDate d start.sinceMidnight

/-- A bound on the number of steps of a stretch: seconds are as long as they are, months at least
four weeks. -/
def bound (step : UniformStep) (start finish : Timestamp) : Nat :=
  let shortest : Int := match step with
    | seconds n => n * Timestamp.secondNanos
    | months n => n * 28 * Timestamp.dayNanos
  (finish.since start / shortest).toNat + 2

/-- Collects the moments from the `count`-th on, in reverse before `acc`. -/
def momentsGo (step : UniformStep) (start finish : Timestamp) :
    Nat → Nat → List Timestamp → List Timestamp
  | 0, _, acc => acc.reverse
  | fuel + 1, count, acc =>
    match step.advance? start count with
    | none => acc.reverse
    | some t =>
      -- Each moment is counted from the start, so a short month does not shift later ones.
      if finish < t then acc.reverse else momentsGo step start finish fuel (count + 1) (t :: acc)

/-- The moments from `start` up to `finish`. -/
def moments (step : UniformStep) (start finish : Timestamp) : List Timestamp :=
  momentsGo step start finish (step.bound start finish) 0 []

end UniformStep

/-- The series with the same value at every step. -/
def TimeSeries.uniform {α : Type} (step : UniformStep) (start finish : Timestamp) (value : α) :
    Outcome (TimeSeries α) :=
  ofValues ((step.moments start finish).map fun t => (t, value))

end Hydroseries
