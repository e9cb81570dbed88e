import Hydroseries.Arith
import Hydroseries.Fault

/-!
# Units of time

The units of flows and durations. A year is that of the stars, 365 days 6 hours 9 minutes and 9
seconds, and a month a twelfth of it.
-/

namespace Hydroseries

inductive TimeUnit where
  | year
  | month
  | day
  | hour
  | minute
  | second
  deriving DecidableEq, Repr

namespace TimeUnit

/-- Drops one `s` at the end. -/
def singular (word : String) : String :=
  match word.toList.reverse with
  | 's' :: rest => String.ofList rest.reverse
  | _ => word

/-- Reads a unit, in the singular or the plural. -/
def read (text : String) : Outcome TimeUnit :=
  match singular (Text.lower (Text.trim text)) with
  | "year" => .ok year
  | "month" => .ok month
  | "day" => .ok day
  | "hour" => .ok hour
  | "min" | "minute" => .ok minute
  | "sec" | "second" => .ok second
  | _ => .error (.invalid "time_units" text "expected year, month, day, hour, min or sec")

def seconds {α : Type} [Arith α] : TimeUnit → α
  | year => Arith.ofInt 31558149
  | month => Arith.ofInt 31558149 / Arith.ofInt 12
  | day => Arith.ofInt 86400
  | hour => Arith.ofInt 3600
  | minute => Arith.ofInt 60
  | second => Arith.ofInt 1

def word : TimeUnit → String
  | year => "years"
  | month => "months"
  | day => "days"
  | hour => "hours"
  | minute => "mins"
  | second => "secs"

end TimeUnit

end Hydroseries
