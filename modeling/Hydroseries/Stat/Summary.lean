import Hydroseries.Arith
import Hydroseries.Fault

/-!
# Summary statistics

Statistics of a list of values, and the means of blocks of positions. A statistic is missing when
there are too few values for it.
-/

namespace Hydroseries

inductive Statistic where
  | sum
  | mean
  | median
  | stdDev
  | maximum
  | minimum
  | range
  deriving DecidableEq, Repr

namespace Stat

variable {α : Type} [Arith α]

def mean? (values : List α) : Option α := if values.isEmpty then none else some (Arith.mean values)

def max? : List α → Option α
  | [] => none
  | v :: rest => some (rest.foldl Arith.max v)

def min? : List α → Option α
  | [] => none
  | v :: rest => some (rest.foldl Arith.min v)

/-- The value at a share of the way through the sorted values, interpolated between neighbours. The
share is brought between zero and one. -/
def quantile? (values : List α) (q : α) : Option α :=
  let sorted := (Arith.sort values).toArray
  let position := Arith.clamp Arith.zero Arith.one q * Arith.ofNat (sorted.size - 1)
  let low := Arith.floorNat position
  match sorted[low]?, sorted[Arith.ceilNat position]? with
  | some a, some b => some (a + (b - a) * (position - Arith.ofNat low))
  | _, _ => none

def median? (values : List α) : Option α := quantile? values (Arith.one / Arith.ofNat 2)

/-- The sum of the squared distances from `m`. -/
def squaredSpread (values : List α) (m : α) : α :=
  Arith.sum (values.map fun v => Arith.pow (v - m) 2)

/-- The standard deviation of a sample of at least two values. -/
def stdDev? {α : Type} [Transcendental α] (values : List α) : Option α :=
  if values.length < 2 then none
  else
    let spread := squaredSpread values (Arith.mean values)
    some (Transcendental.sqrt (spread / Arith.ofNat (values.length - 1)))

/-- Cuts a list into pieces of `size`; the last one may be shorter. The fuel bounds their number. -/
def chunksGo {β : Type} (size : Nat) : Nat → List β → List (List β)
  | 0, _ => []
  | fuel + 1, xs => if xs.isEmpty then [] else xs.take size :: chunksGo size fuel (xs.drop size)

/-- Cuts a list into pieces of `size`, at least one; the last one may be shorter. -/
def chunks {β : Type} (size : Nat) (xs : List β) : List (List β) := chunksGo size xs.length xs

/-- The means of consecutive blocks of positions. Missing values are skipped, and blocks without any
value have no mean. -/
def blockMeans (values : List (Option α)) (size : Nat) : List α :=
  if size = 0 then [] else (chunks size values).filterMap fun block => mean? (block.filterMap id)

end Stat

namespace Statistic

/-- All statistics, in the order in which they are reported. -/
def all : List Statistic := [sum, mean, median, stdDev, maximum, minimum, range]

def keyword : Statistic → String
  | sum => "sum"
  | mean => "mean"
  | median => "median"
  | stdDev => "std_dev"
  | maximum => "maximum"
  | minimum => "minimum"
  | range => "range"

def read (text : String) : Outcome Statistic :=
  let word := Text.lower (Text.trim text)
  match all.find? fun s => s.keyword = word with
  | some s => .ok s
  | none =>
    .error (.invalid "statistic" text
      "expected mean, std_dev, median, sum, maximum, minimum or range")

/-- The value of a statistic, unless there are too few values. -/
def value? {α : Type} [Transcendental α] (s : Statistic) (values : List α) : Option α :=
  match s with
  | sum => if values.isEmpty then none else some (Arith.sum values)
  | mean => Stat.mean? values
  | median => Stat.median? values
  | stdDev => Stat.stdDev? values
  | maximum => Stat.max? values
  | minimum => Stat.min? values
  | range => do
    let high ← Stat.max? values
    let low ← Stat.min? values
    some (high - low)

end Statistic

end Hydroseries
