import Hydroseries.Fault
import Hydroseries.Stat.Summary

/-!
# Baseflow by minima

Three ways to separate the baseflow of daily values by the least flow of an interval: one value for
each of consecutive intervals, the least flow of an interval that slides along, and straight lines
between the local minima. The baseflow is never above the flow.
-/

namespace Hydroseries.Baseflow

inductive Method where
  | fixed
  | locMin
  | sliding
  deriving DecidableEq, Repr

def Method.read (text : String) : Outcome Method :=
  match Text.lower (Text.trim text) with
  | "fixed" => .ok fixed
  | "local" => .ok locMin
  | "sliding" | "slide" => .ok sliding
  | _ => .error (.invalid "hysep_type" text "expected fixed, local or sliding")

variable {α : Type} [Arith α]

/-- The least value of a window; values that are no numbers do not count. -/
def windowMin (values : List α) : α :=
  (Stat.min? (values.filter fun v => !Arith.isNaN v)).getD Arith.infinity

/-- The positions from `i` less half an interval up to `i` and half an interval, inside `flow`. -/
def windowAt (flow : Array α) (interval i : Nat) : List α :=
  let half := (interval - 1) / 2
  (flow.extract (i - half) (i + half + 1)).toList

/-- The least flow of each of consecutive intervals. -/
def fixedMinima (flow : List α) (interval : Nat) : List α :=
  (Stat.chunks interval flow).flatMap fun block => block.map fun _ => windowMin block

/-- The least flow of the interval around each position. -/
def slidingMinima (flow : List α) (interval : Nat) : List α :=
  let array := flow.toArray
  (List.range array.size).map fun i => windowMin (windowAt array interval i)

/-- The positions whose flow is the least of the interval around them. -/
def turningPoints (flow : Array α) (interval : Nat) : List Nat :=
  (List.range flow.size).filter fun i =>
    match flow[i]? with
    | some q => decide (q ≤ windowMin (windowAt flow interval i))
    | none => false

/-- The straight line between the flows of two turning points, at a position between them. -/
def between (flow : Array α) (a b i : Nat) : α :=
  match flow[a]?, flow[b]? with
  | some p, some q => p + (q - p) * (Arith.ofNat (i - a) / Arith.ofNat (b - a))
  | _, _ => Arith.zero

/-- The lines between turning points, continued to the ends by their flows. -/
def lineThrough (flow : Array α) (points : List Nat) (i : Nat) : α :=
  let at_ (k : Nat) : α := (flow[k]?).getD Arith.zero
  match (points.filter (· < i)).getLast?, points.find? (i ≤ ·) with
  | none, some b => at_ b
  | some a, none => at_ a
  | some a, some b => if b = i then at_ i else between flow a b i
  | none, none => at_ i

def localMinima (flow : List α) (interval : Nat) : List α :=
  let array := flow.toArray
  let points := turningPoints array interval
  (List.range array.size).map (lineThrough array points)

/-- The baseflow, before it is cut off at the flow. -/
def raw (flow : List α) (method : Method) (interval : Nat) : List α :=
  match method with
  | .fixed => fixedMinima flow interval
  | .sliding => slidingMinima flow interval
  | .locMin => localMinima flow interval

def separate (flow : List α) (method : Method) (interval : Nat) : Outcome (List α) :=
  if interval = 0 then .error (.invalid "time_interval" "0" "must be at least 1")
  else .ok ((raw flow method interval).zipWith Arith.min flow)

end Hydroseries.Baseflow
