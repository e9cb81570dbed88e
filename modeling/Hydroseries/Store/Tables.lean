import Hydroseries.Decimal.Exact
import Hydroseries.OrderedMap
import Hydroseries.Text.Case
import Hydroseries.Time.Timestamp

/-!
# Result tables

The five kinds of tables that commands produce besides series.
-/

namespace Hydroseries

/-- How well a simulated series fits an observed one. -/
structure CTable where
  /-- Values by label, in the order of computation. -/
  stats : OrderedMap String Double
  obsName : String
  simName : String
  start : Timestamp
  finish : Timestamp
  numTerms : Nat
  deriving Repr

structure STable where
  stats : OrderedMap String Double
  sourceName : String
  start : Timestamp
  finish : Timestamp
  /-- The statistics are those of the decimal logarithms. -/
  logTransformed : Bool
  /-- The power that the values were raised to. -/
  exponent : Double
  deriving Repr

structure VolumeRow (α : Type) where
  start : Timestamp
  finish : Timestamp
  volume : α
  deriving Repr

structure VTable where
  rows : List (VolumeRow Double)
  sourceName : String
  deriving Repr

inductive Direction where
  | above
  | below
  deriving DecidableEq, Repr

namespace Direction

def read? (text : String) : Option Direction :=
  match Text.lower (Text.trim text) with
  | "over" | "above" => some above
  | "under" | "below" => some below
  | _ => none

def word : Direction → String
  | above => "above"
  | below => "below"

end Direction

/-- The time spent beyond a threshold, and its share of the whole. -/
structure ExceedanceRow (α : Type) where
  threshold : α
  delay : α
  duration : α
  fraction : α
  deriving Repr

structure ETable where
  rows : List (ExceedanceRow Double)
  sourceName : String
  units : String
  direction : Direction
  deriving Repr

inductive GTableKind where
  | flowDuration
  | hydrologicIndices
  deriving DecidableEq, Repr

/-- The word for what a general table holds. -/
def GTableKind.word : GTableKind → String
  | flowDuration => "flow_duration"
  | hydrologicIndices => "hydrologic_indices"

/-- The key of a row: a probability of exceedance as a fraction, or the label of an index. -/
inductive GKey where
  | probability (p : Double)
  | label (text : String)
  deriving Repr

/-- A probability in percent with two decimals, or the label. -/
def GKey.text : GKey → String
  | probability p => Decimal.fixed 2 (p * 100.0) ++ "%"
  | label s => s

structure GTable where
  rows : List (GKey × Double)
  sourceName : String
  kind : GTableKind
  start : Timestamp
  finish : Timestamp
  deriving Repr

/-- The value of the first row with a label, whatever the case of its letters. -/
def GTable.find? (t : GTable) (label : String) : Option Double :=
  (t.rows.find? fun row => match row.1 with
    | .label s => Text.eqIgnoringAsciiCase s label
    | .probability _ => false).map Prod.snd

end Hydroseries
