import Hydroseries.Decimal.Shortest
import Hydroseries.Equation.Eval
import Hydroseries.Params
import Hydroseries.Series.Interpolate
import Hydroseries.Series.Shape
import Hydroseries.Series.Uniform
import Hydroseries.Session

/-!
# Commands that make series from series

Each of them reads what it needs from the store and adds one new series.
-/

namespace Hydroseries.Command

/-- A series and the name of the series made of it. -/
structure Derived where
  source : EntityName
  name : EntityName
  deriving DecidableEq, Repr

namespace Derived

def ofParams (p : Params) : Outcome Derived := do
  let source ← p.entity "series_name"
  let name ← p.entity "new_series_name"
  pure ⟨source, name⟩

/-- Adds what `make` makes of the series. -/
def run (d : Derived) (make : Series → Outcome Series) : Action Unit := do
  let s ← Action.getSeries d.source
  let new ← make s
  Action.joinSeries d.name new

end Derived

/-! ### Uniform series -/

/-- A series with the same value at every step. -/
structure NewSeriesUniform where
  name : EntityName
  value : Double
  step : UniformStep
  start : Timestamp
  finish : Timestamp
  deriving Repr

namespace NewSeriesUniform

def ofParams (p : Params) (dates : DateFormat) : Outcome NewSeriesUniform := do
  let start ← p.moment "date_1" "time_1" dates
  let finish ← p.moment "date_2" "time_2" dates
  if finish < start then
    throw (.refused ("DATE_1/TIME_1 (" ++ start.text ++ ") is after DATE_2/TIME_2 (" ++
      finish.text ++ ")"))
  let name ← p.entity "new_series_name"
  let value ← p.number Params.asDouble "new_series_value"
  let unit ← p.text "time_unit"
  let interval ← p.number Params.asWord32 "time_interval"
  let step ← UniformStep.read unit interval
  pure ⟨name, value, step, start, finish⟩

def run (c : NewSeriesUniform) : Action Unit := do
  Action.joinSeries c.name (← TimeSeries.uniform c.step c.start c.finish c.value)

end NewSeriesUniform

/-! ### Other moments -/

/-- A series read off at the moments of another series. -/
structure NewTimeBase where
  source : EntityName
  base : EntityName
  name : EntityName
  deriving DecidableEq, Repr

namespace NewTimeBase

def ofParams (p : Params) : Outcome NewTimeBase := do
  let source ← p.entity "series_name"
  let base ← p.entity "tb_series_name"
  let name ← p.entity "new_series_name"
  pure ⟨source, base, name⟩

/-- Adds the series with a value at every moment at which the base has one. -/
def run (c : NewTimeBase) : Action Unit := do
  let base := (← Action.getSeries c.base).withoutGaps
  let source ← Action.getSeries c.source
  Action.joinSeries c.name (← base.withValues (source.interpolateAt base.index))

end NewTimeBase

structure ReduceTimeSpan where
  names : Derived
  window : Window
  deriving DecidableEq, Repr

namespace ReduceTimeSpan

def ofParams (p : Params) (dates : DateFormat) : Outcome ReduceTimeSpan := do
  pure ⟨← Derived.ofParams p, ← p.window dates⟩

def run (c : ReduceTimeSpan) : Action Unit := c.names.run fun s => .ok (s.within c.window)

end ReduceTimeSpan

/-! ### Other values -/

/-- A series with some values erased or replaced. -/
structure SeriesClean where
  names : Derived
  /-- What replaces the values; they are erased if it is absent. -/
  substitute : Option Double
  bounds : EraseBounds Double

namespace SeriesClean

def ofParams (p : Params) : Outcome SeriesClean := do
  let raw ← p.text "substitute_value"
  let substitute ←
    if Text.eqIgnoringAsciiCase raw "delete" then pure none
    else (p.number Params.asDouble "substitute_value").map some
  let lower ← p.number? Params.asDouble "lower_erase_boundary"
  let upper ← p.number? Params.asDouble "upper_erase_boundary"
  match lower, upper with
  | none, none =>
    throw (.refused "SERIES_CLEAN needs LOWER_ERASE_BOUNDARY, UPPER_ERASE_BOUNDARY or both")
  | some low, some high =>
    if high < low then
      throw (.refused ("LOWER_ERASE_BOUNDARY " ++ Decimal.plain low ++
        " is above UPPER_ERASE_BOUNDARY " ++ Decimal.plain high))
  | _, _ => pure ()
  pure ⟨← Derived.ofParams p, substitute, ⟨lower, upper⟩⟩

def run (c : SeriesClean) : Action Unit :=
  c.names.run fun s => s.withValues (c.bounds.clean c.substitute s.values)

end SeriesClean

def differences (names : Derived) : Action Unit :=
  names.run fun s => s.withValues (TimeSeries.differenceValues s.values)

/-- A series with its values moved along the index. -/
structure SeriesDisplace where
  names : Derived
  /-- Positive lags move values later. -/
  lag : Int
  /-- What comes in from beyond the ends. -/
  fill : Option Double
  deriving Repr

namespace SeriesDisplace

/-- Reads a block. A filling that is not finite leaves gaps. -/
def ofParams (p : Params) : Outcome SeriesDisplace := do
  let fill ← p.number Params.asDouble "fill_value"
  let names ← Derived.ofParams p
  let lag ← p.number Params.asInt64 "lag_increment"
  pure ⟨names, lag, if fill.isFinite then some fill else none⟩

def run (c : SeriesDisplace) : Action Unit :=
  c.names.run fun s => do
    let values ← TimeSeries.displaceValues s.values c.fill c.lag
    s.withValues values

end SeriesDisplace

/-- A series measured from the value of another one at a moment. -/
structure SeriesBaseLevel where
  names : Derived
  base : EntityName
  moment : Timestamp
  negate : Bool
  /-- Replace the series instead of adding one. -/
  substitute : Bool
  deriving Repr

namespace SeriesBaseLevel

def ofParams (p : Params) (dates : DateFormat) : Outcome SeriesBaseLevel := do
  let names ← Derived.ofParams p
  let base ← p.entity "base_level_series_name"
  let moment ← p.moment "base_level_date" "base_level_time" dates
  let negate ← p.flag "negate"
  let substitute ← p.flag "substitute"
  pure ⟨names, base, moment, negate, substitute⟩

/-- Adds the series, or puts it in the place of its source. -/
def run (c : SeriesBaseLevel) : Action Unit := do
  let base ← Action.getSeries c.base
  let some level := base.valueAt? c.moment
    | throw (.refused ("base level series " ++ c.base.text ++ " has no value at " ++ c.moment.text))
  let sign : Double := if c.negate then -1.0 else 1.0
  let source ← Action.getSeries c.names.source
  let leveled := source.mapValues fun v => sign * (v - level)
  if c.substitute then
    Action.changeStore fun st => st.eraseSeries c.names.source
    Action.joinSeries c.names.source leveled
  else Action.joinSeries c.names.name leveled

end SeriesBaseLevel

/-! ### Equations -/

/-- A series computed from other entities. -/
structure SeriesEquation where
  name : EntityName
  source : String
  expr : Equation.Expr
  deriving Repr

namespace SeriesEquation

def ofParams (p : Params) : Outcome SeriesEquation := do
  let source := (p.joined? "equation").getD ""
  let name ← p.entity "new_series_name"
  let expr ← Equation.read source
  pure ⟨name, source, expr⟩

def run (c : SeriesEquation) : Action Unit := do
  let s ← get
  match ← Equation.evaluate (.ofStore s.store) none c.expr with
  | .series new => Action.joinSeries c.name new
  | _ =>
    throw (.equation ("'" ++ c.source ++
      "' does not produce a time series; reference at least one series"))

end SeriesEquation

/-! ### Series from volumes -/

/-- The moment of a period at which its volume is put. -/
inductive VolumeStamp where
  | start
  | finish
  | center
  deriving DecidableEq, Repr

/-- A series of the volumes of a table. -/
structure VTableToSeries where
  table : EntityName
  name : EntityName
  stamp : VolumeStamp
  deriving DecidableEq, Repr

namespace VTableToSeries

def ofParams (p : Params) : Outcome VTableToSeries := do
  let stamp ← p.choice "time_abscissa" ["start", "end", "center", "centre", "middle"]
  let table ← p.entity "v_table_name"
  let name ← p.entity "new_series_name"
  pure ⟨table, name, match stamp with
    | "start" => .start
    | "end" => .finish
    | _ => .center⟩

/-- The moment at which the volume of a row is put. -/
def moment (stamp : VolumeStamp) (r : VolumeRow Double) : Timestamp :=
  match stamp with
  | .start => r.start
  | .finish => r.finish
  | .center => ⟨r.start.nanos + (r.finish.since r.start).tdiv 2⟩

def run (c : VTableToSeries) : Action Unit := do
  let s ← get
  let table ← Store.lookup .vTable s.store.vTables c.table
  let new ← TimeSeries.ofValues (table.rows.map fun r => (moment c.stamp r, r.volume))
  Action.joinSeries c.name new

end VTableToSeries

end Hydroseries.Command
