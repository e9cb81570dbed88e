import Hydroseries.Params
import Hydroseries.Session
import Hydroseries.Stat.Baseflow
import Hydroseries.Stat.Event
import Hydroseries.Stat.Excursion
import Hydroseries.Stat.Filter
import Hydroseries.Stat.FlowDuration
import Hydroseries.Stat.Index
import Hydroseries.Stat.Volume

/-!
# Commands on flows

Filters, storm events, baseflow, flow duration, exceedance times, hydrologic indices and volumes.
-/

namespace Hydroseries.Command

/-- Applies `f` to the values of a series and puts the results back at their moments. -/
def onValid (s : Series) (f : List Double → Outcome (List Double)) : Outcome Series := do
  let out ← f s.validValues
  TimeSeries.ofOrdered ((s.valid.map Prod.fst).zip (out.map some))

/-- The part of a series in a window, from its first value to its last, of which there must be one. -/
def windowed (name : EntityName) (window : Window) : Action Series := do
  let s := ((← Action.getSeries name).within window).trimmed
  if s.validCount = 0 then
    throw (.refused ("series " ++ name.text ++ " has no values in the requested window"))
  pure s

/-- The times of the first and the last value of a series, of which there must be one. -/
def extent (name : EntityName) (s : Series) : Outcome (Timestamp × Timestamp) :=
  match s.firstValid?, s.lastValid? with
  | some start, some finish => .ok (start, finish)
  | _, _ => .error (.refused ("series " ++ name.text ++ " is empty"))

/-! ### Filters -/

inductive FilterKind where
  | butterworth (f : Filter.Butterworth)
  | baseflow (f : Filter.Chapman Double)

structure DigitalFilter where
  source : EntityName
  name : EntityName
  filter : FilterKind

namespace DigitalFilter

def readButterworth (p : Params) : Outcome Filter.Butterworth := do
  let pass ← Filter.Pass.read (← p.text "filter_pass")
  let (cutoff, upper) ← match pass with
    | .band => do
      let low ← p.number Params.asDouble "cutoff_frequency_1"
      let high ← p.number Params.asDouble "cutoff_frequency_2"
      pure (low, some high)
    | .low | .high => do
      let cutoff ← p.number Params.asDouble "cutoff_frequency"
      pure (cutoff, none)
  let stages := (← p.number? Params.asSize "stages").getD 1
  if stages < 1 ∨ 3 < stages then
    throw (.invalid "stages" (toString stages) "must be 1, 2 or 3")
  let reverse ← p.flag "reverse_second_stage"
  pure ⟨pass, cutoff, upper, stages, reverse⟩

def readChapman (p : Params) : Outcome (Filter.Chapman Double) := do
  let usual := Filter.Chapman.usual
  let alpha := (← p.number? Params.asDouble "alpha").getD usual.alpha
  let passes := (← p.number? Params.asSize "passes").getD usual.passes
  let clipInput ← p.flag "clip_input"
  let clipZero ← p.flag "clip_zero"
  pure ⟨alpha, passes, clipInput, clipZero⟩

def ofParams (p : Params) : Outcome DigitalFilter := do
  let filter ← match ← p.choice "filter_type" ["butterworth", "baseflow_separation"] with
    | "butterworth" => do pure (FilterKind.butterworth (← readButterworth p))
    | _ => do pure (FilterKind.baseflow (← readChapman p))
  let source ← p.entity "series_name"
  let name ← p.entity "new_series_name"
  pure ⟨source, name, filter⟩

def series (c : DigitalFilter) (s : Series) : Outcome Series :=
  match c.filter with
  | .butterworth f =>
    match s.frequency.samplesPerDay? with
    | some rate => onValid s fun values => f.apply values rate
    | none =>
      .error (.refused ("series " ++ c.source.text ++ " has no regular time step to filter"))
  | .baseflow f => onValid s f.apply

def run (c : DigitalFilter) : Action Unit := do
  let new ← c.series (← Action.getSeries c.source)
  Action.joinSeries c.name new

end DigitalFilter

/-! ### Events -/

structure HydroEvents where
  source : EntityName
  name : EntityName
  settings : Event.Settings Double
  window : Window

namespace HydroEvents

/-- Reads a block. Without `lags` events consist of their peaks only. -/
def ofParams (p : Params) (dates : DateFormat) (lags : Bool) : Outcome HydroEvents := do
  let minPeak := (← p.number? Params.asDouble "min_peak").getD 0.0
  if minPeak < 0.0 then
    throw (.invalid "min_peak" (Decimal.plain minPeak) "must not be negative")
  let lag (key : String) : Outcome Nat := if lags then p.number Params.asSize key else .ok 0
  let riseLag ← lag "rise_lag"
  let fallLag ← lag "fall_lag"
  let source ← p.entity "series_name"
  let name ← p.entity "new_series_name"
  let reach := (← p.number? Params.asSize "window").getD 1
  let window ← p.window dates
  pure ⟨source, name, ⟨riseLag, fallLag, reach, minPeak⟩, window⟩

def run (c : HydroEvents) : Action Unit := do
  let s ← windowed c.source c.window
  Action.joinSeries c.name (← Event.extract s c.settings)

end HydroEvents

/-! ### Baseflow -/

/-- The baseflow of a series by the least flows of intervals. -/
structure UsgsHysep where
  source : EntityName
  name : EntityName
  method : Baseflow.Method
  interval : Nat
  window : Window
  deriving Repr

namespace UsgsHysep

def ofParams (p : Params) (dates : DateFormat) : Outcome UsgsHysep := do
  let source ← p.entity "series_name"
  let name ← p.entity "new_series_name"
  let method ← Baseflow.Method.read (← p.text "hysep_type")
  let interval ← p.number Params.asSize "time_interval"
  let window ← p.window dates
  pure ⟨source, name, method, interval, window⟩

def run (c : UsgsHysep) : Action Unit := do
  let s ← windowed c.source c.window
  Action.joinSeries c.name (← onValid s fun flow => Baseflow.separate flow c.method c.interval)

end UsgsHysep

/-! ### Flow duration and exceedance -/

structure FlowDurationTable where
  source : EntityName
  name : EntityName
  percents : List Double
  window : Window
  deriving Repr

namespace FlowDurationTable

def ofParams (p : Params) (dates : DateFormat) : Outcome FlowDurationTable := do
  let source ← p.entity "series_name"
  let name ← p.entity "new_g_table_name"
  let percents ← p.floats "exceedance_probabilities"
  let window ← p.window dates
  pure ⟨source, name, percents, window⟩

def run (c : FlowDurationTable) : Action Unit := do
  let s ← windowed c.source c.window
  let curve ← FlowDuration.curve s.validValues c.percents
  let (start, finish) ← extent c.source s
  let rows := curve.map fun (percent, flow) => (GKey.probability (percent / 100.0), flow)
  Action.insertTable c.name (.g ⟨rows, c.source.text, .flowDuration, start, finish⟩)

end FlowDurationTable

/-- The times that a series spends beyond thresholds. -/
structure ExceedanceTime where
  source : EntityName
  name : EntityName
  unit : TimeUnit
  direction : Direction
  /-- Thresholds with their delays, in units of time. -/
  thresholds : List (Double × Double)
  deriving Repr

namespace ExceedanceTime

def readDirection (p : Params) : Outcome Direction :=
  match p.text? "under_over" with
  | none => .ok .above
  | some raw =>
    match Direction.read? raw with
    | some d => .ok d
    | none => .error (.invalid "under_over" raw "expected over or under")

def ofParams (p : Params) : Outcome ExceedanceTime := do
  let direction ← readDirection p
  let flows ← p.floats "flow"
  if flows.isEmpty then
    throw (.refused "EXCEEDANCE_TIME needs at least one FLOW threshold")
  let delays ← p.floats "delay"
  let delays := if delays.isEmpty then flows.map fun _ => 0.0 else delays
  if delays.length ≠ flows.length then
    throw (.refused ("EXCEEDANCE_TIME lists " ++ toString flows.length ++ " FLOW values but " ++
      toString delays.length ++ " DELAY values"))
  let source ← p.entity "series_name"
  let name ← p.entity "new_e_table_name"
  let unit ← TimeUnit.read (← p.text "exceedance_time_units")
  pure ⟨source, name, unit, direction, flows.zip delays⟩

def table (c : ExceedanceTime) (s : Series) : Outcome ETable := do
  let (start, finish) ← extent c.source s
  let rows := Excursion.rows s start finish c.unit c.direction c.thresholds
  pure ⟨rows, c.source.text, c.unit.word, c.direction⟩

def run (c : ExceedanceTime) : Action Unit := do
  let t ← c.table (← Action.getSeries c.source)
  Action.insertTable c.name (.e t)

end ExceedanceTime

/-! ### Indices -/

structure HydrologicIndices where
  source : EntityName
  name : EntityName
  indices : List HydroIndex
  useMedian : Bool
  window : Window
  deriving Repr

namespace HydrologicIndices

/-- The indices that a block asks for, by groups, components and classes, with repetitions. -/
def wanted (p : Params) : Outcome (List HydroIndex) := do
  let byGroup ← HydroIndex.groups.mapM fun group => HydroIndex.expand group (p.tokens group)
  let byComponent ← (p.tokens "flow_component").mapM fun component => do
    HydroIndex.expand (← HydroIndex.componentGroup component) ["all"]
  let byClass ← (p.tokens "stream_classification").mapM fun name => do
    HydroIndex.checkStreamClass name
    pure HydroIndex.supported
  pure (byGroup.flatten ++ byComponent.flatten ++ byClass.flatten)

def ofParams (p : Params) (dates : DateFormat) : Outcome HydrologicIndices := do
  let indices := (← wanted p).eraseDups
  if indices.isEmpty then
    throw (.refused ("HYDROLOGIC_INDICES selects no index; give an index group, FLOW_COMPONENT " ++
      "or STREAM_CLASSIFICATION"))
  let source ← p.entity "series_name"
  let name ← p.entity "new_g_table_name"
  let useMedian ← p.flag "use_median"
  let _ ← p.flag "current_definitions"
  let window ← p.window dates
  pure ⟨source, name, indices, useMedian, window⟩

def run (c : HydrologicIndices) : Action Unit := do
  let s ← windowed c.source c.window
  let values ← HydroIndex.compute s (c.indices.map HydroIndex.name) c.useMedian
  let (start, finish) ← extent c.source s
  let rows := values.map fun (name, v) => (GKey.label name, v)
  Action.insertTable c.name (.g ⟨rows, c.source.text, .hydrologicIndices, start, finish⟩)

end HydrologicIndices

/-! ### Volumes -/

/-- Where the periods of volumes come from. -/
inductive VolumeDates where
  | file (name : String)
  | calendar (period : CalendarPeriod)
  deriving DecidableEq, Repr

structure VolumeCalculation where
  source : EntityName
  name : EntityName
  dates : VolumeDates
  unit : TimeUnit
  factor : Double
  format : DateFormat
  deriving Repr

namespace VolumeCalculation

/-- Reads where the periods come from; a block says so exactly once. -/
def readDates (p : Params) : Outcome VolumeDates := do
  match p.text? "date_file", p.text? "automatic_dates" with
  | some file, none => pure (.file file)
  | none, some _ =>
    match ← p.choice "automatic_dates" ["year", "month", "day"] with
    | "year" => pure (.calendar .year)
    | "month" => pure (.calendar .month)
    | _ => pure (.calendar .day)
  | _, _ =>
    throw (.refused "VOLUME_CALCULATION needs exactly one of DATE_FILE or AUTOMATIC_DATES")

def ofParams (p : Params) (format : DateFormat) : Outcome VolumeCalculation := do
  let dates ← readDates p
  let source ← p.entity "series_name"
  let name ← p.entity "new_v_table_name"
  let unit ← TimeUnit.read (← p.text "flow_time_units")
  let factor := (← p.number? Params.asDouble "factor").getD 1.0
  pure ⟨source, name, dates, unit, factor, format⟩

/-- Reads a line of a file of periods: two dates, each with a time of day. -/
def readPeriod (format : DateFormat) (line : Nat) (words : List String) :
    Outcome (Timestamp × Timestamp) := do
  match words with
  | date₁ :: time₁ :: date₂ :: time₂ :: _ =>
    let start ← format.combine date₁ (some time₁)
    let finish ← format.combine date₂ (some time₂)
    if finish < start then
      throw (.refused ("DATE_FILE line " ++ toString line ++ ": period ends before it starts"))
    pure (start, finish)
  | _ =>
    throw (.refused ("DATE_FILE line " ++ toString line ++
      ": expected date_1 time_1 date_2 time_2"))

/-- Reads a file of periods, in which a number sign begins a comment. -/
def readPeriods (format : DateFormat) (text : String) : Outcome (List (Timestamp × Timestamp)) :=
  let lines := (Text.lines text).map fun l => Text.words (String.ofList (l.toList.takeWhile (· != '#')))
  ((lines.zipIdx 1).filter fun l => !l.1.isEmpty).mapM fun (words, n) => readPeriod format n words

/-- The periods, for a record between two moments. -/
def periods (c : VolumeCalculation) (first last : Timestamp) :
    Action (List (Timestamp × Timestamp)) := do
  match c.dates with
  | .calendar period => pure (period.periods first last)
  | .file name => readPeriods c.format (← Action.readText (← Action.resolve name))

def run (c : VolumeCalculation) : Action Unit := do
  let s := (← Action.getSeries c.source).withoutGaps
  let (first, last) ← extent c.source s
  let periods ← c.periods first last
  if periods.isEmpty then
    throw (.refused ("no volume periods fall within series " ++ c.source.text))
  Action.insertTable c.name (.v ⟨volumeRows s c.unit c.factor periods, c.source.text⟩)

end VolumeCalculation

end Hydroseries.Command
