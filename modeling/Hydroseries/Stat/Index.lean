import Hydroseries.Series.Basic
import Hydroseries.Stat.Summary

/-!
# Hydrologic indices

Indices of daily flows, by a group of two letters and a number. The groups are the magnitude of mean,
low and high flows, the duration of low and high flows, and rates of change. Years are water years,
which end with September. Most indices are a mean over years or months, or the median on request.
-/

namespace Hydroseries

/-- An index, by the letters of its group and its number. -/
structure HydroIndex where
  group : String
  number : Nat
  deriving DecidableEq, Repr

namespace HydroIndex

/-- The groups that a block can ask for. -/
def groups : List String := ["ma", "ml", "mh", "fl", "fh", "dl", "dh", "ta", "tl", "th", "ra"]

/-- The stream classes; each asks for all indices. -/
def streamClasses : List String :=
  ["all_streams", "harsh_intermittent", "flashy_intermittent", "snowmelt_perennial",
   "snow_rain_perennial", "groundwater_perennial", "flashy_perennial", "all_intermittent",
   "all_perennial"]

/-- The components of flow with the groups that they stand for. -/
def components : List (String × String) :=
  [("average_magnitude", "ma"), ("low_flow_magnitude", "ml"), ("high_flow_magnitude", "mh"),
   ("low_flow_duration", "dl"), ("high_flow_duration", "dh"), ("rate_of_change", "ra")]

/-- The numbers of a group for which there is an index. -/
def numbered : List (String × List Nat) :=
  [("MA", [1, 2, 3, 5] ++ (List.range 12).map (· + 12)), ("ML", (List.range 12).map (· + 1)),
   ("MH", (List.range 12).map (· + 1)), ("DL", (List.range 5).map (· + 1)),
   ("DH", (List.range 5).map (· + 1)), ("RA", [1, 3])]

def name (i : HydroIndex) : String := i.group ++ toString i.number

/-- All indices, in the order in which they are reported. -/
def supported : List HydroIndex :=
  numbered.flatMap fun (group, numbers) => numbers.map fun n => ⟨group, n⟩

/-- The index of a name: letters up to the first digit, and a number. -/
def ofName? (text : String) : Option HydroIndex :=
  let (letters, digits) := (Text.upper (Text.trim text)).toList.span fun c => !Text.isDigit c
  (Text.readWord64? (String.ofList digits)).map fun n => ⟨String.ofList letters, n⟩

/-- The days over which low and high flows are averaged. -/
def durations : List Nat := [1, 3, 7, 30, 90]

def monthNames : List String :=
  ["January", "February", "March", "April", "May", "June", "July", "August", "September", "October",
   "November", "December"]

inductive Measure where
  | mean
  | median
  /-- The coefficient of variation of each year. -/
  | variation
  /-- The mean over the median. -/
  | skewness
  | monthMean (month : Nat)
  | monthMin (month : Nat)
  | monthMax (month : Nat)
  | lowest (days : Nat)
  | highest (days : Nat)
  | rises
  | falls
  deriving DecidableEq, Repr

/-- What an index measures, if there is such an index. -/
def measure? (i : HydroIndex) : Option Measure :=
  let isMonth (n : Nat) : Bool := 1 ≤ n && n ≤ 12
  match i.group, i.number with
  | "MA", 1 => some .mean
  | "MA", 2 => some .median
  | "MA", 3 => some .variation
  | "MA", 5 => some .skewness
  | "MA", n => if isMonth (n - 11) then some (.monthMean (n - 11)) else none
  | "ML", n => if isMonth n then some (.monthMin n) else none
  | "MH", n => if isMonth n then some (.monthMax n) else none
  | "DL", n + 1 => (durations[n]?).map .lowest
  | "DH", n + 1 => (durations[n]?).map .highest
  | "RA", 1 => some .rises
  | "RA", 3 => some .falls
  | _, _ => none

def monthName (month : Nat) : String := (monthNames[month - 1]?).getD ""

/-- What a measure is, in words. -/
def Measure.text : Measure → String
  | mean => "Mean of the daily mean flow values for the entire record"
  | median => "Median of the daily mean flow values for the entire record"
  | variation => "Mean (or median) of the coefficients of variation of daily flows per year"
  | skewness => "Skewness of daily flows: mean divided by median"
  | monthMean m => "Mean (or median) of " ++ monthName m ++ " monthly mean flows"
  | monthMin m => "Mean (or median) of minimum " ++ monthName m ++ " flows"
  | monthMax m => "Mean (or median) of maximum " ++ monthName m ++ " flows"
  | lowest d => "Mean (or median) of annual minima of " ++ toString d ++ "-day moving average flows"
  | highest d => "Mean (or median) of annual maxima of " ++ toString d ++ "-day moving average flows"
  | rises => "Mean (or median) of positive day-to-day changes in flow"
  | falls => "Mean (or median) of negative day-to-day changes in flow"

/-- The definition of the index of a name. -/
def definition? (text : String) : Option String :=
  (ofName? text).bind fun i => i.measure?.map Measure.text

/-! ### Selecting -/

def available (group : String) : List HydroIndex :=
  supported.filter fun i => i.group = Text.upper group

def readNumber (group token : String) : Outcome Nat :=
  match Text.readWord64? (Text.trim token) with
  | some n => .ok n
  | none => .error (.invalid group token "expected index numbers such as 1 2 12-23")

/-- The indices that a word asks for: all of the group, a stretch of numbers, or one number. Of a
stretch no more is kept than shows that some of its indices are not available. -/
def ofToken (group token : String) : Outcome (List HydroIndex) :=
  let known := available group
  let index (n : Nat) : HydroIndex := ⟨Text.upper group, n⟩
  if Text.eqIgnoringAsciiCase token "all" then .ok known
  else
    match Text.cutAt (· == '-') token.toList with
    | some (a, b) => do
      let a ← readNumber group (String.ofList a)
      let b ← readNumber group (String.ofList b)
      -- A stretch that is longer than the group holds an index that is not available.
      pure ((List.range' a (min (b + 1 - a) (known.length + 1))).map index)
    | none => do
      let n ← readNumber group token
      pure [index n]

/-- The indices that the words after a group ask for. -/
def expand (group : String) (tokens : List String) : Outcome (List HydroIndex) := do
  let wanted ← tokens.mapM (ofToken group)
  let known := available group
  match wanted.flatten.find? fun i => !known.contains i with
  | none => pure wanted.flatten
  | some i =>
    let listed := if known.isEmpty then "none" else Text.join " " (known.map name)
    throw (.unsupported ("hydrologic index " ++ i.name ++ " is not available; supported " ++
      Text.upper group ++ " indices: " ++ listed))

/-- The group that a component of flow stands for. -/
def componentGroup (component : String) : Outcome String :=
  match components.lookup (Text.lower (Text.trim component)) with
  | some group => .ok group
  | none =>
    .error (.invalid "flow_component" component
      ("expected one of " ++ Text.join ", " (components.map Prod.fst)))

def checkStreamClass (name : String) : Outcome Unit :=
  if streamClasses.contains (Text.lower (Text.trim name)) then .ok ()
  else
    .error (.invalid "stream_classification" name
      ("expected one of " ++ Text.join ", " streamClasses))

/-! ### Computing -/

/-- The year of a day; a year ends with September. -/
def waterYear (d : Date) : Int := if d.month ≥ 10 then d.year + 1 else d.year

/-- Runs of values with the same key, where values with the same key are neighbours. -/
def runs {α κ : Type} [DecidableEq κ] : List (κ × α) → List (κ × List α)
  | [] => []
  | (k, v) :: rest =>
    match runs rest with
    | (k', vs) :: more => if k = k' then (k, v :: vs) :: more else (k, [v]) :: (k', vs) :: more
    | [] => [(k, [v])]

/-- The stretches of `size` values in a row. -/
def stretches {α : Type} (size : Nat) (values : List α) : List (List α) :=
  (List.range (values.length + 1 - size)).map fun i => (values.drop i).take size

/-- The differences of values from their predecessors. -/
def changes {α : Type} [Arith α] : List α → List α
  | v :: w :: rest => (w - v) :: changes (w :: rest)
  | _ => []

/-- The flows of a record in the groupings that indices are taken of. -/
structure Record (α : Type) where
  flows : List α
  years : List (Int × List α)
  /-- By the number of the month in its year. -/
  months : List ((Int × Nat) × List α)

def Record.ofSeries {α : Type} (s : TimeSeries α) : Record α :=
  let points := s.valid
  ⟨points.map Prod.snd, runs (points.map fun p => (waterYear p.1.date, p.2)),
    runs (points.map fun p => ((p.1.date.year, p.1.date.month), p.2))⟩

namespace Measure

variable {α : Type} [Transcendental α]

/-- The mean of some values, or their median. -/
def central? (useMedian : Bool) (values : List α) : Option α :=
  if useMedian then Stat.median? values else Stat.mean? values

/-- The central value over the years of a reduction of the values of one month. -/
def monthly? (r : Record α) (useMedian : Bool) (month : Nat) (reduce? : List α → Option α) :
    Option α :=
  central? useMedian <|
    (r.months.filter fun g => g.1.2 == month).filterMap fun g => reduce? g.2

/-- The central value over the years of a reduction of moving averages. Years with fewer values than
an average takes are left out. -/
def moving? (r : Record α) (useMedian : Bool) (days : Nat) (reduce? : List α → Option α) :
    Option α :=
  central? useMedian <|
    (r.years.filter fun g => decide (days ≤ g.2.length)).filterMap fun g =>
      reduce? ((stretches days g.2).filterMap Stat.mean?)

def variation? (values : List α) : Option α := do
  let spread ← Stat.stdDev? values
  let m ← Stat.mean? values
  some (spread / m * Arith.ofNat 100)

/-- The value of a measure, unless there are too few values. -/
def value? (r : Record α) (useMedian : Bool) : Measure → Option α
  | mean => Stat.mean? r.flows
  | median => Stat.median? r.flows
  | variation => central? useMedian (r.years.filterMap fun g => variation? g.2)
  | skewness => do
    let m ← Stat.mean? r.flows
    let d ← Stat.median? r.flows
    some (m / d)
  | monthMean m => monthly? r useMedian m Stat.mean?
  | monthMin m => monthly? r useMedian m Stat.min?
  | monthMax m => monthly? r useMedian m Stat.max?
  | lowest d => moving? r useMedian d Stat.min?
  | highest d => moving? r useMedian d Stat.max?
  | rises => central? useMedian ((changes r.flows).filter fun d => decide (Arith.zero < d))
  | falls => central? useMedian ((changes r.flows).filter fun d => decide (d < Arith.zero))

end Measure

/-- The values of the indices of some names over a daily series. -/
def compute {α : Type} [Transcendental α] (s : TimeSeries α) (names : List String)
    (useMedian : Bool) : Outcome (List (String × α)) := do
  -- Every measure counts days.
  if !s.frequency.isDaily then
    throw (.refused ("hydrologic indices need a daily series, found frequency " ++ s.frequency.code))
  let record := Record.ofSeries s
  names.mapM fun n =>
    match ((ofName? n).bind measure?).bind (Measure.value? record useMedian) with
    | some v =>
      if Arith.isFinite v then .ok (n, v)
      else .error (.refused ("not enough data to compute " ++ n))
    | none => .error (.refused ("not enough data to compute " ++ n))

end HydroIndex

end Hydroseries
