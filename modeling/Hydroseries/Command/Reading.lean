import Hydroseries.DataFile.Csv
import Hydroseries.DataFile.Gage
import Hydroseries.DataFile.Plotgen
import Hydroseries.DataFile.SiteSample
import Hydroseries.DataFile.StepValues
import Hydroseries.Params
import Hydroseries.Session

/-!
# Commands that read data files

A block names a file, which columns of it are wanted, and the names of the series that they become.
-/

namespace Hydroseries.Command

/-- The formats of text files, with what a block says about the file. -/
inductive TextFormat where
  /-- Comma separated columns, of which one is wanted. -/
  | csv (column : Option String)
  | siteSample
  | plotgen
  | statVar
  | gage (reference : Timestamp) (unitsPerDay : Nat)
  | stepValues (start : Timestamp) (step : Int)
  deriving Repr

structure GetSeries where
  format : TextFormat
  file : String
  /-- Labels of columns with the names of the new series. -/
  picks : List (String × EntityName)
  window : Window
  dates : DateFormat
  deriving Repr

namespace GetSeries

/-- The beginnings of the names of reading commands. -/
def commandStarts : List String := ["GET_MUL_SERIES_", "GET_SERIES_"]

/-- The name of a format in the name of a command. -/
def formatName (command : String) : String :=
  match commandStarts.find? fun start => start.toList.isPrefixOf command.toList with
  | some start => String.ofList (command.toList.drop start.length)
  | none => command

/-- Pairs labels with the names of new series, of which there must be as many. -/
def paired (p : Params) (labels : List String) : Outcome (List (String × EntityName)) :=
  let names := p.entities "new_series_name"
  if labels.length = names.length then .ok (labels.zip names)
  else
    .error (.refused (p.command ++ " lists " ++ toString labels.length ++ " source labels but " ++
      toString names.length ++ " NEW_SERIES_NAME values"))

def statVarLabels (p : Params) : Outcome (List String) :=
  let names := p.tokens "variable_name"
  let locations := p.tokens "location_id"
  if names.length = locations.length then
    .ok (names.zipWith (fun v l => v ++ "_" ++ l) locations)
  else
    .error (.refused (p.command ++ " lists " ++ toString names.length ++
      " VARIABLE_NAME values but " ++ toString locations.length ++ " LOCATION_ID values"))

/-- The moment that model times count from. -/
def reference (p : Params) (dates : DateFormat) : Outcome Timestamp :=
  p.moment "model_reference_date" "model_reference_time" dates

/-- The one series of a block, whatever its label. -/
def single (p : Params) : Outcome (List (String × EntityName)) := do
  pure [("", ← p.entity "new_series_name")]

/-- Reads the format and the wanted columns of a block. -/
def formatAndPicks (p : Params) (dates : DateFormat) :
    Outcome (TextFormat × List (String × EntityName)) := do
  match formatName p.command with
  | "CSV" => pure (.csv (p.text? "usecol"), ← single p)
  | "SSF" => pure (.siteSample, ← paired p (p.tokens "site"))
  | "PLOTGEN" => pure (.plotgen, ← paired p (p.entries "label"))
  | "STATVAR" =>
    let labels ← statVarLabels p
    pure (.statVar, ← paired p labels)
  | "GSFLOW_GAGE" =>
    let unitsPerDay ← p.number Params.asWord32 "time_units_per_day"
    if unitsPerDay = 0 then throw DataFile.Gage.noUnits
    let start ← reference p dates
    pure (.gage start unitsPerDay, ← paired p ((p.tokens "data_type").map Text.upper))
  | "UFORE_HYDRO" =>
    let start ← reference p dates
    let step ← TimeStep.read (← p.text "time_increment")
    pure (.stepValues start step, ← single p)
  | other => throw (.unsupported ("no text reader for GET_SERIES_" ++ other))

def ofParams (p : Params) (dates : DateFormat) : Outcome GetSeries := do
  let window ← p.window dates
  let (format, picks) ← formatAndPicks p dates
  pure { format, file := ← p.text "file", picks, window, dates }

/-- The columns of a file; a file of values at steps has a single one without label. -/
def table (c : GetSeries) (path text : String) : Outcome DataTable :=
  match c.format with
  | .csv _ => DataFile.Csv.read path text c.dates
  | .siteSample => DataFile.SiteSample.read path text c.dates
  | .plotgen => DataFile.Plotgen.read path text
  | .statVar => DataFile.StatVar.read path text
  | .gage start unitsPerDay => DataFile.Gage.read path text start unitsPerDay
  | .stepValues start step => do pure ⟨[("", ← DataFile.StepValues.read path text start step)]⟩

def labelOf (c : GetSeries) (path : String) (columns : DataTable) (label : String) :
    Outcome String :=
  match c.format with
  | .csv column => DataFile.Csv.columnLabel path columns column
  | _ => .ok label

/-- Reads the file and adds the wanted series one by one. -/
def run (c : GetSeries) : Action Unit := do
  let path ← Action.resolve c.file
  let columns ← c.table path (← Action.readText path)
  for (label, name) in c.picks do
    let label ← c.labelOf path columns label
    let s ← DataFile.pick path columns label c.window
    Action.joinSeries name s

end GetSeries

structure GetBinarySeries where
  file : Option String
  name : EntityName
  /-- What is wanted, but for the resolved name of the file. -/
  request : BinaryRequest
  deriving Repr

namespace GetBinarySeries

/-- The keywords that do not select a series in the file. -/
def notSelectors : List String :=
  ["file", "new_series_name", "series_name", "date_1", "time_1", "date_2", "time_2"]

/-- The keywords that select a series in the file. -/
def selectors (p : Params) : OrderedMap String String :=
  ⟨(p.values.entries.filter fun e => !notSelectors.contains e.1).map fun e => (e.1, e.2.joined " ")⟩

def ofParams (p : Params) (dates : DateFormat) : Outcome GetBinarySeries := do
  let some format := BinaryFormat.all.find? fun f => f.command = "GET_SERIES_" ++ GetSeries.formatName p.command
    | throw (.unsupported ("no binary reader for GET_SERIES_" ++ GetSeries.formatName p.command))
  let some name := (p.entity? "new_series_name").or (p.entity? "series_name")
    | throw (.missingKeywords p.command p.line ["NEW_SERIES_NAME"])
  let window ← p.window dates
  pure ⟨p.text? "file", name, ⟨format, none, selectors p, window⟩⟩

/-- Asks for the series and adds what of it lies in the window. -/
def run (c : GetBinarySeries) : Action Unit := do
  let path ← c.file.mapM Action.resolve
  let s ← Action.readBinary { c.request with path }
  Action.joinSeries c.name (s.within c.request.window)

end GetBinarySeries

end Hydroseries.Command
