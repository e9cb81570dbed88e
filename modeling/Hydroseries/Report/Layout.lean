import Hydroseries.Record.Writer
import Hydroseries.Report.Listing
import Hydroseries.Report.Order
import Hydroseries.Time.DateFormat

/-!
# Laying out reports

Every entity has a section: a blank line, a title, lines about the entity, and a line for each value.
The values of an entity are the observations of the report; they are named by the entity and counted
from one.
-/

namespace Hydroseries.Report

open Record (Format Field Descriptor)

inductive SeriesFormat where
  | long
  | short
  /-- The format of site sample files. -/
  | ssf
  deriving DecidableEq, Repr

/-! ### Record formats -/

def literal (s : String) : Descriptor := .literal s.toList

def statisticRow : Format := [.tab 5, .chars none, .tab 55, .scale 1, .general 14 7]

/-- Rows of series with name, date and time. -/
def datedRow : Format :=
  [.skip 1, .chars none, .tab 20, .chars (some 10), .skip 3, .chars (some 8), .skip 3, .general 16 9]

def plainRow : Format := [.skip 4, .general 16 9]

def volumeRow : Format :=
  [.tab 5, literal "From ", .chars (some 10), literal " ", .chars (some 8), literal " to ",
   .chars (some 10), literal " ", .chars (some 8), literal "  volume = ", .general 18 12]

/-- The line over the rows of exceedance tables. -/
def exceedanceHeader : Format :=
  [.tab 4, literal "Flow", .tab 19, literal "Time delay (", .chars none, literal ")", .tab 40,
   literal "Time ", .chars none, literal " (", .chars none, literal ")", .tab 60,
   literal "Fraction of time ", .chars none, literal " threshold"]

def exceedanceRow : Format :=
  [.tab 2, .general 14 7, .tab 20, .general 14 7, .tab 40, .general 14 7, .tab 63, .general 14 7]

/-- The line over the rows of general tables. -/
def generalHeader : Format :=
  [.tab 4, .chars none, literal " for ", .chars none, literal " ", .chars none, literal ":",
   .chars none, .tab 85, literal "Value"]

def generalRow : Format := [.tab 4, .chars none, .tab 82, .general 14 7]

/-! ### Sections -/

/-- A value to be reported: its record, and which of the fields it is. -/
structure Entry where
  format : Format
  fields : List Field
  position : Nat
  value : Double

/-- The name of the `n`-th observation of an entity, counted from zero. -/
def observationName (name : EntityName) (n : Nat) : String := name.lower ++ toString (n + 1)

def Entry.line (e : Entry) (name : EntityName) (n : Nat) : Outcome Line := do
  let written ← Format.write e.format e.fields
  match written.spans[e.position]? with
  | some columns => pure ⟨written.text, some ⟨observationName name n, columns, e.value⟩⟩
  | none => throw (.refused ("report record for " ++ name.text ++ " has no value column"))

/-- A section with the lines that stand over its values. -/
structure Part where
  lines : List Line
  sectionOf : Section

def part (kind : EntityKind) (name : EntityName) (heading : List String) (entries : List Entry) :
    Outcome Part := do
  let title := " " ++ heading.headD "" ++ " \"" ++ name.lower ++ "\" ---->"
  let top := ("" :: title :: heading.drop 1).map fun text => ({ text } : Line)
  let rows ← entries.zipIdx.mapM fun (e, n) => e.line name n
  let names := (List.range entries.length).map (observationName name)
  pure ⟨top ++ rows, ⟨kind, name, names⟩⟩

/-- The time of day as hours, minutes and seconds. -/
def clock (t : Timestamp) : String :=
  Timestamp.twoDigits t.hour ++ ":" ++ Timestamp.twoDigits t.minute ++ ":" ++
    Timestamp.twoDigits t.second

/-- The row of a value of a series. -/
def seriesEntry (dates : DateFormat) (format : SeriesFormat) (name : EntityName) (daily : Bool)
    (t : Timestamp) (v : Double) : Outcome Entry := do
  let time := if daily then "12:00:00" else clock t
  let dated (label : String) : Outcome Entry := do
    let date ← dates.write t
    pure ⟨datedRow, [.text label, .text date, .text time, .number v], 3, v⟩
  match format with
  | .long => dated name.lower
  | .short => pure ⟨plainRow, [.number v], 0, v⟩
  | .ssf => dated name.text

/-- The section of a series. Values of a daily series are reported at noon. -/
def seriesPart (st : Store) (dates : DateFormat) (format : SeriesFormat) (name : EntityName) :
    Outcome Part := do
  let s ← st.getSeries name
  let daily := s.frequency.isDaily
  let entries ← s.valid.mapM fun (t, v) => seriesEntry dates format name daily t v
  part .series name ["TIME_SERIES"] entries

def statisticEntries (stats : OrderedMap String Double) : List Entry :=
  stats.entries.map fun (label, v) => ⟨statisticRow, [.text label, .number v], 1, v⟩

def sTablePart (st : Store) (dates : DateFormat) (name : EntityName) : Outcome Part := do
  let t ← Store.lookup .sTable st.sTables name
  let start ← dates.write t.start
  let finish ← dates.write t.finish
  let heading :=
    ["S_TABLE",
     "     Series for which data calculated:                 \"" ++ Text.lower t.sourceName ++ "\"",
     "     Starting date for data accumulation:              " ++ start,
     "     Ending date for data accumulation:                " ++ finish,
     "     Logarithmic transformation of series?             " ++
       (if t.logTransformed then "yes" else "no"),
     "     Exponent in power transformation:                 " ++ Decimal.plain t.exponent]
  part .sTable name heading (statisticEntries t.stats)

def cTablePart (st : Store) (dates : DateFormat) (name : EntityName) : Outcome Part := do
  let t ← Store.lookup .cTable st.cTables name
  let start ← dates.write t.start
  let finish ← dates.write t.finish
  let heading :=
    ["C_TABLE",
     "    Observation time series name:                     \"" ++ Text.lower t.obsName ++ "\"",
     "    Simulation time series name:                      \"" ++ Text.lower t.simName ++ "\"",
     "    Beginning date of series comparison:              " ++ start,
     "    Beginning time of series comparison:              " ++ clock t.start,
     "    Finishing date of series comparison:              " ++ finish,
     "    Finishing time of series comparison:              " ++ clock t.finish,
     "    Number of series terms in this interval:          " ++ toString t.numTerms]
  part .cTable name heading (statisticEntries t.stats)

def volumeEntry (dates : DateFormat) (r : VolumeRow Double) : Outcome Entry := do
  let start ← dates.write r.start
  let finish ← dates.write r.finish
  pure ⟨volumeRow, [.text start, .text (clock r.start), .text finish, .text (clock r.finish),
    .number r.volume], 4, r.volume⟩

def vTablePart (st : Store) (dates : DateFormat) (name : EntityName) : Outcome Part := do
  let t ← Store.lookup .vTable st.vTables name
  let title :=
    "     Volumes calculated from series \"" ++ Text.lower t.sourceName ++ "\" are as follows:-"
  part .vTable name ["V_TABLE", title] (← t.rows.mapM (volumeEntry dates))

def exceedanceEntry (r : ExceedanceRow Double) : Entry :=
  ⟨exceedanceRow, [.number r.threshold, .number r.delay, .number r.duration, .number r.fraction], 2,
    r.duration⟩

/-- The section of a table of exceedance times. -/
def eTablePart (st : Store) (name : EntityName) : Outcome Part := do
  let t ← Store.lookup .eTable st.eTables name
  let side := t.direction.word
  let header ← Format.line exceedanceHeader [.text t.units, .text side, .text t.units, .text side]
  part .eTable name ["E_TABLE", header] (t.rows.map exceedanceEntry)

/-- The label of a row of a general table. -/
def rowLabel : GKey → String
  | .probability p => Text.padLeft 6 (Decimal.fixed 2 (p * 100.0)) ++ "% of flows exceed:"
  | .label s => s ++ ":"

/-- The month, the day and the year. -/
def slashDate (d : Date) : String :=
  let c := d.civil
  Timestamp.twoDigits c.month ++ "/" ++ Timestamp.twoDigits c.day ++ "/" ++ Timestamp.yearText c.year

def gTablePart (st : Store) (name : EntityName) : Outcome Part := do
  let t ← Store.lookup .gTable st.gTables name
  let title := match t.kind with
    | .flowDuration => "Flow duration curve"
    | .hydrologicIndices => "Hydrologic index"
  let header ← Format.line generalHeader
    [.text title, .text (Text.lower t.sourceName), .text (slashDate t.start.date),
     .text (slashDate t.finish.date)]
  part .gTable name ["G_TABLE", header]
    ((rowsOf t).map fun (k, v) => ⟨generalRow, [.text (rowLabel k), .number v], 1, v⟩)

def entityPart (st : Store) (dates : DateFormat) (format : SeriesFormat) (kind : EntityKind)
    (name : EntityName) : Outcome Part :=
  match kind with
  | .series => seriesPart st dates format name
  | .sTable => sTablePart st dates name
  | .cTable => cTablePart st dates name
  | .vTable => vTablePart st dates name
  | .eTable => eTablePart st name
  | .gTable => gTablePart st name

/-- The kinds in the order of the report. -/
def kindOrder : List EntityKind := [.series, .sTable, .cTable, .vTable, .eTable, .gTable]

def layOut (st : Store) (dates : DateFormat) (format : SeriesFormat)
    (entities : List (EntityKind × EntityName)) (file : String) : Outcome Listing := do
  -- Within a kind the order of the block is kept.
  let ordered := kindOrder.flatMap fun kind => entities.filter fun e => e.1 = kind
  let parts ← ordered.mapM fun (kind, name) => entityPart st dates format kind name
  pure ⟨file, parts.flatMap Part.lines, parts.map Part.sectionOf⟩

end Hydroseries.Report
