import Hydroseries.OrderedMap
import Hydroseries.Series.Basic
import Hydroseries.Text.Numeral

/-!
# Tables of data files

A data file holds labelled columns, each of which is a series. When a label occurs more than once, the
table has the place of its first column and the series of its last.
-/

namespace Hydroseries

/-- The columns of a data file. -/
abbrev DataTable := OrderedMap String Series

namespace DataFile

/-- A row: a moment and the values of the columns. -/
abbrev Row := Timestamp × List (Option Double)

def lineFault (path : String) (line : Nat) (reason : String) : Fault :=
  .unreadable path ("line " ++ toString line ++ ": " ++ reason)

/-- Puts the line in front of the wording of a fault. -/
def atLine (path : String) (line : Nat) (r : Outcome α) : Outcome α :=
  r.mapError fun f => if f = .outOfRange then f else lineFault path line f.message

/-- Reads a number of a line, blanks around it ignored. -/
def number (path : String) (line : Nat) (token : String) : Outcome Double :=
  match Text.readDouble? (Text.trim token) with
  | some x => .ok x
  | none => .error (lineFault path line ("'" ++ token ++ "' is not a number"))

/-- The lines of a text with their numbers, counted from one. -/
def numberedLines (text : String) : List (String × Nat) := (Text.lines text).zipIdx 1

/-- The lines that are not blank, with their numbers. -/
def filledLines (text : String) : List (String × Nat) :=
  (numberedLines text).filter fun l => !Text.isAllBlank l.1

/-- The points of a column. Rows that are too short have no value there. -/
def columnPoints (rows : List Row) (column : Nat) : List (Timestamp × Option Double) :=
  rows.map fun r => (r.1, (r.2[column]?).join)

def columnSeries (path label : String) (points : List (Timestamp × Option Double)) : Outcome Series :=
  (TimeSeries.ofPoints points).mapError fun f =>
    .unreadable path ("column " ++ label ++ ": " ++ f.message)

def tableOfRows (path : String) (labels : List String) (rows : List Row) : Outcome DataTable := do
  let columns ← labels.zipIdx.mapM fun (label, i) => do
    let s ← columnSeries path label (columnPoints rows i)
    pure (label, s)
  pure (OrderedMap.ofList columns)

/-- The part in a window of the first column with a label, whatever the case of its letters. -/
def pick (path : String) (table : DataTable) (label : String) (window : Window) : Outcome Series :=
  match table.entries.find? fun e => Text.eqIgnoringAsciiCase e.1 label with
  | some e => .ok (e.2.within window)
  | none =>
    .error (.unreadable path ("the time-series \"" ++ label ++
      "\" is not available; the available time-series are " ++ Text.join ", " table.keys))

end DataFile

end Hydroseries
