import Hydroseries.DataFile.Table

/-!
# Gage files

Behind a title line and a line of column names, each line holds a model time and the values of the
columns. Model time counts from one at a reference moment, in units of which a day has a given number.
-/

namespace Hydroseries.DataFile.Gage

/-- Whole milliseconds of a unit of model time. -/
def unitMillis (unitsPerDay : Nat) : Nat := 86400000 / unitsPerDay

/-- The moment of a model time, to the nearest millisecond. -/
def moment (reference : Timestamp) (unitsPerDay : Nat) (time : Double) : Outcome Timestamp :=
  let millis := Decimal.roundToWord64 ((time - 1.0) * Double.ofNat (unitMillis unitsPerDay))
  match reference.plus? (millis * 1000000) with
  | some t => .ok t
  | none => .error .outOfRange

/-- Reads a line; none for a blank one. -/
def row (path : String) (reference : Timestamp) (unitsPerDay : Nat) (line : Nat) (text : String) :
    Outcome (Option Row) :=
  match Text.words text with
  | [] => .ok none
  | time :: cells => do
    let time ← number path line time
    let t ← moment reference unitsPerDay time
    let values ← cells.mapM (number path line)
    pure (some (t, values.map some))

/-- The column names in capitals. The first word of the line names nothing, and quotes do not
count. -/
def columnNames (header : String) : List String :=
  ((Text.words (String.ofList (header.toList.filter (· != '"')))).drop 1).map Text.upper

def noUnits : Fault := .invalid "time_units_per_day" "0" "must be greater than zero"

/-- Reads the table of a text. The first of the columns is the model time. -/
def read (path text : String) (reference : Timestamp) (unitsPerDay : Nat) : Outcome DataTable := do
  if unitsPerDay = 0 then throw noUnits
  match numberedLines text with
  | _ :: (header, _) :: rest =>
    let names := columnNames header
    if names.length < 2 then throw (.unreadable path "header names no data columns")
    let rows ← rest.mapM fun (l, n) => row path reference unitsPerDay n l
    tableOfRows path (names.drop 1) (rows.filterMap id)
  | _ => throw (.unreadable path "missing column header line")

end Hydroseries.DataFile.Gage
