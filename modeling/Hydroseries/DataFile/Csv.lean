import Hydroseries.DataFile.CommaText
import Hydroseries.DataFile.Table

/-!
# Tables in comma separated text

The first record holds the labels, the first field of the others a timestamp. Records without a
timestamp are skipped; empty cells and `nan` are missing values. Blanks around fields do not count.
-/

namespace Hydroseries.DataFile.Csv

def trimmedRecords (text : String) : List (List String) :=
  (CommaText.records text.toList).map fun r => r.map fun f => String.ofList (Text.trimChars f)

def cell (path : String) (line : Nat) (text : String) : Outcome (Option Double) :=
  if text.isEmpty || Text.eqIgnoringAsciiCase text "nan" then .ok none
  else (number path line text).map some

/-- Reads a record; none for one without timestamp. -/
def row (path : String) (format : DateFormat) (line : Nat) : List String → Outcome (Option Row)
  | [] | "" :: _ => .ok none
  | stamp :: cells => do
    let t ← atLine path line (format.readTimestamp stamp)
    let values ← cells.mapM (cell path line)
    pure (some (t, values))

/-- Reads the table of a text. Lines count records, the labels being the first. -/
def read (path text : String) (format : DateFormat) : Outcome DataTable := do
  let records := trimmedRecords text
  let labels := (records.head?.getD []).drop 1
  if labels.isEmpty then throw (.unreadable path "no data columns after the date column")
  let rows ← ((records.drop 1).zipIdx 2).mapM fun (fields, line) => row path format line fields
  tableOfRows path labels (rows.filterMap id)

/-- The label of a column that is asked for by its number, counted from one, or by its label; the
first column if none is asked for. -/
def columnLabel (path : String) (table : DataTable) (column : Option String) : Outcome String :=
  match column with
  | none =>
    match table.keys with
    | label :: _ => .ok label
    | [] => .error (.unreadable path "no data columns")
  | some wanted =>
    match Text.readWord64? wanted with
    | none => .ok wanted
    | some n =>
      match if n = 0 then none else table.keys[n - 1]? with
      | some label => .ok label
      | none =>
        .error (.unreadable path ("USECOL " ++ toString n ++ " is out of range, the file has " ++
          toString table.size ++ " data columns"))

end Hydroseries.DataFile.Csv
