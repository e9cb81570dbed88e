import Hydroseries.DataFile.Table

/-!
# Files of statistic variables

The first line holds the number of variables; a line for each of them gives its name and its
location, which together make up the label. Each further line holds a step number, a date and time in
six numbers, and the values. Blank lines are ignored.
-/

namespace Hydroseries.DataFile.StatVar

def dateField (path : String) (line : Nat) (token : String) : Outcome Nat :=
  match Text.readWord32? token with
  | some n => .ok n
  | none => .error (lineFault path line ("bad date field '" ++ token ++ "'"))

/-- A timestamp from its six numbers, years being signed words of 32 bits. -/
def timestamp? (year month day hour minute second : Nat) : Option Timestamp :=
  if hour < 24 ∧ minute < 60 ∧ second < 60 then
    (Date.ofYmd? (Int.bmod year (Nat.pow 2 32)) month day).map fun d =>
      .ofDate d ((hour * 3600 + minute * 60 + second : Nat) * Timestamp.secondNanos)
  else none

def row (path : String) (count : Nat) (line : Nat) (text : String) : Outcome Row :=
  match Text.words text with
  | words@(_ :: year :: month :: day :: hour :: minute :: second :: cells) => do
    if words.length < 7 + count then throw (tooShort line)
    let year ← dateField path line year
    let month ← dateField path line month
    let day ← dateField path line day
    let hour ← dateField path line hour
    let minute ← dateField path line minute
    let second ← dateField path line second
    let some t := timestamp? year month day hour minute second
      | throw (lineFault path line "invalid date")
    let values ← (cells.take count).mapM (number path line)
    pure (t, values.map some)
  | _ => .error (tooShort line)
where
  /-- The fault of a row with too few words. -/
  tooShort (line : Nat) : Fault :=
    lineFault path line ("expected step, 6 date fields and " ++ toString count ++ " values")

/-- Reads the count on the first line; the other lines follow. -/
def countAndRest (path what : String) (text : String) : Outcome (Nat × List (String × Nat)) :=
  match filledLines text with
  | [] => .error (.unreadable path "empty file")
  | (first, _) :: rest =>
    match Text.readWord64? (Text.trim first) with
    | some count => .ok (count, rest)
    | none => .error (.unreadable path ("first line must be the number of " ++ what))

def read (path text : String) : Outcome DataTable := do
  let (count, rest) ← countAndRest path "variables" text
  if rest.length < count then
    throw (.unreadable path ("expected " ++ toString count ++ " variable lines"))
  let labels := (rest.take count).map fun (l, _) => Text.join "_" (Text.words l)
  let rows ← (rest.drop count).mapM fun (l, n) => row path count n l
  tableOfRows path labels rows

end Hydroseries.DataFile.StatVar
