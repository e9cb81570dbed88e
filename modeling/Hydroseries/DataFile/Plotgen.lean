import Hydroseries.DataFile.Table

/-!
# Plot files of simulations

A plot file has a table of curve labels, which ends with a blank line, and further down a section of
data. A row of the label table ends with five words that do not belong to the label; a row of the data
begins with a word that is ignored and a date and time in five numbers. Values down to `-1e30` are
missing.
-/

namespace Hydroseries.DataFile.Plotgen

/-- Values that are not above it are missing. -/
def missing : Double := -1.0e30

/-- True for lines that begin with a word, blanks before it ignored. -/
def opensWith (word line : String) : Bool :=
  word.toList.isPrefixOf (Text.trimFront line.toList)

/-- The lines behind the first one that begins with a word. -/
def linesAfter? (word : String) : List (String × Nat) → Option (List (String × Nat))
  | [] => none
  | l :: rest => if opensWith word l.1 then some rest else linesAfter? word rest

/-- The labels up to the next blank line, and the lines from there on. -/
def labels (path : String) : List (String × Nat) → Outcome (List String × List (String × Nat))
  | [] => .ok ([], [])
  | (text, n) :: rest => do
    let words := Text.words text
    if words.isEmpty then return ([], (text, n) :: rest)
    if words.length < 6 then throw (lineFault path n "malformed curve label row")
    let (more, rest) ← labels path rest
    pure (Text.join " " (words.take (words.length - 5)) :: more, rest)

def value (path : String) (line : Nat) (token : String) : Outcome (Option Double) := do
  let x ← number path line token
  pure (if missing < x then some x else none)

/-- Reads a row of the data; none for a blank line. -/
def row (path : String) (count : Nat) (line : Nat) (text : String) : Outcome (Option Row) :=
  match Text.words text with
  | [] => .ok none
  | words@(_ :: year :: month :: day :: hour :: minute :: cells) => do
    if words.length < 6 + count then throw (tooShort line)
    let date := year ++ "-" ++ month ++ "-" ++ day
    let t ← atLine path line (DateFormat.iso.combine date (some (hour ++ ":" ++ minute)))
    let values ← (cells.take count).mapM (value path line)
    pure (some (t, values))
  | _ => .error (tooShort line)
where
  /-- The fault of a row with too few words. -/
  tooShort (line : Nat) : Fault :=
    lineFault path line ("expected a date and " ++ toString count ++ " values")

def read (path text : String) : Outcome DataTable := do
  let some rest := linesAfter? "Label" (numberedLines text)
    | throw (.unreadable path "no curve label table")
  let (names, rest) ← labels path rest
  if names.isEmpty then throw (.unreadable path "curve label table is empty")
  let some data := linesAfter? "Date/time" rest
    | throw (.unreadable path "no Date/time data section")
  let rows ← data.mapM fun (l, n) => row path names.length n l
  tableOfRows path names (rows.filterMap id)

end Hydroseries.DataFile.Plotgen
