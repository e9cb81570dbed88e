import Hydroseries.DataFile.Table
import Hydroseries.Decimal.Shortest

/-!
# Parameter files

Parameter files are read line by line. Text from a number sign on is a comment, and blank lines are
ignored.

A line of the group file has a name and six settings, or ten items with three more for splitting. The
names of groups differ, whatever their case.

A line of the parameter file describes a parameter in ten items, or has an equation for a secondary
parameter. A parameter can be tied to another one, its parent.
-/

namespace Hydroseries.Pest

/-! ### Lines -/

/-- The line without its comment and the blanks around it. -/
def uncommented (line : String) : String :=
  Text.trim (String.ofList (line.toList.takeWhile (· != '#')))

/-- The lines that hold more than a comment, with their numbers counted from one. -/
def dataLines (text : String) : List (String × Nat) :=
  ((DataFile.numberedLines text).map fun (l, n) => (uncommented l, n)).filter fun l => !l.1.isEmpty

def lineFault (path : String) (line : Nat) (reason : String) : Fault :=
  DataFile.lineFault path line reason

/-- Reads one of several words, whatever its case. -/
def oneOf (path : String) (line : Nat) (what value : String) (choices : List String) :
    Outcome String :=
  let word := Text.lower value
  if choices.contains word then .ok word
  else
    .error (lineFault path line (what ++ " must be one of " ++ Text.join ", " choices ++ ", not \"" ++
      value ++ "\""))

def float (path : String) (line : Nat) (what value : String) : Outcome Double :=
  match Text.readDouble? value with
  | some x => .ok x
  | none => .error (lineFault path line (what ++ " \"" ++ value ++ "\" is not a number"))

/-- Texts without repetitions, in the order of their code points. -/
def sortedNames (names : List String) : List String :=
  (names.mergeSort fun a b => decide (a ≤ b)).eraseDups

/-! ### Groups -/

/-- The groups of a file: their names in lower case, and their lines for the control file. -/
structure ParameterGroups where
  names : List String
  lines : List String
  deriving DecidableEq, Repr

namespace ParameterGroups

def empty : ParameterGroups := ⟨[], []⟩

/-- The line of a group in the control file. -/
def lineText (name inctyp : String) (derinc derinclb : Double) (forcen : String) (derincmul : Double)
    (dermthd : String) (splits : List String) : String :=
  let numberText (x : Double) : String := Text.padLeft 10 (Decimal.plain x)
  Text.trimEnd <| Text.join " "
    ([Text.padRight 12 name, Text.padLeft 10 inctyp, numberText derinc, numberText derinclb,
      Text.padLeft 10 forcen, numberText derincmul, Text.padLeft 11 dermthd] ++
     splits.map (Text.padLeft 10))

def add (path : String) (g : ParameterGroups) (text : String) (line : Nat) :
    Outcome ParameterGroups := do
  let words := Text.words text
  match words with
  | name :: inctyp :: derinc :: derinclb :: forcen :: derincmul :: dermthd :: splits =>
    if splits.length ≠ 0 ∧ splits.length ≠ 3 then throw (miscounted path line words.length)
    if g.names.contains (Text.lower name) then
      throw (lineFault path line ("duplicate parameter group name \"" ++ name ++ "\""))
    let inctyp ← oneOf path line "INCTYP" inctyp ["relative", "absolute", "rel_to_max"]
    let derinc ← float path line "DERINC" derinc
    let derinclb ← float path line "DERINCLB" derinclb
    let forcen ← oneOf path line "FORCEN" forcen
      ["always_2", "always_3", "always_5", "switch", "switch_5"]
    let derincmul ← float path line "DERINCMUL" derincmul
    let dermthd ← oneOf path line "DERMTHD" dermthd
      ["parabolic", "best_fit", "outside_pts", "minvar", "maxprec"]
    pure ⟨g.names ++ [Text.lower name],
      g.lines ++ [lineText name inctyp derinc derinclb forcen derincmul dermthd splits]⟩
  | _ => throw (miscounted path line words.length)
where
  /-- The fault of a line with another number of items. -/
  miscounted (path : String) (line count : Nat) : Fault :=
    .unreadable path ("line " ++ toString line ++ " has " ++ toString count ++
      " items; it must have either 7 or 10 items")

def read (path text : String) : Outcome ParameterGroups :=
  (dataLines text).foldlM (fun g (l, n) => g.add path l n) empty

end ParameterGroups

/-! ### Parameters -/

/-- The parameters of a file; names are in lower case. -/
structure ParameterData where
  names : List String
  lines : List String
  /-- Tied parameters with their parents. -/
  tied : List (String × String)
  equations : List String
  /-- The names that equations define, as they occur. -/
  defined : List String
  deriving DecidableEq, Repr

namespace ParameterData

def empty : ParameterData := ⟨[], [], [], [], []⟩

/-- The names of secondary parameters, sorted. -/
def secondary (d : ParameterData) : List String := sortedNames d.defined

def count (d : ParameterData) : Nat := d.names.length

def addEquation (d : ParameterData) (lhs rhs : String) : ParameterData :=
  let name := Text.trim lhs
  let value := String.join (Text.words rhs)
  { d with
    defined := d.defined ++ [Text.lower name]
    equations := d.equations ++ [Text.padRight 15 name ++ " = " ++ value] }

def parent? (transformation : String) : Option String :=
  let word := (Text.lower transformation).toList
  let start := "tied_".toList
  if start.isPrefixOf word && start.length < word.length then
    some (String.ofList (word.drop start.length))
  else none

/-- Bytes that a parameter name may have. -/
def nameBytes : Nat := 12

/-- Checks the name of a parameter, given in lower case. -/
def checkName (path : String) (line : Nat) (name spelling : String) : Outcome Unit := do
  if name.utf8ByteSize > nameBytes then
    throw (lineFault path line ("parameter name \"" ++ spelling ++ "\" is longer than 12 characters"))
  if name == "none" then throw (lineFault path line "a parameter cannot be named \"none\"")

def checkLimit (path : String) (line : Nat) (spelling : String) : Outcome Unit :=
  let word := (Text.lower spelling).toList
  if ["factor", "relative", "absolute"].any fun k => k.toList.isPrefixOf word then .ok ()
  else
    .error (lineFault path line
      ("PARCHGLIM must be factor, relative or absolute(N), not \"" ++ spelling ++ "\""))

def addParameter (path : String) (groups : ParameterGroups) (d : ParameterData) (text : String)
    (line : Nat) : Outcome ParameterData := do
  match Text.words text with
  | [spelling, partrans, parchglim, parval1, parlbnd, parubnd, pargp, scale, offset, dercom] =>
    let name := Text.lower spelling
    checkName path line name spelling
    let parent := parent? partrans
    let trans ← match parent with
      | some _ => pure "tied"
      | none => oneOf path line "PARTRANS" partrans ["fixed", "log", "none"]
    checkLimit path line parchglim
    if !groups.names.contains (Text.lower pargp) then
      throw (lineFault path line
        ("parameter group \"" ++ pargp ++ "\" is not in the parameter group file"))
    let value ← float path line "PARVAL1" parval1
    let lower ← float path line "PARLBND" parlbnd
    let upper ← float path line "PARUBND" parubnd
    -- A value that is no number is inside all bounds.
    if value < lower || upper < value then
      throw (lineFault path line (spelling ++ " value " ++ Decimal.plain value ++ " is outside [" ++
        Decimal.plain lower ++ ", " ++ Decimal.plain upper ++ "]"))
    let numberText (x : Double) : String := Text.padLeft 15 (Decimal.fixed 6 x)
    let row := Text.join " "
      [Text.padRight 15 name, Text.padLeft 10 trans, Text.padLeft 15 (Text.lower parchglim),
       numberText value, numberText lower, numberText upper, Text.padLeft 10 pargp,
       Text.padLeft 10 scale, Text.padLeft 10 offset, Text.padLeft 10 dercom]
    pure { d with
      names := d.names ++ [name]
      lines := d.lines ++ [row]
      tied := d.tied ++ (parent.map fun p => (name, p)).toList }
  | words =>
    throw (.unreadable path ("line " ++ toString line ++ " has " ++ toString words.length ++
      " items; parameter lines have 10"))

def add (path : String) (groups : ParameterGroups) (d : ParameterData) (text : String) (line : Nat) :
    Outcome ParameterData :=
  match Text.cutAt (· == '=') text.toList with
  | some (lhs, rhs) => .ok (d.addEquation (String.ofList lhs) (String.ofList rhs))
  | none => d.addParameter path groups text line

def read (path text : String) (groups : ParameterGroups) : Outcome ParameterData := do
  let d ← (dataLines text).foldlM (fun d (l, n) => d.add path groups l n) empty
  match d.tied.find? fun t => !d.names.contains t.2 with
  | some (child, parent) =>
    throw (.unreadable path
      ("parameter " ++ child ++ " is tied to unknown parameter " ++ parent))
  | none => pure d

end ParameterData

end Hydroseries.Pest
