import Hydroseries.Catalog.Commands
import Hydroseries.OrderedMap
import Hydroseries.Store.Name
import Hydroseries.Time.Window

/-!
# Parameters of a block

The keywords of a block, checked against the descriptor of its command and merged with the presets.
A keyword that is given several times has its first value; blank values count as not given. The
accessors read a keyword as text, number, flag, entity name or date.
-/

namespace Hydroseries

open Control (Value)

/-- The values of the keywords of one block. -/
structure Params where
  /-- The command in capitals. -/
  command : String
  /-- The line that opens the block. -/
  line : Nat
  values : OrderedMap String Value
  deriving DecidableEq, Repr

namespace Params

/-! ### Making -/

/-- The required keywords, other than the context, that are not given. -/
def missing (d : Catalog.Descriptor) (given : List String) : List String :=
  d.required.filter fun k => k != "context" && !given.contains k

/-- The given keywords that the command does not take. -/
def unexpected (d : Catalog.Descriptor) (given : List String) : List String :=
  given.filter fun k => !d.accepts k

def presets (d : Catalog.Descriptor) : List (String × Value) :=
  d.optional.filterMap fun k => k.preset.map fun v => (k.name, v)

/-- The first values of the given keywords, the context left out. -/
def given (i : Control.Invocation) : List (String × Value) :=
  (i.keywords.filter (· != "context")).filterMap fun k =>
    (i.find? k).map fun v => (Text.lower k, v)

/-- Checks the keywords of an invocation and merges them with the presets. -/
def resolve (d : Catalog.Descriptor) (i : Control.Invocation) : Outcome Params :=
  match missing d i.keywords, unexpected d i.keywords with
  | [], [] =>
    let merged := OrderedMap.ofList (presets d ++ given i)
    .ok ⟨d.name, i.startLine, merged.filter fun v => !v.isBlank⟩
  | [], extra => .error (.unexpectedKeywords d.name i.startLine (extra.map Text.upper))
  | absent, _ => .error (.missingKeywords d.name i.startLine (absent.map Text.upper))

/-- Parameters from pairs, unchecked. Keywords are put into lower case and blank values dropped. -/
def ofPairs (command : String) (line : Nat) (pairs : List (String × Value)) : Params :=
  let kept := (pairs.map fun (k, v) => (Text.lower k, v)).filter fun e => !e.2.isBlank
  ⟨Text.upper command, line, OrderedMap.ofList kept⟩

/-! ### Text -/

variable (p : Params)

def find? (key : String) : Option Value := p.values.find? key

def has (key : String) : Bool := p.values.contains key

def text? (key : String) : Option String := (p.find? key).bind Value.first?

/-- The first text of a keyword that is needed. -/
def text (key : String) : Outcome String :=
  match p.text? key with
  | some s => .ok s
  | none => .error (.missingKeywords p.command p.line [Text.upper key])

/-- The words of a keyword with single blanks between them. -/
def joined? (key : String) : Option String := (p.find? key).map fun v => Text.join " " v.tokens

/-- The words of all texts of a keyword; none when it is absent. -/
def tokens (key : String) : List String := ((p.find? key).map Value.tokens).getD []

/-- The texts of a keyword as stored; none when it is absent. -/
def entries (key : String) : List String := ((p.find? key).map Value.entries).getD []

/-- The first text in lower case, which must be one of the choices. -/
def choice (key : String) (choices : List String) : Outcome String := do
  let raw ← p.text key
  let word := Text.lower raw
  if choices.contains word then pure word
  else .error (.invalid key raw ("expected one of " ++ Text.join ", " choices))

/-- A choice for a keyword that may be absent. -/
def choice? (key : String) (choices : List String) : Outcome (Option String) :=
  if p.has key then (p.choice key choices).map some else .ok none

/-! ### Numbers and flags -/

/-- A way to read a number, and the word for what it reads. -/
structure Reading (α : Type) where
  read? : String → Option α
  expected : String

def asDouble : Reading Double := ⟨Text.readDouble?, "f64"⟩

/-- Signed words of 64 bits. -/
def asInt64 : Reading Int := ⟨Text.readInt64?, "i64"⟩

/-- Unsigned words of 32 bits. -/
def asWord32 : Reading Nat := ⟨Text.readWord32?, "u32"⟩

def asSize : Reading Nat := ⟨Text.readWord64?, "usize"⟩

/-- Reads a text of a keyword, blanks around it ignored. -/
def readAs (r : Reading α) (key raw : String) : Outcome α :=
  match r.read? (Text.trim raw) with
  | some v => .ok v
  | none => .error (.invalid key raw ("expected " ++ r.expected))

/-- The number of a keyword that is needed. -/
def number (r : Reading α) (key : String) : Outcome α := do readAs r key (← p.text key)

/-- The number of a keyword that may be absent. -/
def number? (r : Reading α) (key : String) : Outcome (Option α) :=
  (p.text? key).mapM (readAs r key)

/-- Every word of a keyword as a float. -/
def floats (key : String) : Outcome (List Double) := (p.tokens key).mapM (readAs asDouble key)

/-- A yes or no; an absent keyword means no. -/
def flag (key : String) : Outcome Bool :=
  match p.text? key with
  | none => .ok false
  | some raw =>
    match readFlag? raw with
    | some b => .ok b
    | none => .error (.invalid key raw "expected yes/no, y/n or true/false")

/-! ### Entities and dates -/

def entity (key : String) : Outcome EntityName := (p.text key).map EntityName.ofSpelling

/-- The entity that a keyword names, if it is given. -/
def entity? (key : String) : Option EntityName := (p.text? key).map EntityName.ofSpelling

/-- The entities that the words of a keyword name. -/
def entities (key : String) : List EntityName := (p.tokens key).map EntityName.ofSpelling

/-- The window of the date and time keywords. -/
def window (format : DateFormat) : Outcome Window :=
  Window.read (p.text? "date_1") (p.text? "time_1") (p.text? "date_2") (p.text? "time_2") format

/-- The moment of a date keyword and a time keyword that may be absent. -/
def moment (dateKey timeKey : String) (format : DateFormat) : Outcome Timestamp := do
  format.combine (← p.text dateKey) (p.text? timeKey)

/-- The keywords that begin with `start` and go on with a number, in the order of the numbers. -/
def numbered (start : String) : List (Nat × Value) :=
  let hits := p.values.entries.filterMap fun (k, v) =>
    if start.toList.isPrefixOf k.toList then
      (Text.readWord64? (String.ofList (k.toList.drop start.length))).map fun n => (n, v)
    else none
  hits.mergeSort fun a b => a.1 ≤ b.1

end Params

end Hydroseries
