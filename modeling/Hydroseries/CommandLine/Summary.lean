import Hydroseries.Run

/-!
# Summaries of runs

What is shown of a run: lines for people, or a JSON object.
-/

namespace Hydroseries

/-! ### JSON -/

inductive JsonValue where
  | text (s : String)
  | number (n : Nat)
  | list (items : List JsonValue)
  | record (fields : List (String × JsonValue))

namespace JsonValue

def hexDigit (n : Nat) : Char := "0123456789abcdef".toList.getD n '0'

/-- A character inside quotes. Control characters without a letter of their own are written by number. -/
def escape : Char → List Char
  | '"' => ['\\', '"']
  | '\\' => ['\\', '\\']
  | '\n' => ['\\', 'n']
  | '\r' => ['\\', 'r']
  | '\t' => ['\\', 't']
  | '\x08' => ['\\', 'b']
  | '\x0c' => ['\\', 'f']
  | c =>
    if c.toNat < 32 then ['\\', 'u', '0', '0', hexDigit (c.toNat / 16), hexDigit (c.toNat % 16)]
    else [c]

def quote (s : String) : String := String.ofList ('"' :: (s.toList.flatMap escape ++ ['"']))

/-- Items between brackets, one a line. -/
def bracket (opening closing indent : String) (items : List String) : String :=
  if items.isEmpty then opening ++ closing
  else
    let inner := "\n" ++ indent ++ "  "
    opening ++ inner ++ Text.join ("," ++ inner) items ++ "\n" ++ indent ++ closing

mutual

/-- The text of a value, whose inner lines begin with an indent. -/
def render (indent : String) : JsonValue → String
  | text s => quote s
  | number n => toString n
  | list items => bracket "[" "]" indent (renderItems (indent ++ "  ") items)
  | record fields => bracket "\x7b" "\x7d" indent (renderFields (indent ++ "  ") fields)

/-- The texts of the items of a list. -/
def renderItems (indent : String) : List JsonValue → List String
  | [] => []
  | v :: rest => render indent v :: renderItems indent rest

/-- The texts of the fields of a record. -/
def renderFields (indent : String) : List (String × JsonValue) → List String
  | [] => []
  | (name, v) :: rest => (quote name ++ ": " ++ render indent v) :: renderFields indent rest

end

def texts (ss : List String) : JsonValue := list (ss.map text)

end JsonValue

/-! ### Values -/

namespace Store

/-- The contents of a store as a value. -/
def Summary.json (s : Summary) : JsonValue :=
  let series := s.series.map fun (name, r) => JsonValue.record
    [("name", .text name.text), ("frequency", .text r.frequency.code),
     ("start", .text r.start.isoText), ("end", .text r.finish.isoText)]
  .record (("series", .list series) :: s.tables.map fun (kind, names) =>
    (kind.label ++ "s", JsonValue.texts (names.map EntityName.text)))

/-- The contents of a store, one entity a line. -/
def Summary.lines (s : Summary) : List String :=
  let series := s.series.map fun (name, r) =>
    "  series   " ++ Text.padRight 20 name.text ++ " " ++ Text.padLeft 6 r.frequency.code ++ "  " ++
      r.start.text ++ " .. " ++ r.finish.text
  series ++ s.tables.flatMap fun (kind, names) =>
    names.map fun name => "  " ++ Text.padRight 8 kind.label ++ " " ++ name.text

end Store

namespace Control

def Origin.json (o : Origin) : JsonValue :=
  .record [("command", .text o.command), ("line", .number o.line)]

def NoticeKind.identifier (k : NoticeKind) : String :=
  String.ofList (k.label.toList.map fun c => if c = '-' then '_' else c)

def Notice.json (n : Notice) : JsonValue :=
  .record [("kind", .text n.kind.identifier), ("origin", n.origin.json), ("message", .text n.message)]

end Control

namespace RunReport

/-- A report as a value; the store only on request. -/
def json (r : RunReport) : JsonValue :=
  let store := r.store.toList.map fun s => ("store", s.json)
  .record ([("context", .text r.context), ("executed", .list (r.executed.map Control.Origin.json)),
    ("skipped", .list (r.skipped.map Control.Origin.json)),
    ("notices", .list (r.notices.map Control.Notice.json))] ++ store)

def rule : String := String.ofList (List.replicate 60 '═')

/-- A report in lines, with the milliseconds that the run took. -/
def lines (r : RunReport) (millis : Nat) : List String :=
  let notices := if r.notices.isEmpty then [] else
    "" :: "NOTICES" :: r.notices.map fun n => "  " ++ n.text
  let store := r.store.toList.flatMap fun s => "" :: "ENTITY STORE" :: s.lines
  ["", "RUN SUMMARY", rule, "  Context:  " ++ r.context,
    "  Executed: " ++ toString r.executed.length, "  Skipped:  " ++ toString r.skipped.length,
    "  Time:     " ++ toString millis ++ "ms"] ++ notices ++ store ++ [rule]

end RunReport

/-! ### Commands -/

namespace Catalog

/-- An optional keyword with what it is bound to if it is left out. -/
def OptionalKeyword.label (k : OptionalKeyword) : String :=
  match k.preset with
  | none => k.name
  | some (.scalar v) => k.name ++ "=" ++ v
  | some (.list vs) => k.name ++ "=[" ++ Text.join " " vs ++ "]"

def Descriptor.lines (d : Descriptor) : List String :=
  let title := if d.deprecated.isSome then d.name ++ " (deprecated)" else d.name
  let named (label : String) (words : List String) :=
    if words.isEmpty then [] else ["    " ++ label ++ " " ++ Text.join ", " words]
  let about := if d.description.isEmpty then [] else ["    " ++ d.description]
  let hint := d.deprecated.toList.map fun h => "    " ++ h
  title :: about ++ ["    required: " ++ Text.join ", " d.required] ++
    named "optional:" (d.optional.map OptionalKeyword.label) ++
    named "patterns:" (d.patterns.map fun p => p ++ "<n>") ++ hint

end Catalog

end Hydroseries
