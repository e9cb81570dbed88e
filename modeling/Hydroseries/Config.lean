import Hydroseries.File.Tree
import Hydroseries.Run
import Hydroseries.Yaml.Document

/-!
# Configuration

A configuration file is a flat YAML document of settings. A context that is blank counts as none.
-/

namespace Hydroseries

structure Config where
  context : Option String
  debug : Bool
  /-- Which messages are logged. -/
  logFilter : String
  deriving DecidableEq, Repr

namespace Config

/-- The messages that are logged where nothing else is said. -/
def usualFilter : String := "tsblender=info"

def usual : Config := ⟨none, false, usualFilter⟩

/-- Trims the context, and puts the usual filter in the place of a blank one. -/
def normalized (c : Config) : Config :=
  { c with
    context := (c.context.map Text.trim).filter fun t => !t.isEmpty
    logFilter := if Text.isAllBlank c.logFilter then usualFilter else c.logFilter }

/-- The configuration with the choices of a command line; debugging can only be turned on. -/
def withOverrides (c : Config) (context : Option String) (debug : Bool) : Config :=
  normalized { c with context := context.or c.context, debug := c.debug || debug }

def settings (c : Config) : Run.Settings := .ofContext c.context c.debug

/-! ### Reading -/

def nullWords : List String := ["null", "Null", "NULL", "~"]

/-- The words that stand for yes and no. -/
def flagWords : List (String × Bool) :=
  [("true", true), ("True", true), ("TRUE", true), ("false", false), ("False", false),
   ("FALSE", false)]

/-- The text of a scalar that may be null. Only a plain scalar is null; a tag of null calls for a word
that stands for it, and any other tag makes a text of the scalar. -/
def textOrNull? (s : Yaml.Scalar) : Option (Option String) :=
  let isNull := nullWords.contains s.text
  match s.style, s.tag with
  | .plain, none => some (if s.text.isEmpty || isNull then none else some s.text)
  | .plain, some tag =>
    if tag != Yaml.nullTag then some (some s.text) else if isNull then some none else none
  | _, _ => some (some s.text)

/-- A scalar as a yes or a no. It is plain, or literal with the tag for that. -/
def flag? (s : Yaml.Scalar) : Option Bool :=
  if s.style = .plain ∨ (s.style = .literal ∧ s.tag = some Yaml.boolTag) then flagWords.lookup s.text
  else none

def assign? (c : Config) (key : String) (value : Yaml.Scalar) : Option Config :=
  match key with
  | "context" => (textOrNull? value).map fun context => { c with context := context }
  | "debug" => (flag? value).map fun debug => { c with debug := debug }
  | "log_filter" => some { c with logFilter := value.text }
  | _ => none

/-- The usual configuration with some settings, each of which stands there at most once. -/
def ofEntries? (entries : List (Yaml.Scalar × Yaml.Scalar)) : Option Config :=
  let keys := entries.map fun e => e.1.text
  if keys.eraseDups.length = keys.length then
    entries.foldlM (fun c (key, value) => c.assign? key.text value) usual
  else none

/-- Reads a configuration; `path` is where it stands. -/
def read (path source : String) : Outcome Config :=
  if Text.isAllBlank source then .ok usual
  else
    match (Yaml.Document.readEntries? source).bind ofEntries? with
    | some c => .ok c.normalized
    | none => .error (.unreadable path "invalid run configuration")

/-- The configuration of a file, or the usual one. -/
def load (files : FileTree) : Option String → Outcome Config
  | none => .ok usual
  | some path => do read path (← files.read path)

end Config

end Hydroseries
