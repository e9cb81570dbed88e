import Hydroseries.Config

/-!
# Command lines

The words behind the program's name ask for a run of a control file, or for the list of commands. An
option stands before or after the control file; its value is the next word, or follows an equals sign.
-/

namespace Hydroseries.CommandLine

/-- How the summary of a run is written. -/
inductive SummaryForm where
  | text
  | json
  deriving DecidableEq, Repr

structure RunOptions where
  controlFile : Option String := none
  context : Option String := none
  configFile : Option String := none
  debug : Bool := false
  form : SummaryForm := .text
  deriving DecidableEq, Repr

inductive Request where
  | run (controlFile : String) (options : RunOptions)
  | commands
  | help
  deriving DecidableEq, Repr

inductive UsageFault where
  | noRequest
  | unknownRequest (word : String)
  | noControlFile
  | unknownOption (word : String)
  | missingValue (option : String)
  | badForm (word : String)
  | extraWord (word : String)
  deriving DecidableEq, Repr

def UsageFault.message : UsageFault → String
  | noRequest => "no subcommand given"
  | unknownRequest word => "unrecognized subcommand '" ++ word ++ "'"
  | noControlFile => "the control file is missing"
  | unknownOption word => "unexpected argument '" ++ word ++ "'"
  | missingValue option => "a value is required for '" ++ option ++ "'"
  | badForm word => "invalid value '" ++ word ++ "' for '--format': use text or json"
  | extraWord word => "unexpected argument '" ++ word ++ "'"

def usage : String :=
  Text.join "\n"
    ["Run time-series control files",
     "",
     "Usage:",
     "  hydroseries run CONTROL_FILE [OPTIONS]",
     "  hydroseries commands",
     "",
     "Options:",
     "  -c, --context CONTEXT   run context (overrides the SETTINGS block)",
     "      --config FILE       run configuration",
     "  -d, --debug             report the entity store at the end",
     "  -f, --format FORM       form of the run summary: text or json"]

/-! ### Options -/

inductive RunOption where
  | context
  | configFile
  | debug
  | form
  deriving DecidableEq, Repr

def RunOption.ofWord? : String → Option RunOption
  | "-c" | "--context" => some .context
  | "--config" => some .configFile
  | "-d" | "--debug" => some .debug
  | "-f" | "--format" => some .form
  | _ => none

namespace RunOptions

def assign (o : RunOptions) (option : RunOption) (value : String) : Except UsageFault RunOptions :=
  match option with
  | .context => .ok { o with context := some value }
  | .configFile => .ok { o with configFile := some value }
  | .debug => .ok { o with debug := true }
  | .form =>
    match value with
    | "text" => .ok { o with form := .text }
    | "json" => .ok { o with form := .json }
    | _ => .error (.badForm value)

/-- Takes a word that is no option: the control file, once. -/
def takeFile (o : RunOptions) (word : String) : Except UsageFault RunOptions :=
  if o.controlFile.isSome then .error (.extraWord word)
  else .ok { o with controlFile := some word }

/-- An option and the value after its equals sign. -/
def cutValue? (word : String) : Option (RunOption × String) := do
  let (name, value) ← Text.cutAt (· == '=') word.toList
  let option ← RunOption.ofWord? (String.ofList name)
  if option = .debug then none else some (option, String.ofList value)

def read (o : RunOptions) : List String → Except UsageFault RunOptions
  | [] => .ok o
  | "--" :: files => files.foldlM takeFile o
  | word :: rest =>
    match RunOption.ofWord? word with
    | some .debug => do read (← o.assign .debug "") rest
    | some option =>
      match rest with
      | [] => .error (.missingValue word)
      | value :: rest => do read (← o.assign option value) rest
    | none =>
      match cutValue? word with
      | some (option, value) => do read (← o.assign option value) rest
      | none =>
        if word.toList.head? == some '-' then .error (.unknownOption word)
        else do read (← o.takeFile word) rest

end RunOptions

namespace Request

/-- Reads the words behind the name of the program. -/
def read : List String → Except UsageFault Request
  | [] => .error .noRequest
  | "commands" :: _ => .ok .commands
  | "run" :: words =>
    if words.contains "--help" || words.contains "-h" then .ok .help
    else do
      let o ← ({} : RunOptions).read words
      match o.controlFile with
      | some file => pure (.run file o)
      | none => throw .noControlFile
  | word :: _ => if ["help", "--help", "-h"].contains word then .ok .help else .error (.unknownRequest word)

end Request

/-- The values of an environment variable that leave debugging off, in lower case. -/
def offWords : List String := ["", "n", "no", "f", "false", "off", "0"]

/-- True for the values of an environment variable that switch debugging on. -/
def switchesOn (value : String) : Bool := !offWords.contains (Text.lower value)

/-- The configuration of a run: the file, then the environment, then the command line. -/
def configure (base : Config) (o : RunOptions) (context debug : Option String) : Config :=
  base.withOverrides (o.context.or context) (o.debug || debug.any switchesOn)

end Hydroseries.CommandLine
