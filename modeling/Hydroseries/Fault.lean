import Hydroseries.Store.Kind
import Hydroseries.Text.Blank
import Hydroseries.Text.Case

/-!
# Faults

Why a control file, a command or a file cannot be used, as data. `Fault.message` is the only place
where the wording of a fault is put together.

A fault of a running command is wrapped once with the name and the first line of its block.
-/

namespace Hydroseries

/-- What is wrong with the lines of a block. -/
inductive LineFault where
  | startInside (openCommand : String) (openLine : Nat)
  | startWithoutName
  | endOutside
  | endMismatch (found expected : String)
  | keywordWithoutValue (keyword : String)
  | companionMissing (needed after : String)
  deriving DecidableEq, Repr

/-- The wording of a fault in the lines of a block. -/
def LineFault.message : LineFault → String
  | startInside command line =>
    "START found while block '" ++ command ++ "' from line " ++ toString line ++ " is still open"
  | startWithoutName => "START without a block name"
  | endOutside => "END found outside of any START block"
  | endMismatch found expected =>
    "the block name '" ++ found ++ "' in the END line does not match the block name '" ++ expected ++
      "' in the START line"
  | keywordWithoutValue keyword => "keyword '" ++ keyword ++ "' has no value"
  | companionMissing needed after =>
    "WRITE_PEST_FILES needs " ++ needed ++ " immediately after " ++ after

/-- Why a file cannot be read or written. -/
inductive FileFault where
  | missing
  | notText
  | isDirectory
  | notDirectory
  | denied
  deriving DecidableEq, Repr

def FileFault.message : FileFault → String
  | missing => "No such file or directory (os error 2)"
  | notText => "stream did not contain valid UTF-8"
  | isDirectory => "Is a directory (os error 21)"
  | notDirectory => "Not a directory (os error 20)"
  | denied => "Permission denied (os error 13)"

/-- Why something cannot be done. Commands and keywords are in capitals. -/
inductive Fault where
  | malformed (line : Nat) (cause : LineFault)
  | unclosed (command : String) (line : Nat)
  | unknownCommand (command : String) (line : Nat)
  | missingKeywords (command : String) (line : Nat) (missing : List String)
  | unexpectedKeywords (command : String) (line : Nat) (unexpected : List String)
  | duplicateEntity (kind : EntityKind) (name : String)
  | missingEntity (kind : EntityKind) (name : String)
  /-- A block of parameter files does not follow its report block. -/
  | misplaced (line : Nat)
  /-- A block of parameter files is run before any report. -/
  | noReport (line : Nat)
  | refused (reason : String)
  | missingContext (command : String) (line : Nat)
  | noRunContext
  | badValue (keyword value reason : String)
  | equation (reason : String)
  | unreadable (path reason : String)
  | file (path : String) (cause : FileFault)
  | unsupported (what : String)
  | block (command : String) (line : Nat) (cause : Fault)
  /-- A count left its machine word, a time left the calendar, or a pattern has no text. -/
  | outOfRange
  deriving DecidableEq, Repr

namespace Fault

/-- A value that a keyword does not take. -/
def invalid (keyword value reason : String) : Fault := .badValue (Text.upper keyword) value reason

def message : Fault → String
  | malformed line cause => "Structure error at line " ++ toString line ++ ": " ++ cause.message
  | unclosed command line =>
    "Block '" ++ command ++ "' starting at line " ++ toString line ++ " is never closed with END " ++
      command
  | unknownCommand command line => "Unknown command '" ++ command ++ "' at line " ++ toString line
  | missingKeywords command line missing =>
    command ++ " at line " ++ toString line ++ " is missing required keyword(s): " ++
      Text.join ", " missing
  | unexpectedKeywords command line unexpected =>
    command ++ " at line " ++ toString line ++ " does not accept keyword(s): " ++
      Text.join ", " unexpected
  | duplicateEntity kind name => name ++ " is already a named " ++ kind.label
  | missingEntity kind name => name ++ " is not a named " ++ kind.label
  | misplaced line =>
    "Ordering error at line " ++ toString line ++ ": the WRITE_PEST_FILES block must be immediately " ++
      "preceded by a LIST_OUTPUT block listing the simulated values in the same order"
  | noReport line =>
    "Ordering error at line " ++ toString line ++
      ": WRITE_PEST_FILES needs a LIST_OUTPUT block to run first"
  | refused reason => "Validation error: " ++ reason
  | missingContext command line =>
    command ++ " at line " ++ toString line ++ " has no CONTEXT keyword"
  | noRunContext => "No run context: pass one explicitly or set CONTEXT in a SETTINGS block"
  | badValue keyword value reason =>
    "Invalid value '" ++ value ++ "' for " ++ keyword ++ ": " ++ reason
  | equation reason => "Equation error: " ++ reason
  | unreadable path reason => "Cannot read " ++ path ++ ": " ++ reason
  | file path cause => "IO error on " ++ path ++ ": " ++ cause.message
  | unsupported what => "Unsupported: " ++ what
  | block command line cause =>
    command ++ " (line " ++ toString line ++ ") failed: " ++ cause.message
  | outOfRange => "value out of range"

/-- The line of the control file that a fault points to. -/
def line? : Fault → Option Nat
  | malformed line _ | unclosed _ line | unknownCommand _ line | missingKeywords _ line _
  | unexpectedKeywords _ line _ | misplaced line | noReport line | missingContext _ line
  | block _ line _ => some line
  | _ => none

/-- Names the block that a fault arose in, unless it is named already. -/
def inBlock (command : String) (line : Nat) : Fault → Fault
  | block c l cause => block c l cause
  | cause => block command line cause

def root : Fault → Fault
  | block _ _ cause => cause.root
  | cause => cause

/-- A wrapped fault keeps its root. -/
theorem root_inBlock (f : Fault) (command : String) (line : Nat) :
    (f.inBlock command line).root = f.root := by
  cases f <;> rfl

end Fault

/-- Results that may be a fault. -/
abbrev Outcome := Except Fault

/-- Two steps succeed if the first does and the second does with what it gives. -/
theorem bind_eq_ok {α β : Type} {x : Outcome α} {f : α → Outcome β} {b : β} :
    (x >>= f) = .ok b ↔ ∃ a, x = .ok a ∧ f a = .ok b := by
  cases x <;> simp [bind, Except.bind]

end Hydroseries
