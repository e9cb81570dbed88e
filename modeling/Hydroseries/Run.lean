import Hydroseries.Catalog.Commands
import Hydroseries.Command.Basic
import Hydroseries.Control.Script

/-!
# Runs

A run plans first: it selects the blocks of its context and checks the keywords of all of them. Then it
performs them one after the other. Nothing is done if the plan fails; a fault of a block ends the run,
and what was done before stays.
-/

namespace Hydroseries

open Control (Invocation Notice Origin)

/-! ### Plans -/

namespace Run

/-- Keywords that are taken but have no effect: the command, the keyword, and what to set instead. -/
def ignoredKeywords : List (String × String × String) :=
  [("WRITE_PEST_FILES", "automatic_user_intervention", "set DOAUI to aui, auid or noaui instead"),
   ("WRITE_PEST_FILES", "truncated_svd", "set EIGTHRESH to a small positive value instead")]

/-- A block that is run with its parameters, or one that is passed over. -/
inductive Step where
  | perform (p : Params)
  | skip (origin : Origin)
  deriving DecidableEq, Repr

/-- The context of blocks that belong to every run. -/
def everyContext : String := "all"

/-- True for the blocks of a run; settings belong to every run. -/
def selects (runContext : String) (i : Invocation) (blockContext : String) : Bool :=
  i.command == "SETTINGS" || blockContext == everyContext || blockContext == runContext

/-- The notices about a block that is run. -/
def noticesOf (d : Catalog.Descriptor) (i : Invocation) : List Notice :=
  let outdated := d.deprecated.toList.map fun hint =>
    (⟨.deprecated, i.origin, d.name ++ " is deprecated: " ++ hint⟩ : Notice)
  let ignored := ignoredKeywords.filter fun (command, keyword, _) =>
    command = d.name ∧ (i.find? keyword).isSome
  outdated ++ ignored.map fun (_, keyword, hint) =>
    ⟨.ignoredKeyword, i.origin, Text.upper keyword ++ " has no effect; " ++ hint⟩

def planBlock (runContext : String) (i : Invocation) : Outcome (Step × List Notice) :=
  match i.context? with
  | none => .error (.missingContext i.command i.startLine)
  | some context =>
    if !selects runContext i context then .ok (.skip i.origin, [])
    else
      match Catalog.find? i.command with
      | none => .error (.unknownCommand i.command i.startLine)
      | some d => do
        let p ← Params.resolve d i
        pure (.perform p, noticesOf d i)

def plan (runContext : String) (invocations : List Invocation) :
    Outcome (List Step × List Notice) := do
  let planned ← invocations.mapM (planBlock runContext)
  pure (planned.map Prod.fst, planned.flatMap Prod.snd)

end Run

/-! ### Execution -/

structure RunReport where
  context : String
  /-- The blocks that were run, in order. -/
  executed : List Origin
  skipped : List Origin
  notices : List Notice
  /-- What the store holds at the end, on request. -/
  store : Option Store.Summary

namespace Run

/-- Runs a block; a fault is put under the name of the block. -/
def performBlock (p : Params) : Action Origin := do
  let origin : Origin := ⟨p.command, p.line⟩
  tryCatch (Command.perform p) fun f => throw (f.inBlock origin.command origin.line)
  pure origin

def performSteps : List Step → Action (List Origin × List Origin)
  | [] => pure ([], [])
  | .skip origin :: rest => do
    let (executed, skipped) ← performSteps rest
    pure (executed, origin :: skipped)
  | .perform p :: rest => do
    let origin ← performBlock p
    let (executed, skipped) ← performSteps rest
    pure (origin :: executed, skipped)

structure Settings where
  /-- The context, where the file is not to choose it. -/
  context : Option String := none
  /-- Report what the store holds at the end. -/
  debug : Bool := false
  deriving DecidableEq, Repr

/-- The settings with a context that is not blank. -/
def Settings.ofContext (context : Option String) (debug : Bool) : Settings :=
  ⟨context.filter fun c => !Text.isAllBlank c, debug⟩

/-- The context of a run: that of the settings, or else that of the file. -/
def contextOf (settings : Settings) (script : Control.Script) : Outcome String :=
  match settings.context.or script.settingsContext? with
  | some c => .ok c
  | none => .error .noRunContext

/-- Runs a control file that has been read. -/
def script (settings : Settings) (script : Control.Script) : Action RunReport := do
  let context ← contextOf settings script
  let (steps, notices) ← plan context script.invocations
  let (executed, skipped) ← performSteps steps
  let s ← get
  pure ⟨context, executed, skipped, script.notices ++ notices,
    if settings.debug then some s.store.summary else none⟩

def text (settings : Settings) (source : String) : Action RunReport := do
  script settings (← Control.Script.read source)

/-- Runs a control file. File names in it are relative to its own directory, if its name has one. -/
def file (settings : Settings) (path : String) : Action RunReport := do
  let source ← Action.readText path
  let read ← Control.Script.read source
  -- A file that cannot be read as a script leaves the base directory as it was.
  let dir := FilePath.parent path
  if !dir.isEmpty then modify fun s => { s with baseDir := dir }
  script settings read

end Run

end Hydroseries
