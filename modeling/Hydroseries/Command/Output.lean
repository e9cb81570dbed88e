import Hydroseries.Command.Entities
import Hydroseries.Pest.Files
import Hydroseries.Report.Layout
import Hydroseries.Session

/-!
# Commands that write

Reports, the files of a calibration, and plots.
-/

namespace Hydroseries.Command

/-! ### Reports -/

structure ListOutput where
  file : String
  format : Report.SeriesFormat
  /-- The entities by kind, in the order given. -/
  entities : List (EntityKind × EntityName)
  deriving Repr

namespace ListOutput

def readFormat (p : Params) : Outcome (Option Report.SeriesFormat) := do
  let word ← p.choice? "series_format" ["long", "short", "ssf"]
  pure (word.map fun w => match w with
    | "short" => .short
    | "ssf" => .ssf
    | _ => .long)

/-- Reads a block. The format is needed when a series is listed. -/
def ofParams (p : Params) : Outcome ListOutput := do
  let format ← readFormat p
  let entities := listedEntities p
  if entities.isEmpty then throw (.refused "LIST_OUTPUT names no entity to list")
  if format.isNone && entities.any fun e => e.1 = .series then
    throw (.refused "SERIES_FORMAT (long, short or ssf) is required when listing series")
  pure ⟨← p.text "file", format.getD .long, entities⟩

def layOut (c : ListOutput) (s : Session) : Outcome Report.Listing :=
  Report.layOut s.store s.dateFormat c.format c.entities (s.resolve c.file)

/-- Writes the report, which becomes the last one. -/
def run (c : ListOutput) : Action Unit := do
  let listing ← c.layOut (← get)
  Action.writeText listing.file listing.text
  modify fun s => { s with listing := some listing }

end ListOutput

/-! ### Files of a calibration -/

namespace WritePestFiles

open Pest

/-- Reads the files of a block and collects what goes into the control file. -/
def assemble (b : FilesBlock) (listing : Report.Listing) : Action Assembled := do
  -- Templates are only checked; their names are not written anywhere.
  for (template, _) in b.templates do
    let path ← Action.resolve template
    let _ ← Template.names path (← Action.readText path)
  let groupPath ← Action.resolve b.groupFile
  let groups ← ParameterGroups.read groupPath (← Action.readText groupPath)
  let parameterPath ← Action.resolve b.parameterFile
  let parameters ← ParameterData.read parameterPath (← Action.readText parameterPath) groups
  let s ← get
  let observations ← b.pairs.mapM fun w => w.observationLines s.store listing
  pure ⟨groups, parameters, b.observationGroups, observations.flatten, b.templates.length⟩

/-- Writes the instruction file and the control file for the last report. -/
def run (b : FilesBlock) : Action Unit := do
  let some listing := (← get).listing | throw (.noReport b.line)
  let assembled ← assemble b listing
  Action.writeText (← Action.resolve b.instructionFile) listing.instructions
  Action.writeText (← Action.resolve b.controlFile) (b.controlText assembled listing.file)

end WritePestFiles

/-! ### Plots -/

structure Plot where
  series : List EntityName
  file : String
  window : Window
  options : PlotOptions
  deriving Repr

namespace Plot

def ofParams (p : Params) (dates : DateFormat) : Outcome Plot := do
  let series := p.entities "series_name"
  if series.isEmpty then throw (.refused "PLOT needs at least one SERIES_NAME")
  let options ← PlotOptions.ofParams p series
  let file ← p.text "file"
  let window ← p.window dates
  pure ⟨series, file, window, options⟩

def run (c : Plot) : Action Unit := do
  let series ← c.series.mapM fun name => do
    let s ← Action.getSeries name
    pure (name, s.within c.window)
  Action.plot ⟨← Action.resolve c.file, series, c.options⟩

end Plot

end Hydroseries.Command
