import Hydroseries.CommandLine.Options
import Hydroseries.CommandLine.Summary

/-!
# The program

Runs a control file, or lists the commands. A run is a function of the files that are known: where one
is missing it is looked up on the disk, and the run is made again. What the run has changed is written
at its end, also after a fault.
-/

namespace Hydroseries

def Fault.missingFile? : Fault → Option String
  | .file path .missing => some path
  | .block _ _ cause => cause.missingFile?
  | _ => none

namespace Program

open CommandLine

/-- True if the disk holds a directory of a name. -/
def isDirectory (name : String) : IO Bool := do
  let found ← (IO.FS.realPath (FilePath.join name ".")).toBaseIO
  pure found.isOk

/-- Notes what the disk holds under a name, or the directory above it. -/
def fetch (t : FileTree) (name : String) : IO FileTree := do
  let place := FileTree.placeOf name
  let parent := FilePath.parent name
  if ← isDirectory name then
    pure { t with directories := place :: t.directories }
  else
    try
      let bytes ← IO.FS.readBinFile name
      pure { t with files := t.files.insert place bytes }
    catch
      | .permissionDenied file code details => throw (.permissionDenied file code details)
      | _ =>
        if !parent.isEmpty && (← isDirectory parent) then
          pure { t with directories := FileTree.above place :: t.directories }
        else pure t

/-- Asks a question about files and fetches those that it misses, each of them once. The answer comes
with the files that were known and those that are there after it. -/
partial def withFiles (ask : FileTree → Outcome α × FileTree) (known : FileTree)
    (fetched : List String) : IO (Outcome α × FileTree × FileTree) := do
  let (answer, after) := ask known
  let missing := match answer with
    | .error f => f.missingFile?
    | .ok _ => none
  match missing.filter fun name => !fetched.contains name with
  | some name => do withFiles ask (← fetch known name) (name :: fetched)
  | none => pure (answer, known, after)

/-- Writes the files of a tree that an earlier one does not have so. -/
def writeChanges (after known : FileTree) : IO Unit := do
  for (place, bytes) in after.changesSince known do
    IO.FS.writeBinFile (Text.join "/" place) bytes

/-- Shows a fault under what it has stopped. -/
def refuse (stopped : String) (f : Fault) : IO UInt32 := do
  IO.eprintln ("error: " ++ stopped)
  IO.eprintln ("  caused by: " ++ f.message)
  pure 1

def report (form : SummaryForm) (r : RunReport) (millis : Nat) : IO Unit :=
  match form with
  | .json => IO.println (r.json.render "")
  | .text => IO.println (Text.join "\n" (r.lines millis))

def run (controlFile : String) (o : RunOptions) : IO UInt32 := do
  let (loaded, _) ← withFiles (fun t => (Config.load t o.configFile, t)) .empty []
  match loaded with
  | .error f => refuse "Failed to load run configuration" f
  | .ok base =>
    let context ← IO.getEnv "HYDROSERIES_CONTEXT"
    let debug ← IO.getEnv "HYDROSERIES_DEBUG"
    let settings := (configure base o context debug).settings
    let started ← IO.monoMsNow
    let ask (t : FileTree) :=
      let (r, s) := (Run.file settings controlFile).perform
        { baseDir := FilePath.parent controlFile, files := t }
      (r, s.files)
    let (done, known, after) ← withFiles ask .empty []
    writeChanges after known
    match done with
    | .error f => refuse ("Run of " ++ controlFile ++ " failed") f
    | .ok r => do
      report o.form r ((← IO.monoMsNow) - started)
      pure 0

def listCommands : IO UInt32 := do
  for d in Catalog.commands do
    IO.println (Text.join "\n" d.lines)
  IO.println ""
  IO.println (toString Catalog.commands.length ++ " commands")
  pure 0

end Program

end Hydroseries

open Hydroseries CommandLine in
def main (args : List String) : IO UInt32 := do
  try
    match Request.read args with
    | .ok (.run controlFile o) => Program.run controlFile o
    | .ok .commands => Program.listCommands
    | .ok .help => do
      IO.println usage
      pure 0
    | .error f => do
      IO.eprintln ("error: " ++ f.message ++ "\n\n" ++ usage)
      pure 2
  catch e => do
    IO.eprintln ("error: " ++ toString e)
    pure 1
