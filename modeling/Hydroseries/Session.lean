import Hydroseries.DataFile.Binary
import Hydroseries.File.Tree
import Hydroseries.Plot.Request
import Hydroseries.Report.Listing
import Hydroseries.Store.Basic

/-!
# Sessions

A session is what commands read and change: the store, the date format in force, the files, and the
last report. Binary files and figures are left to backends; a session keeps what they were asked for.

An action keeps the changes that it has made before a fault.
-/

namespace Hydroseries

structure Backends where
  readBinary : BinaryRequest → Outcome Series
  plot : PlotRequest → Outcome Unit

namespace Backends

def none : Backends where
  readBinary request :=
    .error (.unsupported (request.format.command ++ " needs a binary reader, none is configured"))
  plot request :=
    .error (.unsupported ("PLOT to " ++ request.file ++
      " needs a plotting backend, none is configured"))

end Backends

structure Session where
  store : Store := .empty
  dateFormat : DateFormat := .iso
  /-- The directory that relative file names are taken from. -/
  baseDir : String
  /-- The last report. -/
  listing : Option Report.Listing := none
  files : FileTree
  backends : Backends := .none
  /-- The requests for binary files that were granted, the last one first. -/
  binaryReads : List BinaryRequest := []
  /-- The figures that were drawn, the last one first. -/
  plots : List PlotRequest := []

/-- Actions in a session. -/
abbrev Action := ExceptT Fault (StateM Session)

namespace Session

/-- The name of a file as seen from the working directory. -/
def resolve (s : Session) (file : String) : String := FilePath.join s.baseDir file

end Session

namespace Action

/-- Runs an action; the session is changed up to a fault. -/
def perform (a : Action α) (s : Session) : Outcome α × Session := a.run.run s

/-- A change of the store, made wholly or not at all. -/
def changeStore (change : Store → Outcome Store) : Action Unit := do
  let s ← get
  let st ← change s.store
  set { s with store := st }

/-- Changes of the store that may stop halfway. -/
def onStore (u : Store.Update Unit) : Action Unit := do
  let s ← get
  let (r, st) := u.run.run s.store
  set { s with store := st }
  r

def joinSeries (name : EntityName) (s : Series) : Action Unit :=
  changeStore fun st => st.joinSeries name s

def insertTable (name : EntityName) (t : Store.Table) : Action Unit :=
  changeStore fun st => st.insertTable name t

def getSeries (name : EntityName) : Action Series := do
  let s ← get
  s.store.getSeries name

/-- The text of a file, by its name as seen from the working directory. -/
def readText (path : String) : Action String := do
  let s ← get
  s.files.read path

/-- Writes a file, by its name as seen from the working directory. -/
def writeText (path text : String) : Action Unit := do
  let s ← get
  let files ← s.files.write path text
  set { s with files }

/-- The name of a file as seen from the working directory. -/
def resolve (file : String) : Action String := do
  let s ← get
  pure (s.resolve file)

/-- Asks for a series of a binary file. -/
def readBinary (request : BinaryRequest) : Action Series := do
  let s ← get
  let found ← s.backends.readBinary request
  set { s with binaryReads := request :: s.binaryReads }
  pure found

def plot (request : PlotRequest) : Action Unit := do
  let s ← get
  s.backends.plot request
  set { s with plots := request :: s.plots }

end Action

end Hydroseries
