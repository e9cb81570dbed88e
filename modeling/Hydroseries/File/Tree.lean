import Hydroseries.Fault
import Hydroseries.File.Path
import Hydroseries.OrderedMap

/-!
# Trees of files

The files that a run can see, by their places. A place is the list of the parts that lead to it from the
working directory. Absolute places begin with an empty part, and places above the working directory
with `..`. A directory is there when something is below it, or when it is noted on its own.
-/

namespace Hydroseries

/-- The parts of the way from the working directory to a file or a directory. -/
abbrev FilePlace := List String

/-- Files with their contents, and directories that are there without a file below them. -/
structure FileTree where
  files : OrderedMap FilePlace ByteArray
  directories : List FilePlace := []

namespace FileTree

def empty : FileTree := { files := .empty }

instance : Inhabited FileTree := ⟨empty⟩

/-- True for the working directory, what is above it, and the root of all absolute places. -/
def isStanding (place : FilePlace) : Bool := place.all (· == "..") || place == [""]

/-- True for the directories that are always there, for what is above a file, and for the noted
directories. -/
def isDirectory (t : FileTree) (place : FilePlace) : Bool :=
  isStanding place || (t.files.keys.any fun k => place.isPrefixOf k && place.length < k.length) ||
    t.directories.any fun d => place.isPrefixOf d

/-- The place of the directory above one. The root of all absolute places is above itself. -/
def above (place : FilePlace) : FilePlace :=
  if place.all (· == "..") then place ++ [".."]
  else if place = [""] then place
  else place.dropLast

/-- The place that a part of a name leads to. -/
def step (place : FilePlace) (part : String) : FilePlace :=
  if FilePath.isStill part then place
  else if part = ".." then above place
  else place ++ [part]

def start (name : String) : FilePlace := if FilePath.isAbsolute name then [""] else []

/-- The place of a name, if all directories on its way are there. -/
def placeOf (name : String) : FilePlace := (FilePath.parts name).foldl step (start name)

/-- Follows the parts of a name down from a place. Every part but the last must lead to a
directory. -/
def follow (t : FileTree) (place : FilePlace) : List String → Except FileFault FilePlace
  | [] => .ok place
  | part :: rest =>
    -- A part that leads upward needs a directory too.
    if t.isDirectory place then t.follow (step place part) rest
    else .error (if t.files.contains place then .notDirectory else .missing)

def locate (t : FileTree) (name : String) : Except FileFault FilePlace :=
  if name.isEmpty then .error .missing else t.follow (start name) (FilePath.parts name)

def read (t : FileTree) (name : String) : Outcome String :=
  let found : Except FileFault String := do
    let place ← t.locate name
    match t.files.find? place with
    | some bytes =>
      match String.fromUTF8? bytes with
      | some text => pure text
      | none => throw .notText
    | none => throw (if t.isDirectory place then .isDirectory else .missing)
  found.mapError (.file name)

/-- Writes a file, in a directory that is there. -/
def write (t : FileTree) (name text : String) : Outcome FileTree :=
  let done : Except FileFault FileTree := do
    let place ← t.locate name
    if t.isDirectory place then throw .isDirectory
    pure { t with files := t.files.insert place text.toUTF8 }
  done.mapError (.file name)

/-- The files whose contents differ from those of an earlier tree. -/
def changesSince (t earlier : FileTree) : List (FilePlace × ByteArray) :=
  t.files.entries.filter fun (place, bytes) => earlier.files.find? place != some bytes

/-- The changed files that are below the working directory. -/
def changesBelow (t earlier : FileTree) : List (FilePlace × ByteArray) :=
  (t.changesSince earlier).filter fun (place, _) => !isStanding (place.take 1)

end FileTree

end Hydroseries
