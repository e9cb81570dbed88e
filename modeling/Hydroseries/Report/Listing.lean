import Hydroseries.Double
import Hydroseries.Store.Kind
import Hydroseries.Store.Name
import Hydroseries.Text.Blank

/-!
# Listings

A listing is a report of values in fixed columns, together with where each value stands. From it come
the text of the report and the instructions by which a calibration program finds the values: so many
lines down, then a range of columns.
-/

namespace Hydroseries.Report

/-- A value on a line, under the name of an observation. -/
structure Observation where
  name : String
  /-- The first and the last column of the value, counted from one. -/
  columns : Nat × Nat
  value : Double
  deriving Repr

/-- A line, with the observation that stands on it. -/
structure Line where
  text : String
  observation : Option Observation := none
  deriving Repr

/-- The names of the observations of an entity, in the order of the report. -/
structure Section where
  kind : EntityKind
  name : EntityName
  observations : List String
  deriving Repr

structure Listing where
  file : String
  lines : List Line
  entities : List Section
  deriving Repr

namespace Listing

/-- The text of the report, without blanks at the ends of lines. -/
def text (l : Listing) : String :=
  String.join (l.lines.map fun line => Text.trimEnd line.text ++ "\n")

/-- The observations with the numbers of their lines, counted from one. -/
def observed (l : Listing) : List (Nat × Observation) :=
  (l.lines.zipIdx 1).filterMap fun (line, n) => line.observation.map fun o => (n, o)

/-- The instruction that goes from line `last` to an observation. -/
def instruction (last n : Nat) (o : Observation) : String :=
  "l" ++ toString (n - last) ++ " [" ++ o.name ++ "]" ++ toString o.columns.1 ++ ":" ++
    toString o.columns.2

/-- The instructions for observations further down than line `last`. -/
def instructionsFrom (last : Nat) : List (Nat × Observation) → List String
  | [] => []
  | (n, o) :: rest => instruction last n o :: instructionsFrom n rest

def instructions (l : Listing) : String :=
  String.join ((("pif $") :: instructionsFrom 0 l.observed).map (· ++ "\n"))

/-- The names of the observations of an entity, if it is listed. -/
def observationsOf? (l : Listing) (kind : EntityKind) (name : EntityName) : Option (List String) :=
  (l.entities.find? fun e => e.kind = kind ∧ e.name = name).map Section.observations

def count (l : Listing) : Nat := l.entities.foldl (fun n e => n + e.observations.length) 0

end Listing

end Hydroseries.Report
