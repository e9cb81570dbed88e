import Hydroseries.Pest.Control
import Hydroseries.Pest.Parameters
import Hydroseries.Pest.Template
import Hydroseries.Pest.Weight

/-!
# The files of a calibration

A calibration needs a control file, which describes parameters and observations, and an instruction
file, which finds the modelled values in the last report.
-/

namespace Hydroseries.Pest

/-- What a block says about the files of a calibration. -/
structure FilesBlock where
  /-- The first line of the block. -/
  line : Nat
  controlFile : String
  instructionFile : String
  /-- Template files with the input files that are made of them. -/
  templates : List (String × String)
  groupFile : String
  parameterFile : String
  pairs : List WeightedPair
  modelCommand : String
  head : ControlHead

structure Assembled where
  groups : ParameterGroups
  parameters : ParameterData
  observationGroups : List String
  /-- The lines of the observation data. -/
  observations : List String
  templates : Nat
  deriving Repr

namespace Assembled

def counts (a : Assembled) : Counts where
  parameters := a.parameters.count
  observations := a.observations.length
  parameterGroups := a.groups.names.length
  observationGroups := a.observationGroups.length
  templates := a.templates
  secondary := a.parameters.secondary.length
  equations := a.parameters.equations.length

/-- The lines on parameters: each parameter, the equations, and the ties. -/
def parameterLines (a : Assembled) : List String :=
  a.parameters.lines ++ a.parameters.equations ++ a.parameters.tied.map fun (child, parent) =>
    Text.padRight 15 child ++ " " ++ Text.padLeft 10 parent

end Assembled

namespace FilesBlock

def ofParams (p : Params) : Outcome FilesBlock := do
  let templates := p.entries "template_file"
  let inputs := p.entries "model_input_file"
  if templates.isEmpty then
    throw (.refused "WRITE_PEST_FILES needs at least one TEMPLATE_FILE")
  if templates.length ≠ inputs.length then
    throw (.refused (toString templates.length ++ " TEMPLATE_FILE entries but " ++
      toString inputs.length ++ " MODEL_INPUT_FILE entries"))
  let controlFile ← p.text "new_pest_control_file"
  let instructionFile ← p.text "new_instruction_file"
  let groupFile ← p.text "parameter_group_file"
  let parameterFile ← p.text "parameter_data_file"
  let pairs ← WeightedPair.ofParams p
  let some modelCommand := p.joined? "model_command_line"
    | throw (.missingKeywords p.command p.line ["MODEL_COMMAND_LINE"])
  let head ← ControlHead.ofParams p
  pure ⟨p.line, controlFile, instructionFile, templates.zip inputs, groupFile, parameterFile, pairs,
    modelCommand, head⟩

/-- The groups of the observations, one for each listed entity. -/
def observationGroups (b : FilesBlock) : List String :=
  (b.pairs.map fun w => w.model.lower).eraseDups

def sectionLines (title : String) (lines : List String) : List String := title :: lines

/-- The files that the model reads and the files that it writes, with what relates to them. -/
def modelFiles (b : FilesBlock) (report : String) : List String :=
  (b.templates.map fun (template, input) => template ++ " " ++ input) ++
    [b.instructionFile ++ " " ++ report]

def controlLines (b : FilesBlock) (a : Assembled) (report : String) : List String :=
  b.head.lines a.counts ++ sectionLines "* parameter groups" a.groups.lines ++
    sectionLines "* parameter data" a.parameterLines ++
    sectionLines "* observation groups" a.observationGroups ++
    sectionLines "* observation data" a.observations ++
    sectionLines "* model command line" [b.modelCommand] ++
    sectionLines "* model input/output" (b.modelFiles report)

def controlText (b : FilesBlock) (a : Assembled) (report : String) : String :=
  Text.join "\n" (b.controlLines a report) ++ "\n"

end FilesBlock

end Hydroseries.Pest
