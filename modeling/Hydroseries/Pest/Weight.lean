import Hydroseries.Decimal.Shortest
import Hydroseries.Equation.Eval
import Hydroseries.Params
import Hydroseries.Report.Listing
import Hydroseries.Report.Order

/-!
# Weights of observations

Every observed entity is paired with the modelled entity that is listed for it, with an equation for
the weight of each value and with bounds on the weight. Weights are never negative.
-/

namespace Hydroseries.Pest

/-- An observed entity, its counterpart in the report, and the weights of its values. -/
structure WeightedPair where
  kind : EntityKind
  observation : EntityName
  model : EntityName
  equation : Equation.Expr
  lower : Double
  upper : Option Double
  deriving Repr

namespace WeightedPair

/-- The kinds of observed entities, in the order of the control file. -/
def families : List EntityKind := [.series, .sTable, .vTable, .eTable, .gTable]

/-- Reads the bounds of weights: no bound but zero, or a minimum and a maximum. -/
def readBounds : Option String → Outcome (Double × Option Double)
  | none => .ok (0.0, none)
  | some raw => do
    let invalid (reason : String) : Fault := .invalid "weights_min_max" raw reason
    let bound (w : String) : Outcome Double :=
      match Text.readDouble? w with
      | some x => .ok x
      | none => .error (invalid "bounds must be numbers")
    match Text.words raw with
    | [low, high] => do
      let low ← bound low
      let high ← bound high
      if high < low then
        throw (.refused ("the minimum weight " ++ Decimal.plain low ++
          " is greater than the maximum weight " ++ Decimal.plain high))
      pure (Arith.max low 0.0, some high)
    | _ => throw (invalid "expected a minimum and a maximum")

/-- Pairs up the entries of a kind of entities. -/
def ofFamily (p : Params) (kind : EntityKind) : Outcome (List WeightedPair) := do
  let family := kind.label
  let observations := p.entries ("observation_" ++ family ++ "_name")
  let models := p.entries ("model_" ++ family ++ "_name")
  let equations := p.entries (family ++ "_weights_equation")
  let bounds := p.entries (family ++ "_weights_min_max")
  if models.length ≠ observations.length ∨ equations.length ≠ observations.length then
    throw (.refused (toString observations.length ++ " observation, " ++ toString models.length ++
      " model and " ++ toString equations.length ++ " weight equation entries for " ++ family ++
      "s; each observation needs a model name and a weight equation"))
  (observations.zip (models.zip equations)).zipIdx.mapM fun ((observation, model, equation), i) => do
    let (lower, upper) ← readBounds bounds[i]?
    let equation ← Equation.read equation
    pure ⟨kind, .ofSpelling observation, .ofSpelling model, equation, lower, upper⟩

def ofParams (p : Params) : Outcome (List WeightedPair) := do
  pure (← families.mapM (ofFamily p)).flatten

def bounded (w : WeightedPair) (weight : Double) : Double :=
  let weight := Arith.max weight w.lower
  match w.upper with
  | some u => Arith.min weight u
  | none => weight

def weight (w : WeightedPair) (st : Store) (value : Double) : Outcome Double := do
  match ← Equation.evaluate (.ofStore st) (some value.abs) w.equation with
  | .scalar x => pure (w.bounded x)
  | _ =>
    throw (.equation ("weight equation for " ++ w.observation.text ++ " must evaluate to a number"))

def observationLine (name : String) (value weight : Double) (group : String) : String :=
  Text.join " " [Text.padRight 20 name, Text.padLeft 15 (Decimal.fixed 6 value),
    Text.padLeft 15 (Decimal.fixed 6 weight), Text.padRight 20 group]

/-- The lines of the observation data, one for each value; the report must have as many values of the
model. -/
def observationLines (w : WeightedPair) (st : Store) (listing : Report.Listing) :
    Outcome (List String) := do
  match listing.observationsOf? w.kind w.model with
  | none =>
    throw (.refused ("model " ++ w.kind.label ++ " " ++ w.model.text ++
      " is not part of the preceding LIST_OUTPUT"))
  | some names =>
    let values ← Report.valuesOf st w.kind w.observation
    if values.length ≠ names.length then
      throw (.refused ("observation " ++ w.kind.label ++ " " ++ w.observation.text ++ " has " ++
        toString values.length ++ " values but model " ++ w.model.text ++ " was listed with " ++
        toString names.length))
    (names.zip values).mapM fun (name, value) => do
      let weight ← w.weight st value
      pure (observationLine name value weight w.model.lower)

end WeightedPair

end Hydroseries.Pest
