import Hydroseries.Params
import Hydroseries.Session

/-!
# Commands on entities of any kind

Copying, renaming and erasing.
-/

namespace Hydroseries.Command

/-- The entities that a block names, by kind. -/
def namedEntities (p : Params) : List (EntityKind × EntityName) :=
  EntityKind.all.filterMap fun kind => (p.entity? kind.nameKeyword).map fun n => (kind, n)

/-- The entities that the words of a block name, by kind. -/
def listedEntities (p : Params) : List (EntityKind × EntityName) :=
  EntityKind.all.flatMap fun kind => (p.entities kind.nameKeyword).map fun n => (kind, n)

def onlyEntity (p : Params) : Outcome (EntityKind × EntityName) :=
  match namedEntities p with
  | [one] => .ok one
  | named =>
    .error (.refused (p.command ++ " needs exactly one of SERIES_NAME, C_TABLE_NAME, " ++
      "S_TABLE_NAME, V_TABLE_NAME, E_TABLE_NAME or G_TABLE_NAME (found " ++
      toString named.length ++ ")"))

/-- An entity and a name that it gets. -/
structure Renaming where
  kind : EntityKind
  source : EntityName
  target : EntityName
  overwrite : Bool
  deriving DecidableEq, Repr

namespace Renaming

def ofParams (p : Params) : Outcome Renaming := do
  let (kind, source) ← onlyEntity p
  let target ← p.entity "new_entity_name"
  let overwrite ← p.flag "overwrite"
  pure ⟨kind, source, target, overwrite⟩

/-- Adds the entity again under the other name. -/
def copy (c : Renaming) : Action Unit :=
  Action.onStore (Store.copy c.kind c.source c.target c.overwrite)

def move (c : Renaming) : Action Unit :=
  Action.onStore (Store.rename c.kind c.source c.target c.overwrite)

end Renaming

structure EraseEntities where
  targets : List (EntityKind × EntityName)
  deriving DecidableEq, Repr

namespace EraseEntities

def ofParams (p : Params) : Outcome EraseEntities :=
  match listedEntities p with
  | [] => .error (.refused "ERASE_ENTITY needs at least one entity name")
  | targets => .ok ⟨targets⟩

/-- Erases the entities one by one, after checking that all of them are there. -/
def run (c : EraseEntities) : Action Unit := do
  let s ← get
  match c.targets.find? fun t => !s.store.contains t.1 t.2 with
  | some (kind, name) => throw (.missingEntity kind name.text)
  | none => pure ()
  for (kind, name) in c.targets do
    Action.changeStore fun st => st.erase kind name

end EraseEntities

end Hydroseries.Command
