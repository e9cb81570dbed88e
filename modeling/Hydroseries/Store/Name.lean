import Hydroseries.Text.Case

/-!
# Entity names

Names are trimmed and put into capitals when they are made, so two spellings of a name are one name.
-/

namespace Hydroseries

/-- The name of an entity, in capitals. -/
structure EntityName where
  text : String
  deriving DecidableEq, Repr

namespace EntityName

def ofSpelling (s : String) : EntityName := ⟨Text.upper (Text.trim s)⟩

def lower (n : EntityName) : String := Text.lower n.text

end EntityName

end Hydroseries
