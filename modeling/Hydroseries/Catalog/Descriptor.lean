import Hydroseries.Control.Invocation

/-!
# Descriptors of commands

A descriptor says which keywords a command needs, which it takes besides, and with what presets. Some
commands take numbered keywords, a fixed beginning followed by digits.
-/

namespace Hydroseries.Catalog

open Control (Value)

/-- A keyword that may be left out, and what it is bound to then. -/
structure OptionalKeyword where
  name : String
  preset : Option Value := none
  deriving DecidableEq, Repr

namespace OptionalKeyword

def plain (name : String) : OptionalKeyword := { name }

def withPreset (name text : String) : OptionalKeyword := { name, preset := some (.scalar text) }

/-- A keyword with a list of preset texts. -/
def presetList (name : String) (texts : List String) : OptionalKeyword :=
  { name, preset := some (.list texts) }

end OptionalKeyword

/-- What is known of a command before any block of it is seen. -/
structure Descriptor where
  /-- The name in capitals. -/
  name : String
  required : List String
  optional : List OptionalKeyword := []
  /-- The fixed beginnings of numbered keywords. -/
  patterns : List String := []
  /-- What to use instead of the command. -/
  deprecated : Option String := none
  description : String
  deriving DecidableEq, Repr

namespace Descriptor

def requires (d : Descriptor) (keyword : String) : Bool := d.required.contains keyword

def optional? (d : Descriptor) (keyword : String) : Option OptionalKeyword :=
  d.optional.find? fun k => k.name = keyword

/-- True for a fixed beginning followed by at least one digit and nothing else. -/
def matchesPattern (d : Descriptor) (keyword : String) : Bool :=
  d.patterns.any fun start =>
    let rest := keyword.toList.drop start.length
    start.toList.isPrefixOf keyword.toList && !rest.isEmpty && rest.all fun c => '0' ≤ c && c ≤ '9'

/-- True for the keywords that a block of the command may have. -/
def accepts (d : Descriptor) (keyword : String) : Bool :=
  d.requires keyword || (d.optional? keyword).isSome || d.matchesPattern keyword

end Descriptor

end Hydroseries.Catalog
