/-!
# Kinds of entities

A run produces series and five kinds of tables. Each kind is a name space of its own.
-/

namespace Hydroseries

inductive EntityKind where
  | series
  | cTable
  | sTable
  | vTable
  | eTable
  | gTable
  deriving DecidableEq, Repr

namespace EntityKind

/-- All kinds, series first. -/
def all : List EntityKind := [series, cTable, sTable, vTable, eTable, gTable]

/-- The word for a kind in messages and keywords. -/
def label : EntityKind → String
  | series => "series"
  | cTable => "c_table"
  | sTable => "s_table"
  | vTable => "v_table"
  | eTable => "e_table"
  | gTable => "g_table"

def nameKeyword (k : EntityKind) : String := k.label ++ "_name"

end EntityKind

end Hydroseries
