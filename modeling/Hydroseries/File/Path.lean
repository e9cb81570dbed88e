import Hydroseries.Text.Blank

/-!
# File names

File names are texts with slashes between their parts. A relative name is taken from a base directory
by putting that directory in front of it; nothing else is changed, so names are shown as they were
written.
-/

namespace Hydroseries.FilePath

/-- True for names that begin with a slash. -/
def isAbsolute (name : String) : Bool := name.toList.head? == some '/'

/-- The name as seen from a base directory. -/
def join (base name : String) : String :=
  if isAbsolute name || base.isEmpty then name
  else if base.toList.getLast? == some '/' then base ++ name
  else base ++ "/" ++ name

def parts (name : String) : List String := Text.splitAtChar name '/'

/-- True for parts that stay where they are. -/
def isStill (part : String) : Bool := part == "" || part == "."

/-- Drops the parts at the end that stay where they are, the first part excepted. -/
def dropStill : List String → List String
  | [] => []
  | part :: rest => part :: (rest.reverse.dropWhile isStill).reverse

/-- The directory of a file, as the name spells it; empty if the name has no directory. -/
def parent (name : String) : String :=
  let rest := dropStill ((dropStill (parts name)).dropLast)
  if rest = [""] then "/" else Text.join "/" rest

end Hydroseries.FilePath
