import Hydroseries.Pest.Parameters

/-!
# Template files

A template file begins with a line that names a marker, a single character. On the other lines
parameter names stand between two markers, with at least one character between them.
-/

namespace Hydroseries.Pest.Template

/-- The texts between markers. `opened` holds what stands after an opening marker, in reverse, and is
absent outside. A marker directly after an opening one opens anew. -/
def between (marker : Char) (opened : Option (List Char)) : List Char → List (List Char)
  | [] => []
  | c :: rest =>
    match opened with
    | none => between marker (if c == marker then some [] else none) rest
    | some name =>
      if c != marker then between marker (some (c :: name)) rest
      -- Nothing stands between the two markers, so the second one opens.
      else if name.isEmpty then between marker (some []) rest
      else name.reverse :: between marker none rest

def marker? (header : String) : Option Char :=
  match Text.words header with
  | [word, marker] =>
    match marker.toList with
    | [c] => if Text.eqIgnoringAsciiCase word "ptf" then some c else none
    | _ => none
  | _ => none

/-- The names of the parameters of a template, trimmed and in lower case, as they occur. -/
def names (path text : String) : Outcome (List String) :=
  let lines := Text.lines text
  match marker? (lines.headD "") with
  | none => .error (.unreadable path "template files start with \"ptf <marker>\"")
  | some marker =>
    .ok ((lines.drop 1).flatMap fun l =>
      (between marker none l.toList).map fun n => Text.lower (Text.trim (String.ofList n)))

end Hydroseries.Pest.Template
