import Hydroseries.Text.Case

/-!
# Lines of a control file

A `#` starts a comment. What is left of a line is trimmed, and two old spellings at its front are
replaced by the present ones before the line is cut into words.
-/

namespace Hydroseries.Control

/-- The code of a line, without comment and blanks around it; nothing for a line without code. -/
def codeOf? (line : List Char) : Option (List Char) :=
  let code := Text.trimChars (line.takeWhile (· != '#'))
  if code.isEmpty then none else some code

/-- Letters that a lower-case letter stands for when case is ignored; the long s is an s. -/
def foldsTo (letter c : Char) : Bool := c.toLower == letter || (letter == 's' && c == 'ſ')

/-- Splits the first word's worth of `word` off, ignoring case. -/
def dropFolded? : List Char → List Char → Option (List Char)
  | [], cs => some cs
  | _ :: _, [] => none
  | w :: ws, c :: cs => if foldsTo w c then dropFolded? ws cs else none

/-- Drops spaces, tabs not included. -/
def dropSpaces (cs : List Char) : List Char := cs.dropWhile (· == ' ')

/-- What follows `word` and at least one space. -/
def afterWord? (word cs : List Char) : Option (List Char) :=
  match dropFolded? word cs with
  | some (' ' :: rest) => some (dropSpaces rest)
  | _ => none

/-- Writes `EXCEEDANCE` for `EXCEEDENCE` at the front of the line, or right after `START` or `END`. -/
def respellExceedance (cs : List Char) : List Char :=
  let old := "exceedence".toList
  let starts := [afterWord? "start".toList cs, afterWord? "end".toList cs, some (dropSpaces cs)]
  match starts.findSome? fun start => start.bind fun rest =>
      (dropFolded? old rest).map fun tail => (rest, tail) with
  | some (rest, tail) => cs.take (cs.length - rest.length) ++ "EXCEEDANCE".toList ++ tail
  | none => cs

/-- Writes `NEW_G_TABLE_NAME` for `NEW_TABLE_NAME` at the front of the line. -/
def respellTableName (cs : List Char) : List Char :=
  match dropFolded? "new_table_name".toList (dropSpaces cs) with
  | some tail => "NEW_G_TABLE_NAME".toList ++ tail
  | none => cs

def normalize (code : List Char) : List Char := respellTableName (respellExceedance code)

/-- A keyword and its values, or a line that opens or closes a block. The keyword is in lower case. -/
structure Line where
  keyword : String
  values : List String
  deriving DecidableEq, Repr

namespace Line

/-- The number of words, the keyword included. -/
def width (l : Line) : Nat := l.values.length + 1

/-- The value at a position, or the last one when the line is shorter. -/
def valueOrLast? (l : Line) (i : Nat) : Option String := (l.values[i]?).or l.values.getLast?

def joined (l : Line) : String := Text.join " " l.values

/-- The words of a raw line: nothing for a line without code. -/
def ofChars? (raw : List Char) : Option Line :=
  (codeOf? raw).bind fun code =>
    match Text.wordsOf (normalize code) with
    | [] => none
    | keyword :: values =>
      some ⟨Text.lower (String.ofList keyword), values.map String.ofList⟩

end Line

end Hydroseries.Control
