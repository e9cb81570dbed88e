import Hydroseries.Text.Blank
import Hydroseries.Text.CaseTable

/-!
# Upper and lower case

Full case mapping: a character may map to several, and a capital sigma at the end of a word becomes
the final form when it is lowered.
-/

namespace Hydroseries.Text

/-- The image of a code point under the first run that holds it. -/
def mapRun? (runs : List (Nat × Nat × Nat × Int)) (n : Nat) : Option Char :=
  (runs.find? fun (first, last, stride, _) => first ≤ n && n ≤ last && (n - first) % stride == 0).map
    fun (_, _, _, delta) => Char.ofNat ((n : Int) + delta).toNat

/-- Case mapping of one character outside ASCII. -/
def mapWide (runs : List (Nat × Nat × Nat × Int)) (expansions : List (Nat × List Nat)) (c : Char) :
    List Char :=
  match expansions.lookup c.toNat with
  | some image => image.map Char.ofNat
  | none => [(mapRun? runs c.toNat).getD c]

/-- Lowercase of one character, wherever it stands. -/
def lowerChar (c : Char) : List Char :=
  if c.toNat < 0x80 then [c.toLower] else mapWide lowerRuns lowerExpansions c

def upperChar (c : Char) : List Char :=
  if c.toNat < 0x80 then [c.toUpper] else mapWide upperRuns upperExpansions c

/-- True when the first character that is not case-ignorable is a cased letter. -/
def meetsCased (cs : List Char) : Bool :=
  match cs.dropWhile fun c => inRanges caseIgnorableRanges c.toNat with
  | [] => false
  | c :: _ => inRanges casedRanges c.toNat

/-- Lowercase of `cs`, where `before` holds the characters to its left, nearest first. -/
def lowerGo (before : List Char) : List Char → List Char
  | [] => []
  | c :: cs =>
    (if c == 'Σ' then [if meetsCased before && !meetsCased cs then 'ς' else 'σ'] else lowerChar c)
      ++ lowerGo (c :: before) cs

def lowerChars (cs : List Char) : List Char := lowerGo [] cs

def upperChars (cs : List Char) : List Char := cs.flatMap upperChar

def lower (s : String) : String := String.ofList (lowerChars s.toList)

def upper (s : String) : String := String.ofList (upperChars s.toList)

/-- Equality up to the case of ASCII letters. -/
def eqIgnoringAsciiCase (s t : String) : Bool := s.toList.map Char.toLower == t.toList.map Char.toLower

end Hydroseries.Text
