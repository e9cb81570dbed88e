/-!
# Blanks, words and lines

White space is the Unicode property `White_Space`. A text is cut into words at runs of blanks and
into lines at line feeds; a carriage return before the line feed belongs to the line end.

Everything is defined on `List Char`, with a `String` form for the types that hold text.
-/

namespace Hydroseries.Text

/-- Closed ranges of the code points with the property `White_Space`, ascending and apart. -/
def blankRanges : List (Nat × Nat) :=
  [(0x09, 0x0D), (0x20, 0x20), (0x85, 0x85), (0xA0, 0xA0), (0x1680, 0x1680), (0x2000, 0x200A),
   (0x2028, 0x2029), (0x202F, 0x202F), (0x205F, 0x205F), (0x3000, 0x3000)]

def inRanges (ranges : List (Nat × Nat)) (n : Nat) : Bool :=
  ranges.any fun r => r.1 ≤ n && n ≤ r.2

def isBlank (c : Char) : Bool := inRanges blankRanges c.toNat

/-! ### Trimming -/

def trimFront (cs : List Char) : List Char := cs.dropWhile isBlank

def trimBack (cs : List Char) : List Char := (cs.reverse.dropWhile isBlank).reverse

def trimChars (cs : List Char) : List Char := trimBack (trimFront cs)

/-- The text without the blanks at its ends. -/
def trim (s : String) : String := String.ofList (trimChars s.toList)

/-- The text without the blanks at its end. -/
def trimEnd (s : String) : String := String.ofList (trimBack s.toList)

/-- True when the text holds nothing but blanks. -/
def isAllBlank (s : String) : Bool := s.toList.all isBlank

/-! ### Words -/

/-- Words of `cs`, where `word` holds the characters of a word begun before `cs`, last one first. -/
def wordsGo (word : List Char) : List Char → List (List Char)
  | [] => if word.isEmpty then [] else [word.reverse]
  | c :: cs =>
    if isBlank c then
      if word.isEmpty then wordsGo [] cs else word.reverse :: wordsGo [] cs
    else wordsGo (c :: word) cs

/-- The maximal blank-free runs, in order. -/
def wordsOf (cs : List Char) : List (List Char) := wordsGo [] cs

/-- The maximal blank-free runs of a text, in order. -/
def words (s : String) : List String := (wordsOf s.toList).map String.ofList

/-! ### Pieces and lines -/

/-- Cuts at every character that satisfies `p`; there is one piece more than there are cuts. -/
def piecesOf (p : Char → Bool) : List Char → List (List Char)
  | [] => [[]]
  | c :: cs =>
    if p c then [] :: piecesOf p cs
    else match piecesOf p cs with
      | [] => [[c]]
      | piece :: rest => (c :: piece) :: rest

/-- Cuts a text at every occurrence of a character. -/
def splitAtChar (s : String) (sep : Char) : List String :=
  (piecesOf (· == sep) s.toList).map String.ofList

/-- The text before and after the first character that satisfies `p`. -/
def cutAt (p : Char → Bool) (cs : List Char) : Option (List Char × List Char) :=
  match cs.span (fun c => !p c) with
  | (_, []) => none
  | (before, _ :: after) => some (before, after)

def dropReturn (line : List Char) : List Char :=
  match line.reverse with
  | '\r' :: rest => rest.reverse
  | _ => line

/-- Turns the pieces between line feeds into lines: the last piece is a line only if it holds
something, and it keeps a final carriage return. -/
def linesOfPieces : List (List Char) → List (List Char)
  | [] => []
  | [last] => if last.isEmpty then [] else [last]
  | piece :: rest => dropReturn piece :: linesOfPieces rest

/-- The lines of a text, without their line ends. -/
def linesOf (cs : List Char) : List (List Char) := linesOfPieces (piecesOf (· == '\n') cs)

/-- The lines of a text, without their line ends. -/
def lines (s : String) : List String := (linesOf s.toList).map String.ofList

/-! ### Padding -/

/-- Blanks on the left up to `width` characters. -/
def padLeft (width : Nat) (s : String) : String :=
  String.ofList (List.replicate (width - s.length) ' ') ++ s

/-- Blanks on the right up to `width` characters. -/
def padRight (width : Nat) (s : String) : String :=
  s ++ String.ofList (List.replicate (width - s.length) ' ')

/-- Zeros on the left up to `width` characters. -/
def padZero (width : Nat) (s : String) : String :=
  String.ofList (List.replicate (width - s.length) '0') ++ s

/-- Blanks on both sides up to `width` characters, the odd one on the right. -/
def padCenter (width : Nat) (s : String) : String :=
  let gap := width - s.length
  String.ofList (List.replicate (gap / 2) ' ') ++ s ++
    String.ofList (List.replicate (gap - gap / 2) ' ')

/-- The texts with `sep` between neighbours. -/
def join (sep : String) (parts : List String) : String := sep.intercalate parts

end Hydroseries.Text
