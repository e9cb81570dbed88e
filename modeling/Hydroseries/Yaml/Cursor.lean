/-!
# Places in a text

A reader of YAML knows where it stands: how many characters lie behind it, which line it is on, and in
which column. A line ends at a line feed, a carriage return or both, at the next-line character, or at
one of the two Unicode separators; the separators keep their identity, the others count as line feeds.
-/

namespace Hydroseries.Yaml

/-! ### Characters -/

/-- Characters that may stand in a document. -/
def isAllowed (c : Char) : Bool :=
  let n := c.toNat
  n == 0x09 || n == 0x0A || n == 0x0D || (0x20 ≤ n && n ≤ 0x7E) || n == 0x85 ||
    (0xA0 ≤ n && n != 0xFFFE && n != 0xFFFF)

def isSpace (c : Char) : Bool := c == ' ' || c == '\t'

def isBreak (c : Char) : Bool :=
  c == '\n' || c == '\r' || c == '\x85' || c == '\u2028' || c == '\u2029'

def isGap (c : Char) : Bool := isSpace c || isBreak c

/-- True at the end of a word: at a blank, a line break or the end of the text. -/
def endsWord (cs : List Char) : Bool := cs.head?.all isGap

/-- What a character that ends a line counts as. -/
def breakText (c : Char) : Char := if c == '\u2028' || c == '\u2029' then c else '\n'

/-- Characters of names: ASCII letters and digits, the underscore and the hyphen. -/
def isNameChar (c : Char) : Bool := c.isAlphanum || c == '_' || c == '-'

def hexDigit? (c : Char) : Option Nat :=
  let n := c.toNat
  if 48 ≤ n ∧ n ≤ 57 then some (n - 48)
  else if 97 ≤ n ∧ n ≤ 102 then some (n - 87)
  else if 65 ≤ n ∧ n ≤ 70 then some (n - 55)
  else none

/-! ### Places -/

/-- A place in a text: what follows it, and how far the text and its line reach back. -/
structure Cursor where
  rest : List Char
  index : Nat
  line : Nat
  column : Nat
  deriving DecidableEq, Repr

namespace Cursor

/-- The first place of a text. A byte order mark at its front takes a column and means nothing. -/
def start : List Char → Cursor
  | '\uFEFF' :: rest => ⟨rest, 1, 0, 1⟩
  | text => ⟨text, 0, 0, 0⟩

/-- The place on the same line from which on `rest` follows. -/
def moveTo (c : Cursor) (rest : List Char) : Cursor :=
  let passed := c.rest.length - rest.length
  ⟨rest, c.index + passed, c.line, c.column + passed⟩

def next (c : Cursor) : Cursor := c.moveTo (c.rest.drop 1)

/-- Behind the characters that satisfy `p`, none of which ends a line. -/
def skipWhile (p : Char → Bool) (c : Cursor) : Cursor := c.moveTo (c.rest.dropWhile p)

/-- Behind a line break, with what it counts as. -/
def break? (c : Cursor) : Option (Char × Cursor) :=
  match c.rest with
  | '\r' :: '\n' :: rest => some ('\n', ⟨rest, c.index + 2, c.line + 1, 0⟩)
  | b :: rest =>
    if isBreak b then some (breakText b, ⟨rest, c.index + 1, c.line + 1, 0⟩) else none
  | [] => none

/-- Behind a comment, if one stands here. -/
def skipComment (c : Cursor) : Cursor :=
  if c.rest.head? == some '#' then c.skipWhile fun x => !isBreak x else c

/-- The next line, unless something other than blanks and a comment is left on this one. -/
def nextLine? (c : Cursor) : Option Cursor :=
  let c := (c.skipWhile isSpace).skipComment
  if c.rest.isEmpty then some c else c.break?.map Prod.snd

/-- True at the front of a line that begins with `mark` as a word. -/
def atMark (mark : String) (c : Cursor) : Bool :=
  c.column == 0 && mark.toList.isPrefixOf c.rest && endsWord (c.rest.drop mark.length)

/-- True at the marks that begin and end documents. -/
def atDocumentMark (c : Cursor) : Bool := c.atMark "---" || c.atMark "..."

/-! ### What is left -/

@[simp] theorem moveTo_rest (c : Cursor) (rest : List Char) : (c.moveTo rest).rest = rest := rfl

/-- Nothing is put back by skipping. -/
theorem length_skipWhile_le (p : Char → Bool) (c : Cursor) :
    (c.skipWhile p).rest.length ≤ c.rest.length :=
  (List.dropWhile_suffix p).length_le

theorem length_skipComment_le (c : Cursor) : c.skipComment.rest.length ≤ c.rest.length := by
  unfold skipComment
  split
  · exact length_skipWhile_le _ c
  · exact Nat.le_refl _

/-- A line break is at least one character. -/
theorem length_of_break? {c d : Cursor} {b : Char} (h : c.break? = some (b, d)) :
    d.rest.length < c.rest.length := by
  unfold break? at h
  split at h
  · rename_i hc; cases h; rw [hc]; exact Nat.lt_succ_of_lt (Nat.lt_succ_self _)
  · rename_i hc; split at h <;> cases h; rw [hc]; exact Nat.lt_succ_self _
  · cases h

end Cursor

end Hydroseries.Yaml
