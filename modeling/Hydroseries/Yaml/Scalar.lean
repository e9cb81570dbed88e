import Hydroseries.Yaml.Cursor

/-!
# Scalars

A scalar is written plainly, between quotes, or as a block of lines. The parts of a plain or a quoted
scalar are joined over its gaps: blanks on a line stand for themselves, a line break becomes a space,
and of several line breaks the first is dropped.

The readers take a place in the text and return what they read with the place behind it. Plain scalars
and the leading blanks of blocks depend on the indentation around them.
-/

namespace Hydroseries.Yaml

inductive Style where
  | plain
  | singleQuoted
  | doubleQuoted
  | literal
  | folded
  deriving DecidableEq, Repr

structure Scalar where
  text : String
  style : Style
  tag : Option String
  deriving DecidableEq, Repr

/-- The scalar that stands where nothing is written. -/
def Scalar.missing : Scalar := ⟨"", .plain, none⟩

/-! ### Gaps -/

/-- What stands between two parts of a scalar. -/
inductive Gap where
  /-- Blanks on one line. -/
  | spaces (text : List Char)
  /-- The first line break, unless it is escaped, and the others. Blanks around them do not count. -/
  | breaks (first : Option Char) (more : List Char)
  deriving DecidableEq, Repr

namespace Gap

def empty : Gap := spaces []

def text : Gap → List Char
  | spaces text => text
  | breaks (some '\n') [] => [' ']
  | breaks (some '\n') more => more
  | breaks first more => first.toList ++ more

def leavesLine : Gap → Bool
  | spaces _ => false
  | breaks _ _ => true

def cross (b : Char) : Gap → Gap
  | spaces _ => breaks (some b) []
  | breaks first more => breaks first (more ++ [b])

def widen (c : Char) : Gap → Gap
  | spaces text => spaces (text ++ [c])
  | breaks first more => breaks first more

/-- Reads on in a gap. A tab in a column below `indent` of a later line is refused. -/
def read? (indent : Nat) (gap : Gap) (c : Cursor) : Option (Gap × Cursor) :=
  match _ : c.break? with
  | some (b, d) => read? indent (gap.cross b) d
  | none =>
    match _ : c.rest with
    | x :: _ =>
      if isSpace x then
        if gap.leavesLine && c.column < indent && x == '\t' then none
        else read? indent (gap.widen x) c.next
      else some (gap, c)
    | [] => some (gap, c)
termination_by c.rest.length
decreasing_by
  · exact Cursor.length_of_break? ‹_›
  · simp [Cursor.next, *]

end Gap

/-! ### Plain scalars -/

/-- The front of a plain scalar up to a gap or its end, and what follows. Inside braces a colon must
not stand right before punctuation. -/
def plainPart? (flow : Bool) : List Char → Option (List Char × List Char)
  | [] => some ([], [])
  | c :: cs =>
    if isGap c then some ([], c :: cs)
    else if flow && c == ':' && cs.head?.any (",?[]\x7b\x7d".toList.contains ·) then none
    else if (c == ':' && endsWord cs) || (flow && ",[]\x7b\x7d".toList.contains c) then
      some ([], c :: cs)
    else (plainPart? flow cs).map fun (part, rest) => (c :: part, rest)

/-- Reads on in a plain scalar; `text` is what was read before the gap. The fuel bounds the number of
parts. -/
def plainWithin (flow : Bool) (indent : Nat) :
    Nat → List Char → Gap → Cursor → Option (List Char × Bool × Cursor)
  | 0, text, gap, c => some (text, gap.leavesLine, c)
  | fuel + 1, text, gap, c =>
    if c.atDocumentMark || c.rest.head? == some '#' then some (text, gap.leavesLine, c)
    else do
      let (part, rest) ← plainPart? flow c.rest
      let behind := c.moveTo rest
      let (text, gap) := if part.isEmpty then (text, gap) else (text ++ gap.text ++ part, Gap.empty)
      if rest.isEmpty || !endsWord rest then some (text, gap.leavesLine, behind)
      else
        let (gap, d) ← gap.read? indent behind
        if !flow && d.column < indent then some (text, gap.leavesLine, d)
        else plainWithin flow indent fuel text gap d

/-- Reads a plain scalar whose later lines have at least `indent` blanks before them: its text, whether
line breaks follow it, and the place behind it. -/
def readPlain? (flow : Bool) (indent : Nat) (c : Cursor) : Option (String × Bool × Cursor) :=
  (plainWithin flow indent (c.rest.length + 1) [] Gap.empty c).map fun (text, crossed, d) =>
    (String.ofList text, crossed, d)

/-! ### Quoted scalars -/

/-- The front of a text between single quotes up to a gap or the closing quote, and what follows. Two
quotes stand for one. -/
def singlePart : List Char → List Char × List Char
  | [] => ([], [])
  | '\'' :: '\'' :: cs =>
    let (part, rest) := singlePart cs
    ('\'' :: part, rest)
  | c :: cs =>
    if c == '\'' || isGap c then ([], c :: cs)
    else
      let (part, rest) := singlePart cs
      (c :: part, rest)

/-- The characters that a letter after a backslash stands for, by their code points. -/
def escapes : List (Char × Nat) :=
  [('0', 0), ('a', 7), ('b', 8), ('t', 9), ('\t', 9), ('n', 10), ('v', 11), ('f', 12), ('r', 13),
   ('e', 27), (' ', 32), ('"', 34), ('/', 47), ('\\', 92), ('N', 0x85), ('_', 0xA0), ('L', 0x2028),
   ('P', 0x2029)]

/-- Letters after a backslash that a code point follows, with the number of its hexadecimal digits. -/
def codeLengths : List (Char × Nat) := [('x', 2), ('u', 4), ('U', 8)]

/-- The character of a code point in hexadecimal digits. -/
def coded? (digits : List Char) : Option Char := do
  let n ← digits.foldlM (fun n c => (hexDigit? c).map fun d => 16 * n + d) 0
  if n.isValidChar then some (Char.ofNat n) else none

/-- The character that an escape stands for, and what follows. `c` is the letter after the
backslash. -/
def escaped? (c : Char) (cs : List Char) : Option (Char × List Char) :=
  match codeLengths.lookup c with
  | some length =>
    if length ≤ cs.length then (coded? (cs.take length)).map fun e => (e, cs.drop length) else none
  | none => (escapes.lookup c).map fun code => (Char.ofNat code, cs)

/-- The front of a text between double quotes up to a gap, a backslash before a line break, or the
closing quote, and what follows. The fuel bounds the number of characters. -/
def doublePartWithin : Nat → List Char → Option (List Char × List Char)
  | 0, _ | _, [] => some ([], [])
  | fuel + 1, c :: cs =>
    if c == '"' || isGap c then some ([], c :: cs)
    else if c == '\\' then
      match cs with
      | [] => none
      | e :: tail =>
        if isBreak e then some ([], c :: cs)
        else do
          let (x, tail) ← escaped? e tail
          (doublePartWithin fuel tail).map fun (part, rest) => (x :: part, rest)
    else (doublePartWithin fuel cs).map fun (part, rest) => (c :: part, rest)

/-- The front of a text between double quotes up to a gap, a backslash before a line break, or the
closing quote, and what follows. -/
def doublePart? (cs : List Char) : Option (List Char × List Char) := doublePartWithin cs.length cs

/-- Reads on between quotes; `text` is what was read before. The fuel bounds the number of parts. -/
def quotedWithin (double : Bool) : Nat → List Char → Cursor → Option (List Char × Cursor)
  | 0, _, _ => none
  | fuel + 1, text, c =>
    if c.atDocumentMark then none
    else do
      let (part, rest) ← if double then doublePart? c.rest else some (singlePart c.rest)
      let behind := c.moveTo rest
      let text := text ++ part
      match rest with
      | [] => none
      | '\\' :: _ =>
        -- An escaped line break joins its neighbours.
        let (_, d) ← behind.next.break?
        let (gap, d) ← Gap.read? 0 (.breaks none []) d
        quotedWithin double fuel (text ++ gap.text) d
      | x :: _ =>
        if isGap x then
          let (gap, d) ← Gap.empty.read? 0 behind
          quotedWithin double fuel (text ++ gap.text) d
        else some (text, behind.next)

/-- Reads a quoted scalar from behind its opening quote. -/
def readQuoted? (double : Bool) (c : Cursor) : Option (String × Cursor) :=
  (quotedWithin double (c.rest.length + 1) [] c).map fun (text, d) => (String.ofList text, d)

/-! ### Blocks -/

/-- What becomes of the line breaks at the end of a block. -/
inductive Chomp where
  /-- All are dropped. -/
  | strip
  /-- The first is kept. -/
  | clip
  /-- All are kept. -/
  | keep
  deriving DecidableEq, Repr

/-- The marks behind the bar of a block. -/
def Chomp.ofMark? : Char → Option Chomp
  | '-' => some .strip
  | '+' => some .keep
  | _ => none

/-- The depth from one to nine that a digit gives a block; the outer `none` stands for a zero. -/
def blockDepth? : List Char → Option (Option Nat × List Char)
  | [] => some (none, [])
  | c :: cs =>
    if c == '0' then none
    else if c.isDigit then some (some (c.toNat - '0'.toNat), cs)
    else some (none, c :: cs)

/-- The marks behind the bar of a block: what becomes of its end, and its depth, in either order. -/
def blockHeader? (cs : List Char) : Option (Chomp × Option Nat × List Char) :=
  match cs.head?.bind Chomp.ofMark? with
  | some chomp => (blockDepth? (cs.drop 1)).map fun (depth, rest) => (chomp, depth, rest)
  | none => do
    let (depth, rest) ← blockDepth? cs
    match depth, rest.head?.bind Chomp.ofMark? with
    | some _, some chomp => some (chomp, depth, rest.drop 1)
    | _, _ => some (.clip, depth, rest)

/-- Skips the indentation of a line, which ends in column `indent` where that is known. -/
def skipIndent (indent : Option Nat) (c : Cursor) : Cursor :=
  let spaces := (c.rest.takeWhile (· == ' ')).length
  let width := match indent with
    | none => spaces
    | some n => min spaces (n - c.column)
  c.moveTo (c.rest.drop width)

/-- Skips indentation and empty lines: the breaks of these lines, the last column that an indentation
reaches, and the place behind. A tab in the place of indentation is refused. -/
def readEmptyLines? (indent : Option Nat) (breaks : List Char) (deepest : Nat) (c : Cursor) :
    Option (List Char × Nat × Cursor) :=
  let d := skipIndent indent c
  let deepest := max deepest d.column
  if d.rest.head? == some '\t' && indent.all (d.column < ·) then none
  else match _ : d.break? with
    | some (b, e) => readEmptyLines? indent (breaks ++ [b]) deepest e
    | none => some (breaks, deepest, d)
termination_by c.rest.length
decreasing_by
  have h := Cursor.length_of_break? ‹_›
  simp only [d, skipIndent, Cursor.moveTo_rest, List.length_drop] at h
  omega

structure BlockText where
  text : List Char := []
  /-- The break behind the last line. -/
  ending : Option Char := none
  /-- The breaks of the empty lines behind it. -/
  empty : List Char := []
  /-- The last line begins with a blank. -/
  indented : Bool := false
  deriving Repr

/-- A block with one more line. In a folded block the break between two lines that begin with no blank
becomes a space, or nothing before empty lines. -/
def BlockText.add (t : BlockText) (folded : Bool) (line : List Char) (ending : Option Char)
    (empty : List Char) : BlockText :=
  let indented := line.head?.any isSpace
  let joint :=
    if folded && t.ending == some '\n' && !t.indented && !indented then
      if t.empty.isEmpty then [' '] else []
    else t.ending.toList
  ⟨t.text ++ joint ++ t.empty ++ line, ending, empty, indented⟩

def BlockText.chomped (t : BlockText) : Chomp → List Char
  | .strip => t.text
  | .clip => t.text ++ t.ending.toList
  | .keep => t.text ++ t.ending.toList ++ t.empty

/-- Reads the lines of a block that begin in column `indent`. The fuel bounds their number. -/
def blockWithin (folded : Bool) (indent : Nat) : Nat → BlockText → Cursor → Option (BlockText × Cursor)
  | 0, t, c => some (t, c)
  | fuel + 1, t, c =>
    if c.column != indent || c.rest.isEmpty then some (t, c)
    else do
      let (line, rest) := c.rest.span fun x => !isBreak x
      let behind := c.moveTo rest
      let (ending, d) := match behind.break? with
        | some (b, d) => (some b, d)
        | none => (none, behind)
      let (empty, _, d) ← readEmptyLines? (some indent) [] 0 d
      blockWithin folded indent fuel (t.add folded line ending empty) d

/-- Reads a block from behind its bar. `indent` is the column of the mapping around it. -/
def readBlock? (folded : Bool) (indent : Option Nat) (c : Cursor) : Option (String × Cursor) := do
  let (chomp, depth, rest) ← blockHeader? c.rest
  let d ← (c.moveTo rest).nextLine?
  let given := depth.map (indent.getD 0 + ·)
  let (empty, deepest, d) ← readEmptyLines? given [] 0 d
  let least := match indent with
    | some n => n + 1
    | none => 1
  let column := given.getD (max deepest least)
  let (t, d) ← blockWithin folded column (d.rest.length + 1) { empty := empty } d
  some (String.ofList (t.chomped chomp), d)

end Hydroseries.Yaml
