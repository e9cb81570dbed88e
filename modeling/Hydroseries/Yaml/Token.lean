import Hydroseries.Yaml.Scalar
import Hydroseries.Yaml.Tag

/-!
# Tokens

A document is cut into tokens from the front. Indentation becomes tokens too: a mapping begins at its
first key and ends where a line begins further left.

A key needs no mark of its own, so whether a scalar is one shows only at the colon behind it. Until
then the place where a key may have begun is kept, with the tokens read since. It has to be on the line
of the colon and at most 1024 characters before it; at the column of the mapping around it there must
be a key, so that giving such a place up is an error.

The documents meant here are flat: a sequence, or a mapping in a mapping, is refused.
-/

namespace Hydroseries.Yaml

inductive Token where
  | directive (d : Directive)
  | documentStart
  | documentEnd
  | mappingStart
  | mappingEnd
  | openBrace
  | closeBrace
  | comma
  | key
  | value
  | alias (name : String)
  | anchor (name : String)
  | tag (name : TagName)
  | scalar (text : String) (style : Style)
  deriving DecidableEq, Repr

/-- A place where a key may have begun. -/
structure KeyPlace where
  index : Nat
  line : Nat
  column : Nat
  /-- Something other than a key cannot stand here. -/
  required : Bool
  /-- The tokens read since, last one first. -/
  tokens : List Token
  deriving Repr

structure Tokenizer where
  cursor : Cursor
  /-- The tokens before `keyPlace`, last one first. -/
  tokens : List Token
  keyPlace : Option KeyPlace
  /-- A key may begin at the cursor. -/
  keyAllowed : Bool
  /-- The cursor is between braces. -/
  flow : Bool
  /-- The column of the mapping around the cursor. -/
  indent : Option Nat
  deriving Repr

namespace Tokenizer

def start (text : List Char) : Tokenizer := ⟨.start text, [], none, true, false, none⟩

def emit (t : Token) (s : Tokenizer) : Tokenizer :=
  match s.keyPlace with
  | some k => { s with keyPlace := some { k with tokens := t :: k.tokens } }
  | none => { s with tokens := t :: s.tokens }

/-- Moves on, after which a key may begin or not. -/
def moved (c : Cursor) (keyAllowed : Bool) (s : Tokenizer) : Tokenizer :=
  { s with cursor := c, keyAllowed := keyAllowed }

/-! ### Places of keys -/

def dropKey? (s : Tokenizer) : Option Tokenizer :=
  match s.keyPlace with
  | none => some s
  | some k =>
    if k.required then none else some { s with tokens := k.tokens ++ s.tokens, keyPlace := none }

/-- Gives up a place of a key that is too far back. -/
def dropFarKey? (s : Tokenizer) : Option Tokenizer :=
  if s.keyPlace.any fun k => k.line < s.cursor.line || k.index + 1024 < s.cursor.index then s.dropKey?
  else some s

/-- Takes the cursor for a place where a key may begin. -/
def placeKey? (s : Tokenizer) : Option Tokenizer :=
  if s.keyAllowed then do
    let s ← s.dropKey?
    let required := !s.flow && s.indent == some s.cursor.column
    some { s with
      keyPlace := some ⟨s.cursor.index, s.cursor.line, s.cursor.column, required, []⟩ }
  else some s

/-! ### Indentation -/

/-- Begins a mapping for a key in `column`, unless it belongs to the mapping around it. -/
def beginMapping? (column : Nat) (s : Tokenizer) : Option Tokenizer :=
  if s.flow then some s
  else match s.indent with
    | none => some ({ s with indent := some column }.emit .mappingStart)
    | some n => if n < column then none else some s

/-- Ends the mapping around a token that stands left of it; `none` stands for the end of everything. -/
def endMapping (column : Option Nat) (s : Tokenizer) : Tokenizer :=
  if !s.flow && s.indent.any fun n => column.all (· < n) then
    { s with indent := none }.emit .mappingEnd
  else s

/-! ### Single tokens -/

/-- Skips blanks, comments and line breaks. Outside of braces a key may begin on a fresh line, and where
one may begin no tab is skipped. -/
def skipGaps (flow keyAllowed : Bool) (c : Cursor) : Bool × Cursor :=
  let d := (c.skipWhile fun x => x == ' ' || (x == '\t' && (flow || !keyAllowed))).skipComment
  match _ : d.break? with
  | some (_, e) => skipGaps flow (keyAllowed || !flow) e
  | none => (keyAllowed, d)
termination_by c.rest.length
decreasing_by
  have h := Cursor.length_of_break? ‹_›
  have h₁ := Cursor.length_skipWhile_le (fun x => x == ' ' || (x == '\t' && (flow || !keyAllowed))) c
  have h₂ := Cursor.length_skipComment_le
    (c.skipWhile fun x => x == ' ' || (x == '\t' && (flow || !keyAllowed)))
  simp only [d] at h
  omega

/-- A mark at the front of a line that stands outside of all mappings. -/
def readLineMark? (t : Token) (c : Cursor) (s : Tokenizer) : Option Tokenizer := do
  let s ← (s.endMapping none).dropKey?
  some ((s.moved c false).emit t)

def readKeyMark? (s : Tokenizer) : Option Tokenizer := do
  if !s.flow && !s.keyAllowed then none
  let s ← (← s.dropKey?).beginMapping? s.cursor.column
  some ((s.moved s.cursor.next (!s.flow)).emit .key)

/-- The mark of a value; what was read since the place of a key is the key. -/
def readValueMark? (s : Tokenizer) : Option Tokenizer :=
  match s.keyPlace with
  | some k => do
    let s ← { s with keyPlace := none }.beginMapping? k.column
    let s := { s with tokens := k.tokens ++ Token.key :: s.tokens }
    some ((s.moved s.cursor.next false).emit .value)
  | none => do
    if !s.flow && !s.keyAllowed then none
    let s ← s.beginMapping? s.cursor.column
    some ((s.moved s.cursor.next (!s.flow)).emit .value)

/-- A brace that opens a mapping, which may stand only outside of all others. -/
def readOpenBrace? (s : Tokenizer) : Option Tokenizer := do
  if s.flow || s.indent.isSome then none
  let s ← s.dropKey?
  some { (s.moved s.cursor.next true).emit .openBrace with flow := true }

def readCloseBrace? (s : Tokenizer) : Option Tokenizer := do
  if !s.flow then none
  let s ← s.dropKey?
  some { (s.moved s.cursor.next false).emit .closeBrace with flow := false }

/-- A comma between the entries of a mapping in braces. -/
def readComma? (s : Tokenizer) : Option Tokenizer := do
  if !s.flow then none
  let s ← s.dropKey?
  some ((s.moved s.cursor.next true).emit .comma)

/-- An anchor, an alias or a tag, any of which may begin a key; `rest` stands behind it. -/
def readProperty? (t : Token) (rest : List Char) (s : Tokenizer) : Option Tokenizer := do
  let s ← s.placeKey?
  some ((s.moved (s.cursor.moveTo rest) false).emit t)

def readBlock? (style : Style) (s : Tokenizer) : Option Tokenizer := do
  let s ← s.dropKey?
  let (text, c) ← Yaml.readBlock? (style == .folded) s.indent s.cursor.next
  some ((s.moved c true).emit (.scalar text style))

def readQuoted? (style : Style) (s : Tokenizer) : Option Tokenizer := do
  let s ← s.placeKey?
  let (text, c) ← Yaml.readQuoted? (style == .doubleQuoted) s.cursor.next
  some ((s.moved c false).emit (.scalar text style))

/-- A plain scalar; a key may begin behind the line breaks that follow it. -/
def readPlain? (s : Tokenizer) : Option Tokenizer := do
  let s ← s.placeKey?
  let least := match s.indent with
    | some n => n + 1
    | none => 0
  let (text, crossed, c) ← Yaml.readPlain? s.flow least s.cursor
  some ((s.moved c crossed).emit (.scalar text .plain))

/-- True when a plain scalar may begin with `c`, where `cs` follows. -/
def beginsPlain (flow : Bool) (c : Char) (cs : List Char) : Bool :=
  if c == '-' then !cs.head?.any isSpace
  else if c == '?' || c == ':' then !flow && !endsWord cs
  else !isGap c && !",[]\x7b\x7d#&*!|>'\"%@\x60".toList.contains c

/-- Reads the token at the cursor, which begins with `c` before `cs`. -/
def readToken? (c : Char) (cs : List Char) (s : Tokenizer) : Option Tokenizer :=
  if s.cursor.column == 0 && c == '%' then do
    let (d, behind) ← readDirective? s.cursor.next
    s.readLineMark? (.directive d) behind
  else if s.cursor.atMark "---" then
    s.readLineMark? .documentStart (s.cursor.moveTo (s.cursor.rest.drop 3))
  else if s.cursor.atMark "..." then
    s.readLineMark? .documentEnd (s.cursor.moveTo (s.cursor.rest.drop 3))
  else if c == '\x7b' then s.readOpenBrace?
  else if c == '\x7d' then s.readCloseBrace?
  else if c == ',' then s.readComma?
  else if c == '-' && endsWord cs then none
  else if c == '?' && (s.flow || endsWord cs) then s.readKeyMark?
  else if c == ':' && (s.flow || endsWord cs) then s.readValueMark?
  else if c == '*' then do
    let (name, rest) ← readName? cs
    s.readProperty? (.alias name) rest
  else if c == '&' then do
    let (name, rest) ← readName? cs
    s.readProperty? (.anchor name) rest
  else if c == '!' then do
    let (name, rest) ← readTag? s.flow cs
    s.readProperty? (.tag name) rest
  else if c == '|' && !s.flow then s.readBlock? .literal
  else if c == '>' && !s.flow then s.readBlock? .folded
  else if c == '\'' then s.readQuoted? .singleQuoted
  else if c == '"' then s.readQuoted? .doubleQuoted
  else if beginsPlain s.flow c cs then s.readPlain?
  else none

/-- Reads all tokens. The fuel bounds their number. -/
def readAll? : Nat → Tokenizer → Option (List Token)
  | 0, _ => none
  | fuel + 1, s => do
    let (keyAllowed, c) := skipGaps s.flow s.keyAllowed s.cursor
    let s ← (s.moved c keyAllowed).dropFarKey?
    let s := s.endMapping (some c.column)
    match c.rest with
    | [] => (s.endMapping none).dropKey?.map fun s => s.tokens.reverse
    | x :: xs => readAll? fuel (← s.readToken? x xs)

end Tokenizer

/-- The tokens of a text. Every token but the last has a character of its own. -/
def Token.ofText? (text : String) : Option (List Token) :=
  let cs := text.toList
  if cs.all isAllowed then (Tokenizer.start cs).readAll? (cs.length + 1) else none

end Hydroseries.Yaml
