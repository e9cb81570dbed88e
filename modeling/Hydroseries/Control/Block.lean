import Hydroseries.Control.Line
import Hydroseries.Fault

/-!
# Blocks

A control file is a sequence of blocks `START name … END name`. Lines between blocks are ignored; the
lines of a block are a keyword and at least one value. The reader has two states, outside of any block
and inside one, and a line that is refused changes neither.
-/

namespace Hydroseries.Control

/-- A block with its opening and closing lines. The command is in lower case. -/
structure Block where
  command : String
  startLine : Nat
  lines : List Line
  deriving DecidableEq, Repr

/-- Where a block stands: its command in capitals and the line of its `START`. -/
structure Origin where
  command : String
  line : Nat
  deriving DecidableEq, Repr

def Origin.text (o : Origin) : String := o.command ++ " @ line " ++ toString o.line

namespace Block

def title (b : Block) : String := Text.upper b.command

def body (b : Block) : List Line :=
  match b.lines.getLast? with
  | some last => if last.keyword = "end" then b.lines.dropLast else b.lines
  | none => []

def origin (b : Block) : Origin := ⟨b.title, b.startLine⟩

end Block

/-- The state of the block reader: the block that is open, if any. -/
abbrev Open := Option Block

namespace Open

/-- Takes one line with code. The result is a finished block, if the line closes one, and the new
state. -/
def take (state : Open) (n : Nat) (line : Line) : Outcome (Option Block × Open) :=
  match state with
  | none =>
    if line.keyword = "start" then
      match line.values with
      | [] => .error (.malformed n .startWithoutName)
      | name :: _ => .ok (none, some ⟨Text.lower name, n, [line]⟩)
    else if line.keyword = "end" then .error (.malformed n .endOutside)
    -- Lines between blocks are ignored.
    else .ok (none, none)
  | some block =>
    if line.keyword = "start" then
      .error (.malformed n (.startInside block.title block.startLine))
    else if line.keyword = "end" then
      let name := line.values.head?.getD ""
      if Text.lower name = block.command then
        .ok (some { block with lines := block.lines ++ [line] }, none)
      else .error (.malformed n (.endMismatch name block.title))
    else if line.values.isEmpty then
      .error (.malformed n (.keywordWithoutValue (Text.upper line.keyword)))
    else .ok (none, some { block with lines := block.lines ++ [line] })

/-- Takes one raw line, the `n`-th. -/
def feed (state : Open) (n : Nat) (raw : List Char) : Outcome (Option Block × Open) :=
  match Line.ofChars? raw with
  | none => .ok (none, state)
  | some line => state.take n line

/-- At the end of the text no block may be open. -/
def finish : Open → Outcome Unit
  | none => .ok ()
  | some block => .error (.unclosed block.title block.startLine)

end Open

/-- Reads the blocks of `raws`, of which the first is line `n`. -/
def blocksFrom (state : Open) (n : Nat) : List (List Char) → Outcome (List Block)
  | [] => do
    state.finish
    pure []
  | raw :: raws => do
    let (finished, state) ← state.feed n raw
    let blocks ← blocksFrom state (n + 1) raws
    pure (finished.toList ++ blocks)

def blocksOf (source : String) : Outcome (List Block) :=
  blocksFrom none 1 (Text.linesOf source.toList)

end Hydroseries.Control
