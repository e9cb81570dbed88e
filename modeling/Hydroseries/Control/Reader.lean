import Hydroseries.Control.Block

/-!
# Reading on behind refused lines

The reader of blocks as steps that change its state. A step makes its changes one after the other, and
a fault ends it with the changes made so far. Lines are fed one by one, and behind a line that is
refused the next one is fed to the state that was left.
-/

namespace Hydroseries.Control

/-- Steps of the block reader; a fault keeps the changes made before it. -/
abbrev Reader := ExceptT Fault (StateM Open)

namespace Reader

/-- Adds a line to the open block. -/
def addLine (line : Line) : Reader Unit :=
  modify (Option.map fun block => { block with lines := block.lines ++ [line] })

/-- Hands the open block out. -/
def takeBlock : Reader (Option Block) := modifyGet fun state => (state, none)

/-- Takes one raw line, the `n`-th. The result is a finished block, if the line closes one. -/
def feed (n : Nat) (raw : List Char) : Reader (Option Block) := do
  match Line.ofChars? raw with
  | none => pure none
  | some line =>
    let state ← get
    if line.keyword = "start" then
      match state, line.values with
      | some block, _ => throw (.malformed n (.startInside block.title block.startLine))
      | none, [] => throw (.malformed n .startWithoutName)
      | none, name :: _ =>
        set (some (Block.mk (Text.lower name) n [line]))
        pure none
    else if line.keyword = "end" then
      match state with
      | none => throw (.malformed n .endOutside)
      | some block =>
        let name := line.values.head?.getD ""
        if Text.lower name ≠ block.command then
          throw (.malformed n (.endMismatch name block.title))
        addLine line
        takeBlock
    else
      match state with
      -- Lines between blocks are ignored.
      | none => pure none
      | some _ =>
        if line.values.isEmpty then
          throw (.malformed n (.keywordWithoutValue (Text.upper line.keyword)))
        addLine line
        pure none

/-- Takes numbered lines one after the other, whether or not lines before were refused. There is one
result for each line. -/
def feedAll (lines : List (Nat × List Char)) : StateM Open (List (Outcome (Option Block))) :=
  lines.mapM fun (n, raw) => (feed n raw).run

end Reader

end Hydroseries.Control
