import Hydroseries.Control.Unroll

/-!
# Control files

A control file is read in three steps: its lines are grouped into blocks, the order of the blocks is
checked, and each block is unrolled into invocations.
-/

namespace Hydroseries.Control

/-- Checks that each block of parameter files directly follows a report block. `previous` is the
command of the block before. -/
def checkOrderFrom (previous : Option String) : List Block → Outcome Unit
  | [] => .ok ()
  | b :: rest =>
    if b.command = "write_pest_files" && previous != some "list_output" then
      .error (.misplaced b.startLine)
    else checkOrderFrom (some b.command) rest

/-- Checks the order of the blocks of a file. -/
def checkOrder (blocks : List Block) : Outcome Unit := checkOrderFrom none blocks

structure Script where
  blocks : List Block
  invocations : List Invocation
  notices : List Notice
  deriving DecidableEq, Repr

namespace Script

def read (source : String) : Outcome Script := do
  let blocks ← blocksOf source
  checkOrder blocks
  let unrolled ← blocks.mapM unroll
  pure ⟨blocks, unrolled.flatMap Prod.fst, unrolled.flatMap Prod.snd⟩

def settingsContext? (s : Script) : Option String :=
  (s.invocations.find? fun i => i.command = "SETTINGS").bind Invocation.context?

end Script

end Hydroseries.Control
