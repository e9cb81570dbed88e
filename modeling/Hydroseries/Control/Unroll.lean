import Hydroseries.Control.Invocation
import Hydroseries.Decimal.Shortest

/-!
# From blocks to invocations

A block whose keyword lines hold several values is run once for each value position; a line with fewer
values repeats its last one. Commands that take several values of a keyword at once are run once:
some of them collect the lines of a repeated keyword, the others keep each line.
-/

namespace Hydroseries.Control

/-- Commands that collect the lines of a repeated keyword into one list. -/
def collecting : List String :=
  ["exceedance_time", "flow_duration", "get_mul_series_gsflow_gage", "get_mul_series_plotgen",
   "get_mul_series_ssf", "get_mul_series_statvar", "hydrologic_indices", "list_output", "plot",
   "write_pest_files"]

/-- Commands whose lines may hold several words that belong together. -/
def wordy : List String := ["hydrologic_indices", "series_equation"]

/-- Commands run once for which several values on a line are no surprise. -/
def severalExpected : List String :=
  ["flow_duration", "hydrologic_indices", "series_equation", "write_pest_files"]

def weightFamilies : List String := ["series", "s_table", "v_table", "e_table", "g_table"]

/-- True for commands that are run once for each value position. -/
def isRollable (command : String) : Bool := !collecting.contains command && !wordy.contains command

/-! ### Weight bounds -/

/-- The keyword of the line that may follow a family's weight equation. -/
def boundsKeyword (family : String) : String := family ++ "_weights_min_max"

def equationKeyword (family : String) : String := family ++ "_weights_equation"

/-- No lower bound but zero, and no upper bound but the largest float. -/
def looseBounds : List String := ["0", "1.7976931348623157e308"]

/-- Checks that `after` is followed by the needed keyword. -/
def requireNext (startLine : Nat) (next : Option Line) (needed after : String) : Outcome Unit :=
  if next.any fun l => l.keyword = needed then .ok ()
  else .error (.malformed startLine (.companionMissing (Text.upper needed) (Text.upper after)))

/-- Checks the companions of each observation line: a model line and a weight equation must follow. A
missing line of bounds is noticed. -/
def boundsNotices (origin : Origin) : List Line → Outcome (List Notice)
  | [] => .ok []
  | line :: rest => do
    let here ← match weightFamilies.find? fun k => line.keyword = "observation_" ++ k ++ "_name" with
      | none => pure []
      | some family => do
        let model := "model_" ++ family ++ "_name"
        requireNext origin.line (rest[0]?) model line.keyword
        requireNext origin.line (rest[1]?) (equationKeyword family) model
        if (rest[2]?).any fun l => l.keyword = boundsKeyword family then pure []
        else pure [Notice.mk .synthesizedMinMax origin
          ("no " ++ Text.upper (boundsKeyword family) ++ " after " ++
            Text.upper (equationKeyword family) ++ "; using " ++ Text.join " " looseBounds)]
    let later ← boundsNotices origin rest
    pure (here ++ later)

/-- Puts loose bounds after each weight equation that bounds do not follow. -/
def insertBounds : List Line → List Line
  | [] => []
  | line :: rest =>
    match weightFamilies.find? fun k => line.keyword = equationKeyword k with
    | none => line :: insertBounds rest
    | some family =>
      let keyword := boundsKeyword family
      if rest.head?.any fun l => l.keyword = keyword then line :: insertBounds rest
      else line :: ⟨keyword, looseBounds⟩ :: insertBounds rest

/-! ### Unrolling -/

def invocationAt (origin : Origin) (lines : List Line) (i : Nat) : Invocation :=
  ⟨origin.command, origin.line,
    lines.filterMap fun l => (l.valueOrLast? i).map fun v => (l.keyword, .scalar v)⟩

/-- Adds a line to the entries: a keyword seen before gets one more text. -/
def collectLine (entries : List (String × Value)) (l : Line) : List (String × Value) :=
  if entries.any fun e => e.1 = l.keyword then
    entries.map fun e => if e.1 = l.keyword then (e.1, .list (e.2.entries ++ [l.joined])) else e
  else entries ++ [(l.keyword, .list [l.joined])]

/-- The value of a line that is kept for itself. -/
def Line.value (l : Line) : Value :=
  match l.values with
  | [single] => .scalar single
  | many => .list many

/-- The invocation of a command that is run once. -/
def singleInvocation (command : String) (origin : Origin) (lines : List Line) : Invocation :=
  ⟨origin.command, origin.line,
    if collecting.contains command then lines.foldl collectLine []
    else lines.map fun l => (l.keyword, l.value)⟩

/-- The largest number of words on a line, and at least two. -/
def widest (lines : List Line) : Nat := (lines.map Line.width).foldl Nat.max 2

/-- The notice for a block that is run once although it holds several values. -/
def keptTogether (origin : Origin) (lines : List Line) : Notice :=
  let several := ((lines.filter fun l => l.width > 2).map fun l => Text.upper l.keyword).eraseDups
  ⟨.notUnrolled, origin,
    "block is not unrolled because it allows duplicate keywords; all values of " ++
      Text.join ", " several ++ " are passed to a single run"⟩

/-- The invocations of a block, with notices. -/
def unroll (b : Block) : Outcome (List Invocation × List Notice) := do
  let origin := b.origin
  let pest := b.command = "write_pest_files"
  let notices ← if pest then boundsNotices origin b.body else pure []
  let body := if pest then insertBounds b.body else b.body
  let width := if b.command = "settings" then 2 else widest body
  let lines := body.drop 1
  if isRollable b.command then
    pure ((List.range (width - 1)).map (invocationAt origin lines), notices)
  else
    let kept :=
      if width > 2 && !severalExpected.contains b.command then [keptTogether origin lines] else []
    pure ([singleInvocation b.command origin lines], notices ++ kept)

end Hydroseries.Control
