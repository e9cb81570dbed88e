import Hydroseries.Decimal.Shortest
import Hydroseries.Params

/-!
# The head of the control file

The control file begins with rows of variables in fixed columns: counts of what the file holds, and
settings of the calibration program, each with a preset. A positive threshold of eigenvalues turns on
the section for truncated singular values and changes some presets.
-/

namespace Hydroseries.Pest

/-- What the control file holds, counted. -/
structure Counts where
  parameters : Nat := 0
  observations : Nat := 0
  parameterGroups : Nat := 0
  observationGroups : Nat := 0
  templates : Nat := 0
  /-- Names that equations define. -/
  secondary : Nat := 0
  equations : Nat := 0
  deriving DecidableEq, Repr

/-- A text that depends on the counts. -/
abbrev Filling := Counts → String

namespace Control

/-! ### Items -/

def columnWidth : Nat := 10

/-- An item at the right end of its column. -/
def column (text : String) : Filling := fun _ => Text.padLeft columnWidth text

def count (f : Counts → Nat) : Outcome Filling :=
  .ok fun c => Text.padLeft columnWidth (toString (f c))

variable (p : Params)

/-- One of several words, or the preset. -/
def wordValue (key preset : String) (choices : List String) : Outcome String := do
  pure ((← p.choice? key choices).getD preset)

def word (key preset : String) (choices : List String) : Outcome Filling := do
  pure (column (← wordValue p key preset choices))

def bareWord (key preset : String) (choices : List String) : Outcome Filling := do
  let w ← wordValue p key preset choices
  pure fun _ => w

/-- One of two words, the second of which denies the first. -/
def switch (key : String) (on : Bool) : Outcome Filling :=
  word p key (if on then key else "no" ++ key) [key, "no" ++ key]

/-- A text in its column, blank if not given. -/
def free (key : String) : Outcome Filling := .ok (column ((p.text? key).getD ""))

/-- An integer in its column, by a preset that may depend on the counts. -/
def integerOr (key : String) (preset : Counts → Int) : Outcome Filling := do
  let given ← p.number? Params.asInt64 key
  pure fun c => Text.padLeft columnWidth (toString (given.getD (preset c)))

def integer (key : String) (preset : Int) : Outcome Filling := integerOr p key fun _ => preset

/-- A number, or the preset. -/
def realValue (key : String) (preset : Double) : Outcome Double := do
  pure ((← p.number? Params.asDouble key).getD preset)

/-- A number with six decimals in its column. -/
def real (key : String) (preset : Double) : Outcome Filling := do
  pure (column (Decimal.fixed 6 (← realValue p key preset)))

/-- A number in its shortest form in its column. -/
def plainReal (key : String) (preset : Double) : Outcome Filling := do
  pure (column (Decimal.plain (← realValue p key preset)))

/-- The numbers of secondary parameters and of equations, if there are equations. -/
def equations : Outcome Filling :=
  .ok fun c =>
    if c.equations > 0 then
      "nparsec=" ++ toString c.secondary ++ " nequation=" ++ toString c.equations
    else ""

def absoluteLimits : Outcome Filling :=
  let limits := (p.numbered "absparmax_").filterMap fun (n, v) =>
    v.first?.map fun s => "absparmax(" ++ toString n ++ ")=" ++ s
  .ok fun _ => Text.join " " limits

/-! ### Rows -/

def row (entries : List (Outcome Filling)) : Outcome Filling := do
  let fillings ← entries.mapM id
  pure fun c => Text.trimEnd (Text.join " " (fillings.map fun f => f c))

def controlRows (svd : Bool) : List (Outcome Filling) :=
  [row [bareWord p "rstfle" "restart" ["restart", "norestart"],
     bareWord p "pestmode" "estimation" ["estimation", "pareto", "prediction", "regularization"]],
   row [count Counts.parameters, count Counts.observations, count Counts.parameterGroups,
     count fun _ => 0, count Counts.observationGroups, free p "maxcompdim", free p "derzerolim",
     equations],
   row [count Counts.templates, count fun _ => 1, word p "precis" "single" ["single", "double"],
     word p "dpoint" "point" ["point", "nopoint"], integer p "numcom" 1, integer p "jacfile" 0,
     integer p "messfile" 0, switch p "obsreref" false],
   row [real p "rlambda1" 10.0, real p "rlamfac" (if svd then -3.0 else 2.0), real p "phiratsuf" 0.3,
     real p "phiredlam" 0.03, integer p "numlam" (if svd then 1 else 10), integer p "jacupdate" 999,
     switch p "lamforgive" false, switch p "derforgive" false],
   row [real p "relparmax" 5.0, real p "facparmax" 5.0, real p "facorig" 1.0e-3,
     integer p "iboundstick" 0, integer p "upvecbend" 0, absoluteLimits p],
   row [real p "phiredswh" 0.1, integer p "noptswitch" 1, integer p "splitswh" 0,
     word p "doaui" "aui" ["aui", "auid", "noaui"],
     word p "dosenreuse" "nosenreuse" ["senreuse", "nosenreuse"], switch p "boundscale" true],
   row [integer p "noptmax" 30, real p "phiredstp" 0.005, integer p "nphistp" 4,
     integer p "nphinored" 4, real p "relparstp" 0.005, integer p "nrelpar" 4,
     plainReal p "phistopthresh" 0.0, integer p "lastrun" 1, plainReal p "phiabandon" (-1.0)],
   row [integer p "icov" 1, integer p "icor" 1, integer p "ieig" 1, integer p "ires" 0,
     switch p "jcosave" true, switch p "verboserec" true, switch p "jcosaveitn" false,
     switch p "reisaveitn" true, switch p "parsaveitn" false, switch p "parsaverun" false]]

def svdRows (threshold : Double) : List (Outcome Filling) :=
  let limit : Outcome Filling := .ok fun _ => Text.padLeft 15 (Decimal.fixed 6 threshold)
  [row [integer p "svdmode" 1],
   row [integerOr p "maxsing" fun c => c.parameters, limit],
   row [integer p "eigwrite" 1]]

/-- The rows on the solver of least squares. -/
def lsqrRows : List (Outcome Filling) :=
  [row [integer p "lsqrmode" 1],
   row [plainReal p "lsqr_atol" 1.0e-4, plainReal p "lsqr_btol" 1.0e-4,
     plainReal p "lsqr_conlim" 1000.0, integerOr p "lsqr_itnlim" fun c => 4 * c.parameters],
   row [integer p "lsqrwrite" 0]]

end Control

structure ControlHead where
  /-- Whether singular values are truncated. -/
  svd : Bool
  control : List Filling
  svdRows : List Filling
  lsqrRows : List Filling

namespace ControlHead

def ofParams (p : Params) : Outcome ControlHead := do
  -- These two are checked together before the rest is read.
  let intervention ← Control.wordValue p "doaui" "aui" ["aui", "auid", "noaui"]
  let threshold ← Control.realValue p "eigthresh" 0.0
  let svd := decide (0.0 < threshold)
  if svd && intervention != "noaui" then
    throw (.refused "a positive EIGTHRESH turns on truncated SVD, which needs DOAUI noaui")
  let control ← (Control.controlRows p svd).mapM id
  let svdRows ← (Control.svdRows p threshold).mapM id
  let lsqrRows ← (Control.lsqrRows p).mapM id
  pure ⟨svd, control, svdRows, lsqrRows⟩

def lines (h : ControlHead) (c : Counts) : List String :=
  let fill (rows : List Filling) : List String := rows.map fun r => r c
  ["pcf", "* control data"] ++ fill h.control ++
    (if h.svd then "* singular value decomposition" :: fill h.svdRows else []) ++
    "* lsqr" :: fill h.lsqrRows

def render (h : ControlHead) (c : Counts) : String := Text.join "\n" (h.lines c)

end ControlHead

end Hydroseries.Pest
