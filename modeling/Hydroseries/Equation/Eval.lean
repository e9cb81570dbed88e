import Hydroseries.Equation.Parser
import Hydroseries.Store.Basic

/-!
# Evaluating equations

An operand is a single number, a series or the column of a table. Operations between two series are
taken moment by moment over all moments of both; a value that is missing on one side is missing in the
result, and so is one that is not finite. Columns are combined row by row.
-/

namespace Hydroseries.Equation

inductive Operand where
  | scalar (value : Double)
  | series (s : Series)
  | column (values : List Double)
  deriving Repr

namespace Operand

def kindWord : Operand → String
  | scalar _ => "scalar"
  | series _ => "series"
  | column _ => "table column"

end Operand

/-- A value, missing if it is not finite. -/
def finite? (x : Double) : Option Double := if x.isFinite then some x else none

namespace Operand

def map (f : Double → Double) : Operand → Operand
  | scalar v => scalar (f v)
  | series s => series ⟨s.points.map fun p => (p.1, p.2.bind fun v => finite? (f v))⟩
  | column vs => column (vs.map f)

/-- Combines two series at all moments of both. -/
def combineSeries (f : Double → Double → Double) (s t : Series) : Series :=
  let index := Frame.union s.index t.index
  let values := (TimeSeries.align s.points index).zipWith (fun a b => match a, b with
    | some x, some y => finite? (f x y)
    | _, _ => none) (TimeSeries.align t.points index)
  ⟨index.zip values⟩

def combine (op : BinaryOp) : Operand → Operand → Outcome Operand
  | scalar a, scalar b => .ok (scalar (op.apply a b))
  | scalar a, other => .ok (other.map fun b => op.apply a b)
  | other, scalar b => .ok (other.map fun a => op.apply a b)
  | series s, series t => .ok (series (combineSeries op.apply s t))
  | column xs, column ys =>
    if xs.length = ys.length then .ok (column (xs.zipWith op.apply ys))
    else
      .error (.equation ("table columns have different lengths (" ++ toString xs.length ++ " and " ++
        toString ys.length ++ ")"))
  | l, r => .error (.equation ("cannot combine a " ++ l.kindWord ++ " with a " ++ r.kindWord))

end Operand

/-- Where names get their values. -/
abbrev Scope := String → Outcome Operand

/-- The scope of a store: series first, then the tables. -/
def Scope.ofStore (st : Store) : Scope := fun name =>
  let key := EntityName.ofSpelling name
  if st.series.contains key then (st.getSeries key).map .series
  else
    let columns :=
      [(st.cTables.find? key).map fun t => t.stats.values,
       (st.sTables.find? key).map fun t => t.stats.values,
       (st.vTables.find? key).map fun t => t.rows.map VolumeRow.volume,
       (st.eTables.find? key).map fun t => t.rows.map ExceedanceRow.duration,
       (st.gTables.find? key).map fun t => t.rows.map Prod.snd]
    match columns.findSome? id with
    | some values => .ok (.column values)
    | none => .error (.equation ("'" ++ name ++ "' is not a named entity"))

/-- A scope of fixed bindings; the case of names does not matter, and the last binding counts. -/
def Scope.ofBindings (bindings : List (String × Operand)) : Scope := fun name =>
  match (bindings.reverse.find? fun b => Text.upper b.1 = Text.upper name) with
  | some b => .ok b.2
  | none => .error (.equation ("'" ++ name ++ "' is not defined"))

structure Env where
  /-- Operands by name in capitals. -/
  operands : OrderedMap String Operand
  /-- The first series named, on whose moments the dates are taken. -/
  reference : Option Series
  absValue : Option Double

namespace Env

/-- Looks up each name once, in order. -/
def ofNames (scope : Scope) (absValue : Option Double) (names : List String) : Outcome Env :=
  names.foldlM (fun env n => do
    let key := Text.upper n
    if env.operands.contains key then pure env
    else
      let operand ← scope n
      -- The first series among the names gives the moments of dates.
      let reference := match env.reference, operand with
        | none, .series s => some s
        | r, _ => r
      pure { env with operands := env.operands.insert key operand, reference })
    (⟨.empty, none, absValue⟩ : Env)

def noReference : Fault := .equation "date specials need at least one series in the equation"

/-- A value for each moment of the reference series. -/
def dates (env : Env) (f : Timestamp → Double) : Outcome Operand :=
  match env.reference with
  | some s => .ok (.series ⟨s.index.map fun t => (t, some (f t))⟩)
  | none => .error noReference

end Env

/-- The value of an expression in an environment. -/
def Expr.eval (env : Env) : Expr → Outcome Operand
  | number v => .ok (.scalar v)
  | name n =>
    match env.operands.find? (Text.upper n) with
    | some operand => .ok operand
    | none => .error (.equation ("'" ++ n ++ "' is not defined"))
  | absValue =>
    match env.absValue with
    | some v => .ok (.scalar v)
    | none => .error (.equation "@_abs_value is only valid in weight equations")
  | dayOfYear => env.dates fun t => Double.ofNat t.date.ordinal
  | daysSince origin => env.dates fun t => Double.ofInt (origin.secondsUntil t) / 86400.0
  | neg e => (e.eval env).map (Operand.map (- ·))
  | call f e => (e.eval env).map (Operand.map f.apply)
  | binary op l r => do
    let a ← l.eval env
    let b ← r.eval env
    Operand.combine op a b

/-- The value of an expression in a scope. -/
def evaluate (scope : Scope) (absValue : Option Double) (e : Expr) : Outcome Operand := do
  -- All names are looked up before anything is computed.
  let env ← Env.ofNames scope absValue e.names
  if e.usesDates && env.reference.isNone then throw Env.noReference
  e.eval env

/-- Reads an equation and evaluates it over a store. -/
def evaluateText (st : Store) (source : String) : Outcome Operand := do
  evaluate (.ofStore st) none (← read source)

end Hydroseries.Equation
