import Hydroseries.Series.Frequency
import Hydroseries.Time.Window

/-!
# Time series

A series is a list of points in time order; the value of a point may be missing. The constructors
refuse timestamps that do not increase, and every operation here keeps their order.
-/

namespace Hydroseries

/-- Points in time, with values that may be missing. -/
structure TimeSeries (α : Type) where
  points : List (Timestamp × Option α)
  deriving Repr

/-- Series of floats. -/
abbrev Series := TimeSeries Double

def Increasing (index : List Timestamp) : Prop := index.Pairwise (· < ·)

namespace TimeSeries

variable {α : Type}

def empty : TimeSeries α := ⟨[]⟩

instance : Inhabited (TimeSeries α) := ⟨empty⟩

/-! ### Making -/

/-- The first neighbours that do not increase. -/
def firstDisorder? : List Timestamp → Option (Timestamp × Timestamp)
  | s :: t :: rest => if t ≤ s then some (s, t) else firstDisorder? (t :: rest)
  | _ => none

/-- A series with the given points, which must increase in time. -/
def ofOrdered (points : List (Timestamp × Option α)) : Outcome (TimeSeries α) :=
  match firstDisorder? (points.map Prod.fst) with
  | some (s, t) =>
    .error (.refused ("series timestamps must be unique and increasing (" ++ s.text ++ " then " ++
      t.text ++ ")"))
  | none => .ok ⟨points⟩

/-- A series with points in any order, of which no two may be simultaneous. -/
def ofPoints (points : List (Timestamp × Option α)) : Outcome (TimeSeries α) :=
  ofOrdered (points.mergeSort fun p q => decide (p.1 ≤ q.1))

/-- A series with values at every point, in any order. -/
def ofValues (points : List (Timestamp × α)) : Outcome (TimeSeries α) :=
  ofPoints (points.map fun p => (p.1, some p.2))

/-! ### Parts -/

variable (s : TimeSeries α)

def index : List Timestamp := s.points.map Prod.fst

/-- The values, missing ones included. -/
def values : List (Option α) := s.points.map Prod.snd

def length : Nat := s.points.length

def isEmpty : Bool := s.points.isEmpty

def valid : List (Timestamp × α) := s.points.filterMap fun p => p.2.map fun v => (p.1, v)

def validValues : List α := s.points.filterMap Prod.snd

def validCount : Nat := s.validValues.length

def firstValid? : Option Timestamp := s.valid.head?.map Prod.fst

def lastValid? : Option Timestamp := s.valid.getLast?.map Prod.fst

def frequency : Frequency := Frequency.infer s.index

/-- The value at a moment, if there is one. -/
def valueAt? (t : Timestamp) : Option α := (s.points.find? fun p => decide (p.1 = t)).bind Prod.snd

/-! ### Changes -/

/-- The points whose time satisfies `keep`. -/
def filterTime (keep : Timestamp → Bool) : TimeSeries α := ⟨s.points.filter fun p => keep p.1⟩

def within (w : Window) : TimeSeries α := s.filterTime w.contains

/-- The points from `first` to `last`, both included. -/
def between (first last : Timestamp) : TimeSeries α :=
  s.filterTime fun t => decide (first ≤ t) && decide (t ≤ last)

/-- The points from the first value to the last. -/
def trimmed : TimeSeries α :=
  match s.firstValid?, s.lastValid? with
  | some first, some last => s.between first last
  | _, _ => empty

def withoutGaps : TimeSeries α := ⟨s.valid.map fun p => (p.1, some p.2)⟩

/-- Applies `f` to every value that is there. -/
def mapValues {β : Type} (f : α → β) : TimeSeries β := ⟨s.points.map fun p => (p.1, p.2.map f)⟩

def withValues {β : Type} (values : List (Option β)) : Outcome (TimeSeries β) :=
  if values.length = s.length then ofOrdered (s.index.zip values)
  else
    .error (.refused ("series index has " ++ toString s.length ++ " entries but " ++
      toString values.length ++ " values"))

/-- Looks up increasing moments among increasing points; the values go in reverse before `acc`. -/
def alignGo (acc : List (Option α)) :
    List (Timestamp × Option α) → List Timestamp → List (Option α)
  | _, [] => acc.reverse
  | [], _ :: ts => alignGo (none :: acc) [] ts
  | p :: ps, t :: ts =>
    if p.1 < t then alignGo acc ps (t :: ts)
    else if p.1 = t then alignGo (p.2 :: acc) ps ts
    else alignGo (none :: acc) (p :: ps) ts
termination_by points ts => points.length + ts.length

/-- The values of increasing points at increasing moments. -/
def align (points : List (Timestamp × Option α)) (index : List Timestamp) : List (Option α) :=
  alignGo [] points index

/-- Adds points without value so that the whole grid from the first to the last point is there. An
irregular series has no grid. -/
def regularized (f : Frequency) : Outcome (TimeSeries α) :=
  match s.points.head?, s.points.getLast? with
  | some first, some last =>
    if f = .irregular then .ok s
    else do
      let grid ← f.grid first.1 last.1
      pure ⟨grid.zip (align s.points grid)⟩
  | _, _ => .ok s

end TimeSeries

end Hydroseries
