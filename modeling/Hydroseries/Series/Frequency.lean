import Hydroseries.Arith
import Hydroseries.Fault
import Hydroseries.Time.Timestamp

/-!
# Sampling frequencies

The frequency of a series is inferred from its timestamps: a fixed step of which every gap is a
multiple, or one of the grids of month ends, month starts and days of a year. Steps of four weeks and
more are not taken for fixed ones.
-/

namespace Hydroseries

/-- How the timestamps of a series follow each other. -/
inductive Frequency where
  /-- A fixed step in seconds. -/
  | fixed (step : Int)
  /-- The last day of every month. -/
  | monthEnd
  /-- The first day of every month. -/
  | monthStart
  /-- The last day of one month of every year. -/
  | yearEnd (month : Nat)
  /-- The first day of one month of every year. -/
  | yearStart (month : Nat)
  | irregular
  deriving DecidableEq, Repr

namespace Frequency

/-- The day of the calendar at the time of day of `t`. -/
def atTimeOf (t : Timestamp) (d : Date) : Timestamp := .ofDate d t.sinceMidnight

/-- The timestamp after `t` on the grid; none where the grid or the calendar ends. -/
def next? (f : Frequency) (t : Timestamp) : Option Timestamp :=
  let c := t.date.civil
  let (y, m) := Calendar.nextMonth c.year c.month
  match f with
  | fixed step => t.plus? (step * Timestamp.secondNanos)
  | monthEnd => (Calendar.lastDayOfMonth? y m).map (atTimeOf t)
  | monthStart => (Date.ofYmd? y m 1).map (atTimeOf t)
  | yearEnd month => (Calendar.lastDayOfMonth? (c.year + 1) month).map (atTimeOf t)
  | yearStart month => (Date.ofYmd? (c.year + 1) month 1).map (atTimeOf t)
  | irregular => none

/-- The timestamp after `t`; a fixed step that leaves the calendar is a fault. -/
def next (f : Frequency) (t : Timestamp) : Outcome (Option Timestamp) :=
  match f, f.next? t with
  | fixed _, none => .error .outOfRange
  | _, following => .ok following

/-- True when `t` lies on the grid, its time of day apart. -/
def isAnchor (f : Frequency) (t : Timestamp) : Bool :=
  let c := t.date.civil
  let isLast := Calendar.lastDayOfMonth? c.year c.month = some t.date
  match f with
  | monthEnd => isLast
  | monthStart => c.day == 1
  | yearEnd month => c.month == month && isLast
  | yearStart month => c.month == month && c.day == 1
  | fixed _ | irregular => true

def stepsOf : List Timestamp → List Int
  | s :: t :: rest => t.secondsSince s :: stepsOf (t :: rest)
  | _ => []

/-- True when each timestamp is followed by the next one of the grid. -/
def follows (f : Frequency) : List Timestamp → Bool
  | s :: t :: rest => f.next? s == some t && follows f (t :: rest)
  | _ => true

/-- The shortest step from which on a step is not taken for a fixed one. -/
def monthLike : Int := 28 * 86400

/-- The fixed step that the timestamps have, if any. -/
def fixedStep? (index : List Timestamp) : Option Int :=
  match stepsOf index with
  | [] => none
  | step :: rest =>
    let smallest := rest.foldl min step
    if 0 < smallest ∧ smallest < monthLike ∧ (step :: rest).all fun s => s % smallest == 0 then
      some smallest
    else none

def infer (index : List Timestamp) : Frequency :=
  match index with
  | first :: _ :: _ =>
    match fixedStep? index with
    | some step => fixed step
    -- The time of day of the first moment holds for the whole grid.
    | none =>
      let month := first.date.month
      ([monthEnd, monthStart, yearEnd month, yearStart month].find? fun f =>
        f.isAnchor first && f.follows index).getD irregular
  | _ => irregular

def monthCodes : List String :=
  ["JAN", "FEB", "MAR", "APR", "MAY", "JUN", "JUL", "AUG", "SEP", "OCT", "NOV", "DEC"]

def monthCode (month : Nat) : String := (monthCodes[month - 1]?).getD "DEC"

/-- A count of the largest unit that divides the step; a count of one is left out. -/
def stepCode (step : Int) : String :=
  let (n, unit) :=
    if step.tmod 86400 = 0 then (step.tdiv 86400, "D")
    else if step.tmod 3600 = 0 then (step.tdiv 3600, "H")
    else if step.tmod 60 = 0 then (step.tdiv 60, "T")
    else (step, "S")
  if n = 1 then unit else toString n ++ unit

/-- The code of a frequency, under which the store files series. -/
def code : Frequency → String
  | fixed step => stepCode step
  | monthEnd => "M"
  | monthStart => "MS"
  | yearEnd month => "A-" ++ monthCode month
  | yearStart month => "AS-" ++ monthCode month
  | irregular => "IRREG"

def isDaily (f : Frequency) : Bool := f == fixed 86400

/-- Samples a day; a month counts as 30.5 days and a year as 365.25. -/
def samplesPerDay? : Frequency → Option Double
  | fixed step => some (86400.0 / Double.ofInt step)
  | monthEnd | monthStart => some (1.0 / 30.5)
  | yearEnd _ | yearStart _ => some (1.0 / 365.25)
  | irregular => none

/-! ### Grids -/

/-- Collects the grid from `t` up to `last`, in reverse before `acc`. -/
def gridGo (f : Frequency) (last : Timestamp) : Nat → Timestamp → List Timestamp →
    Outcome (List Timestamp)
  | 0, _, acc => .ok acc.reverse
  | fuel + 1, t, acc =>
    if last < t then .ok acc.reverse
    else
      match f.next t with
      | .error fault => .error fault
      -- The calendar ends before the stretch does.
      | .ok none => .ok (t :: acc).reverse
      | .ok (some following) => gridGo f last fuel following (t :: acc)

/-- A bound on the number of grid points of a stretch: fixed steps are at least as long as they are,
the others at least a day. -/
def gridBound (f : Frequency) (first last : Timestamp) : Nat :=
  let step := match f with
    | fixed step => step * Timestamp.secondNanos
    | _ => Timestamp.dayNanos
  (last.since first / step).toNat + 2

/-- The grid points from `first` up to `last`. -/
def grid (f : Frequency) (first last : Timestamp) : Outcome (List Timestamp) :=
  gridGo f last (gridBound f first last) first []

end Frequency

end Hydroseries
