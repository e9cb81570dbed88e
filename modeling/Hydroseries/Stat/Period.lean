import Hydroseries.OrderedMap
import Hydroseries.Series.Basic
import Hydroseries.Stat.Summary

/-!
# Statistics by period

The values of a series are grouped by the month or the year they fall into; a year may end in any
month. Months can also be pooled over all years.
-/

namespace Hydroseries

inductive Period where
  /-- The months of the record. -/
  | months
  /-- The months of the year, pooled over all years. -/
  | pooledMonths
  /-- Years that end with a month. -/
  | years (endMonth : Nat)
  deriving DecidableEq, Repr

/-- The moment of a period at which its value is put. -/
inductive PeriodStamp where
  | start
  /-- Put at the end like `finish`. -/
  | middle
  | finish
  deriving DecidableEq, Repr

/-- A period, by the year and the month that it ends in. -/
abbrev PeriodKey := Int × Nat

namespace PeriodKey

def before (a b : PeriodKey) : Bool := decide (a.1 < b.1) || (a.1 == b.1 && decide (a.2 < b.2))

end PeriodKey

namespace Period

/-- The year under which pooled months are filed. -/
def pooledYear : Int := 1900

def key (p : Period) (d : Date) : PeriodKey :=
  let c := d.civil
  match p with
  | months => (c.year, c.month)
  | pooledMonths => (pooledYear, c.month)
  | years endMonth => if c.month ≤ endMonth then (c.year, endMonth) else (c.year + 1, endMonth)

def nextKey (p : Period) (k : PeriodKey) : PeriodKey :=
  match p with
  | years _ => (k.1 + 1, k.2)
  | months | pooledMonths => Calendar.nextMonth k.1 k.2

/-- The midnight that begins the first day of a month. -/
def monthStart? (year : Int) (month : Nat) : Option Timestamp :=
  (Date.ofYmd? year month 1).map fun d => .ofDate d 0

/-- The midnight that begins the last day of a month. -/
def monthEnd? (year : Int) (month : Nat) : Option Timestamp :=
  (Calendar.lastDayOfMonth? year month).map fun d => .ofDate d 0

/-- The moment at which the value of a period is put. Pooled months are put at their ends. -/
def stamp? (p : Period) (k : PeriodKey) (at_ : PeriodStamp) : Option Timestamp :=
  match p, at_ with
  | months, .start => monthStart? k.1 k.2
  | years 12, .start => monthStart? k.1 1
  | years endMonth, .start => monthStart? (k.1 - 1) (endMonth + 1)
  | _, _ => monthEnd? k.1 k.2

/-- Adds a value to the group of its period. -/
def addTo {α : Type} (groups : OrderedMap PeriodKey (List α)) (k : PeriodKey) (v : α) :
    OrderedMap PeriodKey (List α) :=
  groups.insert k ((groups.find? k).getD [] ++ [v])

/-- The values of each period, in the order of the periods. -/
def groups {α : Type} (p : Period) (points : List (Timestamp × α)) : List (PeriodKey × List α) :=
  let grouped := points.foldl (fun m q => addTo m (p.key q.1.date) q.2) .empty
  grouped.entries.mergeSort fun a b => !PeriodKey.before b.1 a.1

/-- The periods from `k` to `last`. The fuel bounds their number. -/
def keysFrom (p : Period) (last : PeriodKey) : Nat → PeriodKey → List PeriodKey
  | 0, k => [k]
  | fuel + 1, k => if PeriodKey.before k last then k :: keysFrom p last fuel (p.nextKey k) else [k]

/-- The periods that get a value: all from the first group to the last, or the pooled months that
have a group. -/
def keys {α : Type} (p : Period) (found : List (PeriodKey × List α)) : List PeriodKey :=
  match p, found.head?, found.getLast? with
  | pooledMonths, _, _ => found.map Prod.fst
  | _, some first, some last =>
    p.keysFrom last.1 ((last.1.1 - first.1.1 + 1).toNat * 12) first.1
  | _, _, _ => []

/-- A statistic of the values of each period. Periods without enough values have none. -/
def statistics {α : Type} [Transcendental α] (p : Period) (at_ : PeriodStamp) (s : Statistic)
    (points : List (Timestamp × α)) : Outcome (List (Timestamp × Option α)) :=
  let found := p.groups points
  (p.keys found).mapM fun k =>
    match p.stamp? k at_ with
    | some t => .ok (t, (found.lookup k).bind s.value?)
    | none =>
      .error (.refused ("period " ++ toString k.1 ++ "-" ++ Text.padZero 2 (toString k.2) ++
        " is out of range"))

end Period

end Hydroseries
