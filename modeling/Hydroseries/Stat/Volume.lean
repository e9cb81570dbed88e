import Hydroseries.Series.Interpolate
import Hydroseries.Stat.Unit
import Hydroseries.Store.Tables

/-!
# Volumes

The volume that passes during a period is the integral of the flow. Periods are given, or are the
years, months or days of the calendar that begin during the record.
-/

namespace Hydroseries

inductive CalendarPeriod where
  | year
  | month
  | day
  deriving DecidableEq, Repr

namespace CalendarPeriod

/-- The start of the period that holds a day. -/
def startOf (p : CalendarPeriod) (d : Date) : Date :=
  let c := d.civil
  match p with
  | year => .ofCivil ⟨c.year, 1, 1⟩
  | month => .ofCivil ⟨c.year, c.month, 1⟩
  | day => d

/-- The start of the next period, if the calendar has it. -/
def nextStart? (p : CalendarPeriod) (start : Date) : Option Date :=
  let c := start.civil
  match p with
  | year => Date.ofYmd? (c.year + 1) 1 1
  | month =>
    let (y, m) := Calendar.nextMonth c.year c.month
    Date.ofYmd? y m 1
  | day => start.plus? 1

/-- The first start of a period at or after a moment. -/
def firstStart? (p : CalendarPeriod) (t : Timestamp) : Option Date :=
  let start := p.startOf t.date
  if Timestamp.ofDate start 0 = t then some start else p.nextStart? start

/-- The periods from `start` on that begin up to `last`. The fuel bounds their number. -/
def periodsFrom (p : CalendarPeriod) (last : Timestamp) :
    Nat → Option Date → List (Timestamp × Timestamp)
  | fuel + 1, some start =>
    if Timestamp.ofDate start 0 ≤ last then
      let following := p.nextStart? start
      let here := following.map fun d => (Timestamp.ofDate start 0, (⟨d.day * Timestamp.dayNanos - 1⟩ : Timestamp))
      here.toList ++ periodsFrom p last fuel following
    else []
  | _, _ => []

/-- The periods that begin between two moments, each of which ends a nanosecond before the next
begins. -/
def periods (p : CalendarPeriod) (first last : Timestamp) : List (Timestamp × Timestamp) :=
  p.periodsFrom last ((last.since first / Timestamp.dayNanos).toNat + 2) (p.firstStart? first)

end CalendarPeriod

/-- The volumes of periods, from a flow per unit of time. -/
def volumeRows {α : Type} [Arith α] (flow : TimeSeries α) (unit : TimeUnit) (factor : α)
    (periods : List (Timestamp × Timestamp)) : List (VolumeRow α) :=
  periods.map fun (start, finish) =>
    ⟨start, finish, flow.integrate start finish / unit.seconds * factor⟩

end Hydroseries
