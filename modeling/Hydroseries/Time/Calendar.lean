/-!
# Calendar days

Days of the proleptic Gregorian calendar, counted from 1970-01-01. The calendar covers the years
from -262143 to 262142; a day outside has no date.
-/

namespace Hydroseries

/-- A calendar day, as the number of days since 1970-01-01. -/
structure Date where
  day : Int
  deriving DecidableEq, Repr, Inhabited

/-- A day by year, month and day of the month. -/
structure Civil where
  year : Int
  month : Nat
  day : Nat
  deriving DecidableEq, Repr

namespace Calendar

def firstYear : Int := -262143

def lastYear : Int := 262142

/-- Years divisible by four, centuries only when divisible by four hundred. -/
def isLeap (year : Int) : Bool := year % 4 == 0 && (year % 100 != 0 || year % 400 == 0)

/-- Days before the first of January of `year`, counted from 0000-01-01. -/
def daysBeforeYear (year : Int) : Int :=
  let y := year - 1
  365 * year + y.fdiv 4 - y.fdiv 100 + y.fdiv 400 + 1

/-- Days of a month that is a month. -/
def daysInMonth (year : Int) (month : Nat) : Nat :=
  match month with
  | 2 => if isLeap year then 29 else 28
  | 4 | 6 | 9 | 11 => 30
  | _ => 31

def daysInYear (year : Int) : Nat := if isLeap year then 366 else 365

/-- Days of the year before the first of `month`. -/
def daysBeforeMonth (year : Int) : Nat → Nat
  | 0 => 0
  | 1 => 0
  | m + 2 => daysBeforeMonth year (m + 1) + daysInMonth year (m + 1)

/-- Days from 0000-01-01 to 1970-01-01. -/
def epoch : Int := 719528

/-- The month and the day of the month of the `ordinal`-th day of a year, counted from zero. -/
def monthOf (year : Int) (ordinal : Nat) : Nat × Nat :=
  match (List.range 12).reverse.find? fun m => daysBeforeMonth year (m + 1) ≤ ordinal with
  | some m => (m + 1, ordinal - daysBeforeMonth year (m + 1) + 1)
  | none => (1, ordinal + 1)

/-- The year of a day counted from 0000-01-01. The estimate from the mean length of a year misses by
at most one. -/
def yearOf (days : Int) : Int :=
  let guess := (400 * days).fdiv 146097
  if days < daysBeforeYear guess then guess - 1
  else if days ≥ daysBeforeYear (guess + 1) then guess + 1
  else guess

end Calendar

open Calendar

namespace Date

/-- The day number of a year, month and day that name a day. -/
def ofCivil (c : Civil) : Date :=
  ⟨daysBeforeYear c.year + daysBeforeMonth c.year c.month + (c.day : Int) - 1 - epoch⟩

/-- A day of the calendar by year, month and day of the month. -/
def ofYmd? (year : Int) (month day : Nat) : Option Date :=
  if firstYear ≤ year ∧ year ≤ lastYear ∧ 1 ≤ month ∧ month ≤ 12 ∧ 1 ≤ day ∧
      day ≤ daysInMonth year month then
    some (ofCivil ⟨year, month, day⟩)
  else none

/-- A day of the calendar by year and day of the year, counted from one. -/
def ofOrdinal? (year : Int) (ordinal : Nat) : Option Date :=
  if firstYear ≤ year ∧ year ≤ lastYear ∧ 1 ≤ ordinal ∧ ordinal ≤ daysInYear year then
    some ⟨daysBeforeYear year + (ordinal : Int) - 1 - epoch⟩
  else none

/-- Year, month and day of the month. -/
def civil (d : Date) : Civil :=
  let days := d.day + epoch
  let year := yearOf days
  let (month, day) := monthOf year (days - daysBeforeYear year).toNat
  ⟨year, month, day⟩

def year (d : Date) : Int := yearOf (d.day + epoch)

/-- The month, from 1 to 12. -/
def month (d : Date) : Nat := d.civil.month

/-- The day of the month, from 1. -/
def dayOfMonth (d : Date) : Nat := d.civil.day

/-- The day of the year, from 1. -/
def ordinal (d : Date) : Nat := (d.day + epoch - daysBeforeYear d.year).toNat + 1

def first : Date := ofCivil ⟨firstYear, 1, 1⟩

def last : Date := ofCivil ⟨lastYear, 12, 31⟩

/-- True when the day belongs to the calendar. -/
def inCalendar (d : Date) : Bool := first.day ≤ d.day && d.day ≤ last.day

/-- The day `n` days later, if the calendar has it. -/
def plus? (d : Date) (n : Int) : Option Date :=
  let later : Date := ⟨d.day + n⟩
  if later.inCalendar then some later else none

/-- The day of the week, Monday being 0. -/
def weekday (d : Date) : Nat := ((d.day + 3) % 7).toNat

/-- The Monday or Sunday based week number of the year: the days before the first such weekday are in
week 0. `start` is the weekday that opens a week. -/
def weekFrom (d : Date) (start : Nat) : Nat := (d.ordinal - 1 + 7 - (d.weekday + 7 - start) % 7) / 7

/-- The year and the number of the week by the rule that a week belongs to the year of its
Thursday. -/
def isoWeek (d : Date) : Int × Nat :=
  let thursday : Date := ⟨d.day + 3 - d.weekday⟩
  (thursday.year, (thursday.ordinal - 1) / 7 + 1)

/-- A day by the year and number of its week and its weekday. -/
def ofIsoWeek? (year : Int) (week weekday : Nat) : Option Date :=
  let fourth := ofCivil ⟨year, 1, 4⟩
  let d : Date := ⟨fourth.day - fourth.weekday + 7 * ((week : Int) - 1) + weekday⟩
  if 1 ≤ week ∧ d.isoWeek = (year, week) ∧ d.inCalendar then some d else none

end Date

namespace Calendar

def nextMonth (year : Int) (month : Nat) : Int × Nat :=
  if month = 12 then (year + 1, 1) else (year, month + 1)

/-- The last day of a month, found as the day before the first of the next month; month 0 is taken
for the December before. -/
def lastDayOfMonth? (year : Int) (month : Nat) : Option Date :=
  let (y, m) := nextMonth year month
  (Date.ofYmd? y m 1).bind (·.plus? (-1))

end Calendar

end Hydroseries
