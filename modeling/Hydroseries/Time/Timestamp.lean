import Hydroseries.Time.Calendar
import Hydroseries.Text.Blank

/-!
# Timestamps

A timestamp is a point of civil time, without a zone, to the nanosecond. It is held as the number of
nanoseconds since 1970-01-01T00:00:00, so order and distance are those of integers.
-/

namespace Hydroseries

/-- A point of civil time, in nanoseconds since 1970-01-01T00:00:00. -/
structure Timestamp where
  nanos : Int
  deriving DecidableEq, Repr, Inhabited

namespace Timestamp

instance : LT Timestamp := ⟨fun s t => s.nanos < t.nanos⟩

instance : LE Timestamp := ⟨fun s t => s.nanos ≤ t.nanos⟩

instance (s t : Timestamp) : Decidable (s < t) := inferInstanceAs (Decidable (s.nanos < t.nanos))

instance (s t : Timestamp) : Decidable (s ≤ t) := inferInstanceAs (Decidable (s.nanos ≤ t.nanos))

def secondNanos : Int := 1000000000

def daySeconds : Int := 86400

def dayNanos : Int := 86400000000000

def date (t : Timestamp) : Date := ⟨t.nanos.fdiv dayNanos⟩

def sinceMidnight (t : Timestamp) : Int := t.nanos.fmod dayNanos

/-- A day at a time of day given in nanoseconds since midnight. -/
def ofDate (d : Date) (sinceMidnight : Int) : Timestamp := ⟨d.day * dayNanos + sinceMidnight⟩

def hour (t : Timestamp) : Nat := (t.sinceMidnight / secondNanos / 3600).toNat

def minute (t : Timestamp) : Nat := (t.sinceMidnight / secondNanos / 60 % 60).toNat

def second (t : Timestamp) : Nat := (t.sinceMidnight / secondNanos % 60).toNat

def nanosecond (t : Timestamp) : Nat := (t.sinceMidnight % secondNanos).toNat

/-- The timestamp `span` nanoseconds later, if the calendar has it. -/
def plus? (t : Timestamp) (span : Int) : Option Timestamp :=
  let later : Timestamp := ⟨t.nanos + span⟩
  if later.date.inCalendar then some later else none

/-- Nanoseconds from `s` to `t`. -/
def since (t s : Timestamp) : Int := t.nanos - s.nanos

/-- Whole seconds from `s` to `t`, cut toward zero. -/
def secondsSince (t s : Timestamp) : Int := (t.since s).tdiv secondNanos

/-- Whole milliseconds from `s` to `t`, cut toward zero. -/
def millisSince (t s : Timestamp) : Int := (t.since s).tdiv 1000000

/-! ### Text -/

/-- The year in four digits, or with a sign when four digits do not hold it. -/
def yearText (year : Int) : String :=
  if 0 ≤ year ∧ year ≤ 9999 then Text.padZero 4 (toString year)
  else (if year < 0 then "-" else "+") ++ Text.padZero 4 (toString year.natAbs)

def twoDigits (n : Nat) : String := Text.padZero 2 (toString n)

/-- A fraction of a second in 3, 6 or 9 digits after a point; nothing for a whole second. -/
def fractionText (nanosecond : Nat) : String :=
  if nanosecond = 0 then ""
  else if nanosecond % 1000000 = 0 then "." ++ Text.padZero 3 (toString (nanosecond / 1000000))
  else if nanosecond % 1000 = 0 then "." ++ Text.padZero 6 (toString (nanosecond / 1000))
  else "." ++ Text.padZero 9 (toString nanosecond)

end Timestamp

/-- A day as year, month and day of the month. -/
def Date.text (d : Date) : String :=
  let c := d.civil
  Timestamp.yearText c.year ++ "-" ++ Timestamp.twoDigits c.month ++ "-" ++ Timestamp.twoDigits c.day

namespace Timestamp

/-- The time of day, with a fraction only if there is one. -/
def clockText (t : Timestamp) : String :=
  twoDigits t.hour ++ ":" ++ twoDigits t.minute ++ ":" ++ twoDigits t.second ++
    fractionText t.nanosecond

/-- Day and time of day with a blank between them. -/
def text (t : Timestamp) : String := t.date.text ++ " " ++ t.clockText

/-- Day and time of day with a `T` between them. -/
def isoText (t : Timestamp) : String := t.date.text ++ "T" ++ t.clockText

end Timestamp

end Hydroseries
