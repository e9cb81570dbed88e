import Hydroseries.Decimal.Exact
import Hydroseries.Fault
import Hydroseries.Time.DateReader

/-!
# Dates and times as control files spell them

Dates are read in the pattern of the settings first, then as `2020-01-31`, `2020/01/31`, with slashes
in the order that the settings choose, and as `20200131`. Times of day are `HH`, `HH:MM` or
`HH:MM:SS`; 24 hours are the midnight that ends the day.
-/

namespace Hydroseries

/-- How dates are written, and in which order slash dates are read. -/
structure DateFormat where
  pattern : String
  /-- Slash dates name the day before the month. -/
  dayFirst : Bool
  deriving DecidableEq, Repr

/-- The first position at which `word` occurs. -/
def Text.indexOf? (word : List Char) : List Char → Option Nat
  | [] => if word.isEmpty then some 0 else none
  | c :: cs => if word.isPrefixOf (c :: cs) then some 0 else (Text.indexOf? word cs).map (· + 1)

namespace DateFormat

/-- Year, month and day with hyphens. -/
def iso : DateFormat := ⟨"%Y-%m-%d", false⟩

instance : Inhabited DateFormat := ⟨iso⟩

/-- The format that a setting names: one of the two slash spellings, or a pattern. -/
def ofSetting (value : String) : Outcome DateFormat :=
  let trimmed := Text.trim value
  match Text.lower trimmed with
  | "dd/mm/yyyy" => .ok ⟨"%d/%m/%Y", true⟩
  | "mm/dd/yyyy" => .ok ⟨"%m/%d/%Y", false⟩
  | "" => .error (.invalid "date_format" value "empty date format")
  | _ =>
    let cs := trimmed.toList
    if cs.contains '%' then
      let dayFirst := match Text.indexOf? ['%', 'd'] cs, Text.indexOf? ['%', 'm'] cs with
        | some d, some m => d < m
        | _, _ => false
      .ok ⟨trimmed, dayFirst⟩
    else
      .error (.invalid "date_format" value "expected dd/mm/yyyy, mm/dd/yyyy or a strftime pattern")

/-- The day of a timestamp in this format. -/
def write (format : DateFormat) (t : Timestamp) : Outcome String :=
  match Pattern.write? format.pattern t with
  | some text => .ok text
  | none => .error .outOfRange

def patterns (format : DateFormat) : List String :=
  [format.pattern, "%Y-%m-%d", "%Y/%m/%d", if format.dayFirst then "%d/%m/%Y" else "%m/%d/%Y",
   "%Y%m%d"]

/-- Reads a date; the first pattern that fits decides. -/
def readDate (format : DateFormat) (text : String) : Outcome Date :=
  let text := Text.trim text
  match format.patterns.findSome? fun pattern => Pattern.readDate? pattern text with
  | some d => .ok d
  | none => .error (.invalid "date" text "unrecognized date")

end DateFormat

/-! ### Times of day -/

/-- Hours, minutes and seconds of a day, or 24 hours. -/
structure Clock where
  hours : Nat
  minutes : Nat
  seconds : Nat
  deriving DecidableEq, Repr

namespace Clock

def midnight : Clock := ⟨0, 0, 0⟩

/-- Seconds since the midnight that starts the day. -/
def totalSeconds (c : Clock) : Nat := c.hours * 3600 + c.minutes * 60 + c.seconds

/-- True for the times of a day and for the midnight that ends it. -/
def inDay (c : Clock) : Bool :=
  c.hours ≤ 24 && c.minutes ≤ 59 && c.seconds ≤ 59 &&
    !(c.hours == 24 && (c.minutes > 0 || c.seconds > 0))

def read (time : String) : Outcome Clock := do
  let malformed := Fault.invalid "time" time "expected HH, HH:MM or HH:MM:SS"
  let part (s : String) : Outcome Nat :=
    match Text.readWord32? (Text.trim s) with
    | some n => .ok n
    | none => .error malformed
  let clock ← match Text.splitAtChar (Text.trim time) ':' with
    | [h] => do
      let h ← part h
      pure (Clock.mk h 0 0)
    | [h, m] => do
      let h ← part h
      let m ← part m
      pure (Clock.mk h m 0)
    | [h, m, s] => do
      let h ← part h
      let m ← part m
      let s ← part s
      pure (Clock.mk h m s)
    | _ => .error malformed
  if clock.inDay then pure clock else .error (.invalid "time" time "time of day out of range")

end Clock

namespace DateFormat

/-- A date with an optional time of day; a blank time is midnight. -/
def combine (format : DateFormat) (date : String) (time : Option String) : Outcome Timestamp := do
  let day ← format.readDate date
  let clock ← match time with
    | some t => if Text.isAllBlank t then pure Clock.midnight else Clock.read t
    | none => pure Clock.midnight
  let start := Timestamp.ofDate day 0
  match start.plus? (clock.totalSeconds * Timestamp.secondNanos) with
  | some t => pure t
  | none => .error .outOfRange

/-- A timestamp of a data file: a date, and after a `T` or a blank a time of day. -/
def readTimestamp (format : DateFormat) (text : String) : Outcome Timestamp :=
  let text := Text.trim text
  match Text.cutAt (fun c => c == 'T' || c == ' ') text.toList with
  | some (date, time) =>
    format.combine (String.ofList date) (some (Text.trim (String.ofList time)))
  | none => format.combine text none

end DateFormat

/-! ### Steps of time -/

namespace TimeStep

/-- Seconds of the units that steps are given in. -/
def unitSeconds? (unit : String) : Option Double :=
  if ["s", "S", "sec", "secs", "second", "seconds"].contains unit then some 1
  else if ["T", "min", "mins", "minute", "minutes"].contains unit then some 60
  else if ["h", "H", "hr", "hrs", "hour", "hours"].contains unit then some 3600
  else if ["", "d", "D", "day", "days"].contains unit then some 86400
  else if ["w", "W", "week", "weeks"].contains unit then some 604800
  else none

/-- The largest number of seconds that a span of time holds. -/
def maxSeconds : Int := 9223372036854775

/-- Reads a step of time as whole seconds: a time of day, or a number and a unit, each of which may be
missing. -/
def read (text : String) : Outcome Int := do
  let trimmed := (Text.trim text).toList
  if trimmed.contains ':' then
    let clock ← Clock.read (String.ofList trimmed)
    pure clock.totalSeconds
  else
    let (number, unit) := trimmed.span fun c => Text.isDigit c || c == '.'
    let amount ←
      if number.isEmpty then pure 1.0
      else match Text.readDouble? (String.ofList number) with
        | some x => pure x
        | none => .error (.invalid "time_increment" text "expected a number and a unit")
    let unit := Text.trim (String.ofList unit)
    let seconds ← match unitSeconds? unit with
      | some s => pure s
      | none => .error (.invalid "time_increment" text ("unknown time unit '" ++ unit ++ "'"))
    let total := Decimal.roundToWord64 (amount * seconds)
    if total ≤ 0 then .error (.invalid "time_increment" text "must be positive")
    else if total > maxSeconds then .error .outOfRange
    else pure total

end TimeStep

/-! ### Flags -/

def readFlag? (raw : String) : Option Bool :=
  let word := Text.lower (Text.trim raw)
  if ["y", "yes", "true", "t", "1"].contains word then some true
  else if ["n", "no", "false", "f", "0"].contains word then some false
  else none

end Hydroseries
