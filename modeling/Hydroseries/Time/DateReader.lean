import Hydroseries.Text.Numeral
import Hydroseries.Time.Pattern

/-!
# Reading dates by a pattern

The items of a pattern take fields from the front of a text. When the pattern and the text end
together, the fields gathered must determine a day, and every field must agree with that day.

Numbers may be preceded by blanks and may have fewer digits than their width; a year with a sign may
have any number of digits.
-/

namespace Hydroseries.Pattern

structure Gathered where
  year : Option Int := none
  century : Option Int := none
  yearOfCentury : Option Int := none
  weekYear : Option Int := none
  weekYearCentury : Option Int := none
  weekYearOfCentury : Option Int := none
  quarter : Option Int := none
  month : Option Int := none
  day : Option Int := none
  weekFromSunday : Option Int := none
  weekFromMonday : Option Int := none
  week : Option Int := none
  /-- From Monday, which is 0. -/
  weekday : Option Int := none
  ordinal : Option Int := none
  half : Option Int := none
  hourOfHalf : Option Int := none
  minute : Option Int := none
  second : Option Int := none
  nanosecond : Option Int := none
  epochSeconds : Option Int := none
  offset : Option Int := none

/-- A field takes a value once; after that it only agrees. -/
def agree? (old : Option Int) (v : Int) : Option (Option Int) :=
  match old with
  | none => some (some v)
  | some w => if w = v then some old else none

def within? (low high v : Int) : Option Int := if low ≤ v ∧ v ≤ high then some v else none

namespace Gathered

/-- Puts the weekday, from Monday. -/
def putWeekday? (g : Gathered) (v : Int) : Option Gathered :=
  (agree? g.weekday v).map fun x => { g with weekday := x }

def putHalf? (g : Gathered) (v : Int) : Option Gathered :=
  (agree? g.half v).map fun x => { g with half := x }

def putMonth? (g : Gathered) (v : Int) : Option Gathered :=
  (agree? g.month v).map fun x => { g with month := x }

def putNanosecond? (g : Gathered) (v : Int) : Option Gathered :=
  (agree? g.nanosecond v).map fun x => { g with nanosecond := x }

/-- Puts the distance from universal time. -/
def putOffset? (g : Gathered) (v : Int) : Option Gathered :=
  (agree? g.offset v).map fun x => { g with offset := x }

/-- Puts the value of a number field, unless it is out of range or contradicts an earlier one. -/
def put? (g : Gathered) (f : Field) (v : Int) : Option Gathered :=
  let word := Nat.pow 2 31
  match f with
  | .year => do
    let v ← within? (-word) (word - 1) v
    (agree? g.year v).map fun x => { g with year := x }
  | .century => do
    let v ← within? 0 (word - 1) v
    (agree? g.century v).map fun x => { g with century := x }
  | .yearOfCentury => do
    let v ← within? 0 99 v
    (agree? g.yearOfCentury v).map fun x => { g with yearOfCentury := x }
  | .weekYear => do
    let v ← within? (-word) (word - 1) v
    (agree? g.weekYear v).map fun x => { g with weekYear := x }
  | .weekYearCentury => do
    let v ← within? 0 (word - 1) v
    (agree? g.weekYearCentury v).map fun x => { g with weekYearCentury := x }
  | .weekYearOfCentury => do
    let v ← within? 0 99 v
    (agree? g.weekYearOfCentury v).map fun x => { g with weekYearOfCentury := x }
  | .quarter => do
    let v ← within? 1 4 v
    (agree? g.quarter v).map fun x => { g with quarter := x }
  | .month => do
    let v ← within? 1 12 v
    g.putMonth? v
  | .day => do
    let v ← within? 1 31 v
    (agree? g.day v).map fun x => { g with day := x }
  | .weekFromSunday => do
    let v ← within? 0 53 v
    (agree? g.weekFromSunday v).map fun x => { g with weekFromSunday := x }
  | .weekFromMonday => do
    let v ← within? 0 53 v
    (agree? g.weekFromMonday v).map fun x => { g with weekFromMonday := x }
  | .week => do
    let v ← within? 1 53 v
    (agree? g.week v).map fun x => { g with week := x }
  | .daysFromSunday => do
    -- Weekdays are kept counted from Monday.
    let v ← within? 0 6 v
    g.putWeekday? ((v + 6) % 7)
  | .weekdayNumber => do
    let v ← within? 1 7 v
    g.putWeekday? (v - 1)
  | .ordinal => do
    let v ← within? 1 366 v
    (agree? g.ordinal v).map fun x => { g with ordinal := x }
  | .hour => do
    let v ← within? 0 23 v
    let g ← g.putHalf? (v / 12)
    (agree? g.hourOfHalf (v % 12)).map fun x => { g with hourOfHalf := x }
  | .hourOfHalf => do
    -- Twelve is the zeroth hour of its half.
    let v ← within? 1 12 v
    (agree? g.hourOfHalf (v % 12)).map fun x => { g with hourOfHalf := x }
  | .minute => do
    let v ← within? 0 59 v
    (agree? g.minute v).map fun x => { g with minute := x }
  | .second => do
    let v ← within? 0 60 v
    (agree? g.second v).map fun x => { g with second := x }
  | .nanosecond => do
    let v ← within? 0 999999999 v
    g.putNanosecond? v
  | .epochSeconds => (agree? g.epochSeconds v).map fun x => { g with epochSeconds := x }

end Gathered

/-! ### Scanning -/

/-- One to `width` digits; the value must fit 63 bits. -/
def scanNumber? (width : Nat) (cs : List Char) : Option (Int × List Char) :=
  let digits := (cs.take width).takeWhile Text.isDigit
  let v := Text.digitsValue digits
  if digits.isEmpty || v ≥ Nat.pow 2 63 then none else some (v, cs.drop digits.length)

/-- Any number of digits; the value must fit 63 bits. -/
def scanLongNumber? (cs : List Char) : Option (Int × List Char) := scanNumber? cs.length cs

def Field.width : Field → Option Nat
  | .year | .weekYear => some 4
  | .quarter | .daysFromSunday | .weekdayNumber => some 1
  | .ordinal => some 3
  | .nanosecond => some 9
  | .epochSeconds => none
  | _ => some 2

/-- Years may carry a sign. -/
def Field.maySign : Field → Bool
  | .year | .weekYear => true
  | _ => false

/-- The number of a field, blanks before it skipped. -/
def scanField? (f : Field) (cs : List Char) : Option (Int × List Char) :=
  let cs := Text.trimFront cs
  let plain := scanNumber? (f.width.getD cs.length) cs
  if f.maySign then
    match cs with
    | '-' :: rest => (scanLongNumber? rest).map fun (v, rest) => (-v, rest)
    | '+' :: rest => scanLongNumber? rest
    | _ => plain
  else plain

/-- Drops `word` from the front, whatever the case of its ASCII letters. -/
def dropWord? (word cs : List Char) : Option (List Char) :=
  if (cs.take word.length).map Char.toLower == word.map Char.toLower && word.length ≤ cs.length then
    some (cs.drop word.length)
  else none

/-- The position of the name whose first three letters open the text; a long name may go on with the
rest of its letters. -/
def scanName? (names : List String) (long : Bool) (cs : List Char) : Option (Nat × List Char) := do
  let i ← names.findIdx? fun name => (dropWord? (name.toList.take 3) cs).isSome
  let rest := cs.drop 3
  let suffix := ((names[i]?).getD "").toList.drop 3
  if long then some (i, (dropWord? suffix rest).getD rest) else some (i, rest)

/-- A fraction of a second as nanoseconds: the first nine digits count, the others are skipped. -/
def scanFraction? (cs : List Char) : Option (Int × List Char) := do
  let (v, rest) ← scanNumber? 9 cs
  let places := cs.length - rest.length
  some (v * Nat.pow 10 (9 - places), rest.dropWhile Text.isDigit)

/-- Exactly `places` digits of a fraction of a second, as nanoseconds. -/
def scanFixedFraction? (places : Nat) (cs : List Char) : Option (Int × List Char) := do
  let digits := (cs.take places).takeWhile Text.isDigit
  if digits.length = places then
    some ((Text.digitsValue digits : Int) * Nat.pow 10 (9 - places), cs.drop places)
  else none

/-- A sign, two digits of hours, colons or blanks and two digits of minutes, in seconds. -/
def scanOffset? (zulu lenient : Bool) (cs : List Char) : Option (Int × List Char) :=
  match cs with
  | 'z' :: rest => if zulu then some (0, rest) else none
  | 'Z' :: rest => if zulu then some (0, rest) else none
  | sign :: rest => do
    let negative ← match sign with
      | '+' => some false
      | '-' => some true
      | '−' => some true
      | _ => none
    let hours ← Text.readDigits? (rest.take 2)
    if rest.length < 2 then none
    let rest := (rest.drop 2).dropWhile fun c => c == ':' || Text.isBlank c
    let (minutes, rest) ← match rest with
      | m :: n :: rest =>
        if '0' ≤ m && m ≤ '5' && Text.isDigit n then
          some (Text.digitsValue [m, n], rest)
        else none
      -- Minutes may be left out at the end of the text.
      | rest => if lenient && rest.isEmpty then some (0, rest) else none
    let seconds : Int := hours * 3600 + minutes * 60
    some (if negative then -seconds else seconds, rest)
  | [] => none

/-- Takes the fields of one item, except the item that stands for a whole instant. -/
def Item.readPlain? (g : Gathered) (cs : List Char) : Item → Option (Gathered × List Char)
  | .literal text => if text.isPrefixOf cs then some (g, cs.drop text.length) else none
  | .space _ => some (g, Text.trimFront cs)
  | .number f _ => do
    let (v, rest) ← scanField? f cs
    let g ← g.put? f v
    some (g, rest)
  | .monthName long => do
    let (i, rest) ← scanName? monthNames long cs
    let g ← g.putMonth? (i + 1)
    some (g, rest)
  | .weekdayName long => do
    let (i, rest) ← scanName? weekdayNames long cs
    let g ← g.putWeekday? i
    some (g, rest)
  | .half _ =>
    match dropWord? ['a', 'm'] cs, dropWord? ['p', 'm'] cs with
    | some rest, _ => (g.putHalf? 0).map (·, rest)
    | none, some rest => (g.putHalf? 1).map (·, rest)
    | none, none => none
  | .fraction places =>
    -- The whole fraction may be missing, with its point.
    match cs with
    | '.' :: rest => do
      let (v, rest) ← match places with
        | none => scanFraction? rest
        | some n => scanFixedFraction? n rest
      let g ← g.putNanosecond? v
      some (g, rest)
    | _ => some (g, cs)
  | .fractionDigits places => do
    let (v, rest) ← scanFixedFraction? places cs
    let g ← g.putNanosecond? v
    some (g, rest)
  | .zoneName => some (g, cs.dropWhile fun c => !Text.isBlank c)
  | .zoneOffset lenient => do
    let (v, rest) ← scanOffset? lenient lenient (Text.trimFront cs)
    let g ← g.putOffset? v
    some (g, rest)
  | .instant | .unknown => none

/-- Takes the fields of a list of items in order. -/
def readPlainItems? (items : List Item) (g : Gathered) (cs : List Char) :
    Option (Gathered × List Char) :=
  items.foldlM (fun (g, cs) item => item.readPlain? g cs) (g, cs)

/-- Date, time and zone of an instant. -/
def readInstant? (g : Gathered) (cs : List Char) : Option (Gathered × List Char) := do
  -- Blanks may stand around the marks between the parts.
  let gap := Item.space []
  let (g, cs) ← readPlainItems? [Item.zeros .year, gap, Item.char '-', Item.zeros .month, gap,
    Item.char '-', Item.zeros .day] g cs
  let cs ← match cs with
    | 't' :: rest => some rest
    | 'T' :: rest => some rest
    | ' ' :: rest => some rest
    | _ => none
  let (g, cs) ← readPlainItems? [Item.zeros .hour, gap, Item.char ':', Item.zeros .minute, gap,
    Item.char ':', Item.zeros .second, .fraction none, gap] g cs
  let (v, cs) ← match dropWord? ['u', 't', 'c'] cs with
    | some rest => some (0, rest)
    | none => scanOffset? true false cs
  (g.putOffset? v).map (·, cs)

def Item.read? (g : Gathered) (cs : List Char) (item : Item) : Option (Gathered × List Char) :=
  if item = .instant then readInstant? g cs else item.readPlain? g cs

/-- The fields of a text that the items cover completely. -/
def gather? (items : List Item) (cs : List Char) : Option Gathered :=
  match items.foldlM (fun (g, cs) item => item.read? g cs) (({} : Gathered), cs) with
  | some (g, []) => some g
  | _ => none

/-! ### The day that the fields determine -/

/-- A year from its parts. Two digits alone mean the years 1970 to 2069. The inner `none` says that
nothing was given, the outer one that the parts do not make a year. -/
def resolveYear? (year century rest : Option Int) : Option (Option Int) :=
  match year, century, rest with
  | y, none, none => some y
  | some y, q, r =>
    if 0 ≤ y ∧ q.getD (y / 100) = y / 100 ∧ r.getD (y % 100) = y % 100 then some (some y) else none
  | none, some q, some r => if q * 100 + r < Nat.pow 2 31 then some (some (q * 100 + r)) else none
  | none, none, some r => some (some (r + if r < 70 then 2000 else 1900))
  | none, some _, none => none

/-- True when a field is absent or has the value `v`. -/
def fits (field : Option Int) (v : Int) : Bool := field.all (· == v)

/-- A part of a year that exists for years from zero on only. -/
def fitsPart (field : Option Int) (year part : Int) : Bool :=
  if year < 0 then field.isNone else fits field part

namespace Gathered

/-- Year, month and day agree. -/
def agreesCivil (g : Gathered) (d : Date) : Bool :=
  let c := d.civil
  fits g.year c.year && fitsPart g.century c.year (c.year / 100) &&
    fitsPart g.yearOfCentury c.year (c.year % 100) && fits g.month c.month && fits g.day c.day

/-- The week and the weekday agree. -/
def agreesWeek (g : Gathered) (d : Date) : Bool :=
  let (year, week) := d.isoWeek
  fits g.weekYear year && fitsPart g.weekYearCentury year (year / 100) &&
    fitsPart g.weekYearOfCentury year (year % 100) && fits g.week week && fits g.weekday d.weekday

/-- The day of the year and the weeks counted from the first Sunday or Monday agree. -/
def agreesOrdinal (g : Gathered) (d : Date) : Bool :=
  fits g.ordinal d.ordinal && fits g.weekFromSunday (d.weekFrom 6) &&
    fits g.weekFromMonday (d.weekFrom 0)

/-- The day of a year by a week counted from the first weekday `start`. -/
def ofWeek? (year week weekday start : Int) : Option Date := do
  let first ← Date.ofOrdinal? year 1
  let opening := 1 + (start + 7 - first.weekday) % 7
  let ordinal := opening + (week - 1) * 7 + (weekday + 7 - start) % 7
  if ordinal ≤ 0 then none else Date.ofOrdinal? year ordinal.toNat

/-- The day by the first complete description among: year, month and day; year and day of the year;
year, week from Sunday and weekday; year, week from Monday and weekday; year of the week, week and
weekday. -/
def candidate? (g : Gathered) : Option Date := do
  let year ← resolveYear? g.year g.century g.yearOfCentury
  let weekYear ← resolveYear? g.weekYear g.weekYearCentury g.weekYearOfCentury
  match year, g.month, g.day with
  | some y, some m, some d => Date.ofYmd? y m.toNat d.toNat
  | _, _, _ =>
    match year, g.ordinal with
    | some y, some n => Date.ofOrdinal? y n.toNat
    | _, _ =>
      match year, g.weekFromSunday, g.weekday with
      | some y, some w, some k => ofWeek? y w k 6
      | _, _, _ =>
        match year, g.weekFromMonday, g.weekday with
        | some y, some w, some k => ofWeek? y w k 0
        | _, _, _ =>
          match weekYear, g.week, g.weekday with
          | some y, some w, some k => Date.ofIsoWeek? y w.toNat k.toNat
          | _, _, _ => none

/-- The day that the fields determine, if all of them agree with it. -/
def date? (g : Gathered) : Option Date :=
  g.candidate?.filter fun d =>
    g.agreesCivil d && g.agreesWeek d && g.agreesOrdinal d && fits g.quarter ((d.month - 1) / 3 + 1)

/-- The hour, minute and second that the fields determine; the second may be the sixtieth. -/
def clock? (g : Gathered) : Option (Nat × Nat × Nat) := do
  let half ← g.half
  let hour ← g.hourOfHalf
  let minute ← g.minute
  some ((half * 12 + hour).toNat, minute.toNat, (g.second.getD 0).toNat)

end Gathered

/-- The day that a text names in the notation of a pattern. -/
def readDate? (pattern text : String) : Option Date :=
  (gather? (itemsOf pattern.toList) text.toList).bind Gathered.date?

end Hydroseries.Pattern
