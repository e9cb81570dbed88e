import Hydroseries.Time.Timestamp

/-!
# Date patterns

A pattern is a text in which `%` and a letter stand for a field of a date or a time of day, as in
`%d/%m/%Y`. Other characters stand for themselves. Between the mark and the letter, `-`, `0` and `_`
choose how a number is padded.

This module cuts a pattern into items and writes a timestamp by them. A pattern with an unknown
field, or with one that civil time has no value for, writes nothing.
-/

namespace Hydroseries.Pattern

inductive Field where
  | year
  | century
  | yearOfCentury
  | weekYear
  | weekYearCentury
  | weekYearOfCentury
  | quarter
  | month
  | day
  | weekFromSunday
  | weekFromMonday
  | week
  | daysFromSunday
  | weekdayNumber
  | ordinal
  | hour
  | hourOfHalf
  | minute
  | second
  | nanosecond
  | epochSeconds
  deriving DecidableEq, Repr

/-- How a number is filled up to its usual width. -/
inductive Pad where
  | none
  | zero
  | blank
  deriving DecidableEq, Repr

inductive Item where
  | literal (text : List Char)
  | space (text : List Char)
  | number (field : Field) (pad : Pad)
  | monthName (long : Bool)
  | weekdayName (long : Bool)
  | half (upper : Bool)
  /-- A point and the fraction of the second; without `places`, as many digits as needed. -/
  | fraction (places : Option Nat)
  | fractionDigits (places : Nat)
  | zoneName
  /-- The distance from universal time; a lenient one may be `Z` or lack the minutes. -/
  | zoneOffset (lenient : Bool)
  /-- Date, time and zone in one. -/
  | instant
  | unknown
  deriving DecidableEq, Repr

namespace Item

def zeros (f : Field) : Item := .number f .zero

def blanks (f : Field) : Item := .number f .blank

def bare (f : Field) : Item := .number f .none

def char (c : Char) : Item := .literal [c]

end Item

open Item

/-- Hours, minutes and seconds. -/
def clockItems : List Item := [zeros .hour, char ':', zeros .minute, char ':', zeros .second]

/-- Month, day and the last two digits of the year. -/
def slashItems : List Item := [zeros .month, char '/', zeros .day, char '/', zeros .yearOfCentury]

/-- The items of a letter that needs no further characters. -/
def itemsOfLetter : Char → List Item
  | 'A' => [.weekdayName true]
  | 'B' => [.monthName true]
  | 'C' => [zeros .century]
  | 'D' | 'x' => slashItems
  | 'F' => [zeros .year, char '-', zeros .month, char '-', zeros .day]
  | 'G' => [zeros .weekYear]
  | 'H' => [zeros .hour]
  | 'I' => [zeros .hourOfHalf]
  | 'M' => [zeros .minute]
  | 'P' => [.half false]
  | 'R' => [zeros .hour, char ':', zeros .minute]
  | 'S' => [zeros .second]
  | 'T' | 'X' => clockItems
  | 'U' => [zeros .weekFromSunday]
  | 'V' => [zeros .week]
  | 'W' => [zeros .weekFromMonday]
  | 'Y' => [zeros .year]
  | 'Z' => [.zoneName]
  | 'a' => [.weekdayName false]
  | 'b' | 'h' => [.monthName false]
  | 'c' => [.weekdayName false, .space [' '], .monthName false, .space [' '], blanks .day,
      .space [' ']] ++ clockItems ++ [.space [' '], zeros .year]
  | 'd' => [zeros .day]
  | 'e' => [blanks .day]
  | 'f' => [zeros .nanosecond]
  | 'g' => [zeros .weekYearOfCentury]
  | 'j' => [zeros .ordinal]
  | 'k' => [blanks .hour]
  | 'l' => [blanks .hourOfHalf]
  | 'm' => [zeros .month]
  | 'n' => [.space ['\n']]
  | 'p' => [.half true]
  | 'q' => [bare .quarter]
  | 'r' => [zeros .hourOfHalf, char ':', zeros .minute, char ':', zeros .second, .space [' '],
      .half true]
  | 's' => [bare .epochSeconds]
  | 't' => [.space ['\t']]
  | 'u' => [bare .weekdayNumber]
  | 'v' => [blanks .day, char '-', .monthName false, char '-', zeros .year]
  | 'w' => [bare .daysFromSunday]
  | 'y' => [zeros .yearOfCentury]
  | 'z' => [.zoneOffset false]
  | '+' => [.instant]
  | '%' => [char '%']
  | _ => [.unknown]

def padOfMark? : Char → Option Pad
  | '-' => some .none
  | '0' => some .zero
  | '_' => some .blank
  | _ => none

/-- Padding can be chosen for a single number only. -/
def repad (pad : Pad) : List Item → List Item
  | [.number f _] => [.number f pad]
  | _ => [.unknown]

/-- The items of the field that follows a `%`, and the rest of the pattern. -/
def readField : List Char → List Item × List Char
  | [] => ([.unknown], [])
  | '#' :: 'z' :: rest => ([.zoneOffset true], rest)
  | '#' :: _ :: rest => ([.unknown], rest)
  | '#' :: [] => ([.unknown], [])
  | ':' :: ':' :: ':' :: 'z' :: rest => ([.zoneOffset false], rest)
  | ':' :: ':' :: 'z' :: rest => ([.zoneOffset false], rest)
  | ':' :: 'z' :: rest => ([.zoneOffset false], rest)
  | '.' :: 'f' :: rest => ([.fraction none], rest)
  | '.' :: '3' :: 'f' :: rest => ([.fraction (some 3)], rest)
  | '.' :: '6' :: 'f' :: rest => ([.fraction (some 6)], rest)
  | '.' :: '9' :: 'f' :: rest => ([.fraction (some 9)], rest)
  | '3' :: 'f' :: rest => ([.fractionDigits 3], rest)
  | '6' :: 'f' :: rest => ([.fractionDigits 6], rest)
  | '9' :: 'f' :: rest => ([.fractionDigits 9], rest)
  | c :: rest =>
    match padOfMark? c, rest with
    | some _, [] => ([.unknown], [])
    | some pad, letter :: rest => (repad pad (itemsOfLetter letter), rest)
    | none, rest => (itemsOfLetter c, rest)

/-- Reading a field takes at least no characters back. -/
theorem length_readField_le (cs : List Char) : (readField cs).2.length ≤ cs.length := by
  unfold readField
  split <;> try (simp only [List.length_cons, List.length_nil]; omega)
  split <;> simp only [List.length_cons, List.length_nil] <;> omega

/-- Characters of a pattern that stand for themselves and are no blanks. -/
def isPlain (c : Char) : Bool := !(Text.isBlank c || c == '%')

def itemsOf (cs : List Char) : List Item :=
  match cs with
  | [] => []
  | c :: rest =>
    if c == '%' then
      have := length_readField_le rest
      (readField rest).1 ++ itemsOf (readField rest).2
    else if Text.isBlank c then
      have := (List.dropWhile_suffix Text.isBlank (l := rest)).length_le
      .space (c :: rest.takeWhile Text.isBlank) :: itemsOf (rest.dropWhile Text.isBlank)
    else
      have := (List.dropWhile_suffix isPlain (l := rest)).length_le
      .literal (c :: rest.takeWhile isPlain) :: itemsOf (rest.dropWhile isPlain)
termination_by cs.length
decreasing_by all_goals simp only [List.length_cons]; omega

/-! ### Names -/

def monthNames : List String :=
  ["January", "February", "March", "April", "May", "June", "July", "August", "September", "October",
   "November", "December"]

/-- The weekdays in full, from Monday. -/
def weekdayNames : List String :=
  ["Monday", "Tuesday", "Wednesday", "Thursday", "Friday", "Saturday", "Sunday"]

/-- A name, or its first three letters. -/
def nameText (names : List String) (long : Bool) (i : Nat) : String :=
  let name := (names[i]?).getD ""
  if long then name else String.ofList (name.toList.take 3)

/-! ### Writing -/

/-- A signed number filled up to `width` places; with `showSign` a plus sign is written too and
widens the place by one. -/
def writeNumber (width : Nat) (v : Int) (pad : Pad) (showSign : Bool) : String :=
  let sign := if v < 0 then "-" else if showSign then "+" else ""
  let digits := toString v.natAbs
  let total := if showSign then width + 1 else width
  match pad with
  | .none => sign ++ digits
  | .zero => sign ++ Text.padZero (total - sign.length) digits
  | .blank => Text.padLeft total (sign ++ digits)

/-- Two places, of which the first may be beyond nine and is then the character that many places
after the digit zero. -/
def writeTwo (v : Nat) (pad : Pad) : String :=
  let ones := String.ofList [Char.ofNat ('0'.toNat + v % 10)]
  match v / 10, pad with
  | 0, .none => ones
  | 0, .blank => " " ++ ones
  | tens, _ => String.ofList [Char.ofNat ('0'.toNat + tens)] ++ ones

/-- Four places, with a sign when the year has more or is negative. -/
def writeYear (year : Int) (pad : Pad) : String :=
  writeNumber 4 year pad (year < 0 || year > 9999)

/-- A number kept in eight bits. -/
def inByte (v : Int) : Nat := (v % 256).toNat

def writeField (f : Field) (pad : Pad) (t : Timestamp) : String :=
  let d := t.date
  let c := d.civil
  let (weekYear, week) := d.isoWeek
  match f with
  | .year => writeYear c.year pad
  | .century => writeTwo (inByte (c.year.fdiv 100)) pad
  | .yearOfCentury => writeTwo (inByte (c.year % 100)) pad
  | .weekYear => writeYear weekYear pad
  | .weekYearCentury => writeTwo (inByte (weekYear.fdiv 100)) pad
  | .weekYearOfCentury => writeTwo (inByte (weekYear % 100)) pad
  | .quarter => toString ((c.month - 1) / 3 + 1)
  | .month => writeTwo c.month pad
  | .day => writeTwo c.day pad
  | .weekFromSunday => writeTwo (d.weekFrom 6) pad
  | .weekFromMonday => writeTwo (d.weekFrom 0) pad
  | .week => writeTwo week pad
  | .daysFromSunday => toString ((d.weekday + 1) % 7)
  | .weekdayNumber => toString (d.weekday + 1)
  | .ordinal => writeNumber 3 d.ordinal pad false
  | .hour => writeTwo t.hour pad
  | .hourOfHalf => writeTwo (if t.hour % 12 = 0 then 12 else t.hour % 12) pad
  | .minute => writeTwo t.minute pad
  | .second => writeTwo t.second pad
  | .nanosecond => writeNumber 9 t.nanosecond pad false
  | .epochSeconds => writeNumber 9 (t.nanos.fdiv Timestamp.secondNanos) pad false

/-- The text of one item. Civil time has no zone, so items that need one have no text. -/
def Item.write? (t : Timestamp) : Item → Option String
  | .literal text => some (String.ofList text)
  | .space text => some (String.ofList text)
  | .number f pad => some (writeField f pad t)
  | .monthName long => some (nameText monthNames long (t.date.month - 1))
  | .weekdayName long => some (nameText weekdayNames long t.date.weekday)
  | .half upper =>
    some <| if upper then (if t.hour < 12 then "AM" else "PM") else (if t.hour < 12 then "am" else "pm")
  | .fraction none => some (Timestamp.fractionText t.nanosecond)
  | .fraction (some places) =>
    some ("." ++ Text.padZero places (toString (t.nanosecond / Nat.pow 10 (9 - places))))
  | .fractionDigits places => some (Text.padZero places (toString (t.nanosecond / Nat.pow 10 (9 - places))))
  | .zoneName | .zoneOffset _ | .instant | .unknown => none

/-- The timestamp written by a pattern, unless an item has no text. -/
def write? (pattern : String) (t : Timestamp) : Option String :=
  ((itemsOf pattern.toList).mapM (Item.write? t)).map String.join

end Hydroseries.Pattern
