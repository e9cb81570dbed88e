import Hydroseries.Record.Descriptor
import Hydroseries.Record.Edit

/-!
# Writing records

A record is written by going through the descriptors of a format with a position in the line. Writing
left of the end replaces characters; columns that nothing is written to are blanks. The writing ends
at the first descriptor for which no value is left.
-/

namespace Hydroseries.Record

inductive Field where
  | text (s : String)
  | number (x : Double)
  deriving Repr

structure Line where
  chars : List Char := []
  /-- The column of the next character, counted from zero. -/
  position : Nat := 0

namespace Line

/-- Writes characters from a column on, over what stands there and with blanks up to it. -/
def overwrite (chars : List Char) (column : Nat) (text : List Char) : List Char :=
  if text.isEmpty then chars
  else
    let padded := chars ++ List.replicate (column - chars.length) ' '
    padded.take column ++ text ++ padded.drop (column + text.length)

/-- Writes a text at the position and moves behind it. -/
def put (l : Line) (text : List Char) : Line :=
  ⟨overwrite l.chars l.position text, l.position + text.length⟩

def moveTo (l : Line) (column : Nat) : Line := { l with position := column }

end Line

/-- A written record, and for each value the first and the last column that it takes, counted from
one. -/
structure Written where
  text : String
  spans : List (Nat × Nat)
  deriving DecidableEq, Repr

/-- The text of a value under a descriptor and a scale factor. -/
def render (scale : Int) : Descriptor → Field → Outcome String
  | .chars none, .text s => .ok s
  | .chars (some w), .text s =>
    .ok (if s.length ≥ w then String.ofList (s.toList.take w) else Text.padLeft w s)
  | .chars _, .number x => .ok (Decimal.plain x)
  | .fixed w d, .number x => .ok (fit (Decimal.fixed d x) w)
  | .exponent w d, .number x => .ok (editExponent x w d scale)
  | .general w d, .number x => general x w d scale
  | _, .text s => .error (.refused ("numeric descriptor cannot write text '" ++ s ++ "'"))
  | _, .number _ => .error (.refused "descriptor cannot write a number")

/-- What a position in a line may not exceed. -/
def positionBound : Nat := Nat.pow 2 64

def writeFrom (scale : Int) (line : Line) (spans : List (Nat × Nat)) :
    Format → List Field → Outcome Written
  | [], _ => .ok ⟨String.ofList line.chars, spans⟩
  | d :: rest, fields =>
    if d.takesField then
      match fields with
      -- No value is left: what follows, literals included, is not written.
      | [] => .ok ⟨String.ofList line.chars, spans⟩
      | field :: fields => do
        let text ← render scale d field
        let first := line.position + 1
        -- An empty text takes the span of one column.
        let columns := max text.length 1
        if first + columns < positionBound then
          let span := (first, first + columns - 1)
          writeFrom scale (line.put text.toList) (spans ++ [span]) rest fields
        else .error .outOfRange
    else
      match d with
      | .literal text => writeFrom scale (line.put text) spans rest fields
      | .skip n =>
        if line.position + n < positionBound then
          writeFrom scale (line.moveTo (line.position + n)) spans rest fields
        else .error .outOfRange
      | .tab column => writeFrom scale (line.moveTo (column - 1)) spans rest fields
      | .scale k => writeFrom k line spans rest fields
      | _ => writeFrom scale line spans rest fields

def Format.write (format : Format) (fields : List Field) : Outcome Written :=
  writeFrom 0 {} [] format fields

def Format.line (format : Format) (fields : List Field) : Outcome String :=
  (Format.write format fields).map Written.text

end Hydroseries.Record
