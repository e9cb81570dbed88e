/-!
# Comma separated text

Records end with a line feed, a carriage return or both; blank lines hold no record. Fields are
separated by commas. A field that begins with a quote goes on to the next lone quote, and may hold
commas and line ends; two quotes in it stand for one. What follows the closing quote is taken as it
is, and so are quotes inside other fields.
-/

namespace Hydroseries.CommaText

inductive Place where
  | recordStart
  | fieldStart
  | inField
  | inQuotes
  /-- Behind a quote inside a quoted field. -/
  | quoteSeen
  deriving DecidableEq, Repr

/-- What has been read so far; all lists are in reverse. -/
structure Progress where
  place : Place := .recordStart
  field : List Char := []
  fields : List (List Char) := []
  records : List (List (List Char)) := []

def isLineEnd (c : Char) : Bool := c == '\n' || c == '\r'

namespace Progress

def put (p : Progress) (c : Char) (place : Place) : Progress :=
  { p with field := c :: p.field, place }

def endField (p : Progress) : Progress :=
  { p with field := [], fields := p.field.reverse :: p.fields, place := .fieldStart }

def endRecord (p : Progress) : Progress :=
  let p := p.endField
  { p with fields := [], records := p.fields.reverse :: p.records, place := .recordStart }

def takePlain (p : Progress) (c : Char) : Progress :=
  if c == ',' then p.endField else if isLineEnd c then p.endRecord else p.put c .inField

def takeFirst (p : Progress) (c : Char) : Progress :=
  if c == '"' then { p with place := .inQuotes } else p.takePlain c

def take (p : Progress) (c : Char) : Progress :=
  match p.place with
  | .recordStart => if isLineEnd c then p else p.takeFirst c
  | .fieldStart => p.takeFirst c
  | .inField => p.takePlain c
  | .inQuotes => if c == '"' then { p with place := .quoteSeen } else p.put c .inQuotes
  | .quoteSeen => if c == '"' then p.put c .inQuotes else p.takePlain c

/-- The records when the text ends, which ends a record that has begun. -/
def finish (p : Progress) : List (List (List Char)) :=
  (if p.place = .recordStart then p else p.endRecord).records.reverse

end Progress

/-- The records of a text, as lists of fields. A mark of the byte order at the front is dropped. -/
def records (cs : List Char) : List (List (List Char)) :=
  let cs := if cs.head? = some '\uFEFF' then cs.drop 1 else cs
  (cs.foldl Progress.take {}).finish

end Hydroseries.CommaText
