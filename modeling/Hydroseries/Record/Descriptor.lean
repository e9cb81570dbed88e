import Hydroseries.Fault
import Hydroseries.Text.Numeral

/-!
# Record formats

A record format is a list of edit descriptors that lay values out in fixed columns:

* `'text'` writes a text, `nX` moves right by `n` columns, `Tc` moves to column `c`;
* `A` and `Aw` write a text, `Fw.d` a number with fixed decimals, `Ew.d` one with an exponent, and
  `Gw.d` the form that suits its size;
* `kP` sets the scale factor of the following `E` and `G` descriptors.

Letters may have either case. Descriptors may be separated by a comma, and the list may stand in
parentheses.
-/

namespace Hydroseries.Record

inductive Descriptor where
  | literal (text : List Char)
  | skip (n : Nat)
  /-- Moves to a column, counted from one. -/
  | tab (column : Nat)
  | chars (width : Option Nat)
  | fixed (width decimals : Nat)
  | exponent (width decimals : Nat)
  | general (width decimals : Nat)
  | scale (k : Int)
  deriving DecidableEq, Repr

/-- True for the descriptors that write a value. -/
def Descriptor.takesField : Descriptor → Bool
  | chars _ | fixed .. | exponent .. | general .. => true
  | literal _ | skip _ | tab _ | scale _ => false

/-- A list of edit descriptors. -/
abbrev Format := List Descriptor

/-! ### Reading -/

/-- Characters that may stand between descriptors. -/
def isGap (c : Char) : Bool := c == ' ' || c == '\t' || c == '\r' || c == '\n'

/-- Skips what may stand between descriptors. -/
def skipGap (cs : List Char) : List Char := cs.dropWhile isGap

def takeNumber? (cs : List Char) : Option (Nat × List Char) :=
  let (digits, rest) := cs.span Text.isDigit
  let n := Text.digitsValue digits
  if digits.isEmpty || n ≥ Nat.pow 2 64 then none else some (n, rest)

/-- Two machine words with a point between them. -/
def takePair? (cs : List Char) : Option ((Nat × Nat) × List Char) := do
  let (w, rest) ← takeNumber? cs
  match rest with
  | '.' :: rest => do
    let (d, rest) ← takeNumber? rest
    some ((w, d), rest)
  | _ => none

/-- A machine word as a signed word of 32 bits, higher bits dropped. -/
def narrow (n : Nat) : Int := Int.bmod n (Nat.pow 2 32)

def takeDescriptor? (cs : List Char) : Option (Descriptor × List Char) :=
  match cs with
  | [] => none
  | c :: rest =>
    if c == '\'' then
      (Text.cutAt (· == '\'') rest).map fun (text, rest) => (.literal text, rest)
    else
      match c.toLower with
      | 'e' => (takePair? rest).map fun ((w, d), rest) => (.exponent w d, rest)
      | 'f' => (takePair? rest).map fun ((w, d), rest) => (.fixed w d, rest)
      | 'g' => (takePair? rest).map fun ((w, d), rest) => (.general w d, rest)
      | 't' => (takeNumber? rest).map fun (n, rest) => (.tab n, rest)
      | 'a' =>
        match takeNumber? rest with
        | some (n, rest) => some (.chars (some n), rest)
        | none => some (.chars none, rest)
      | _ => do
        let (n, rest) ← takeNumber? cs
        match rest with
        | letter :: rest =>
          if letter.toLower == 'x' then some (.skip n, rest)
          else if letter.toLower == 'p' then some (.scale (narrow n), rest)
          else none
        | [] => none

def skipSeparator (cs : List Char) : List Char :=
  match skipGap cs with
  | ',' :: rest => rest
  | cs => cs

/-- The descriptors at the front, as many as there are. The fuel bounds their number. -/
def takeDescriptors : Nat → List Char → Format × List Char
  | 0, cs => ([], cs)
  | fuel + 1, cs =>
    match takeDescriptor? (skipGap cs) with
    | none => ([], cs)
    | some (d, rest) =>
      let (more, rest) := takeDescriptors fuel (skipSeparator rest)
      (d :: more, rest)

def Format.read (spec : String) : Outcome Format :=
  let cs := Text.trimChars spec.toList
  let refused := Fault.refused ("bad record format '" ++ spec ++ "'")
  match cs with
  | '(' :: rest =>
    match takeDescriptors rest.length rest with
    | (format, rest) => if skipGap rest = [')'] then .ok format else .error refused
  | _ =>
    match takeDescriptors cs.length cs with
    | (format, []) => .ok format
    | _ => .error refused

end Hydroseries.Record
