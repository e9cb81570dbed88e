import Hydroseries.Yaml.Cursor

/-!
# Tags, anchors and directives

A node may be named by an anchor and typed by a tag. A tag is a handle, which stands for the front of
the full tag, and the rest of it; a directive before the document says what a handle stands for.
Characters of a tag may be written as octets in hexadecimal digits.
-/

namespace Hydroseries.Yaml

/-! ### Names -/

/-- The name behind the mark of an anchor or an alias, and what follows. -/
def readName? (cs : List Char) : Option (String × List Char) :=
  let (name, rest) := cs.span isNameChar
  if name.isEmpty then none
  else if endsWord rest || rest.head?.any ("?:,]\x7d%@\x60".toList.contains ·) then
    some (String.ofList name, rest)
  else none

/-! ### Tags -/

structure TagName where
  /-- Empty where the rest is the full tag. -/
  handle : String
  rest : String
  deriving DecidableEq, Repr

/-- What the handles stand for that no directive binds. -/
def usualHandles : List (String × String) := [("!", "!"), ("!!", "tag:yaml.org,2002:")]

/-- The tag of a mark of exclamation on its own. -/
def bareTag : String := "!"

def nullTag : String := "tag:yaml.org,2002:null"

def boolTag : String := "tag:yaml.org,2002:bool"

/-- How many octets follow the first one of a character; `none` for an octet that begins none. -/
def octetsAfter? (octet : Nat) : Option Nat :=
  if octet < 0x80 then some 0
  else if octet / 0x20 == 0x6 then some 1
  else if octet / 0x10 == 0xE then some 2
  else if octet / 0x8 == 0x1E then some 3
  else none

def continues (octet : Nat) : Bool := octet / 0x40 == 0x2

/-- Characters of tags; between angle brackets there may also be commas and square brackets. -/
def isTagChar (angled : Bool) (c : Char) : Bool :=
  isNameChar c || ";/?:@&=+$.!~*'()".toList.contains c || (angled && ",[]".toList.contains c)

/-- The characters of a tag, and what follows; an octet becomes the character of its number. `wanted` is
the number of octets still to come. -/
def tagChars? (angled : Bool) (wanted : Nat) : List Char → Option (List Char × List Char)
  | [] => if wanted = 0 then some ([], []) else none
  | '%' :: d :: e :: cs => do
    let octet := 16 * (← hexDigit? d) + (← hexDigit? e)
    let wanted ← if wanted = 0 then octetsAfter? octet
      else if continues octet then some (wanted - 1) else none
    (tagChars? angled wanted cs).map fun (text, rest) => (Char.ofNat octet :: text, rest)
  | c :: cs =>
    if wanted ≠ 0 ∨ c = '%' then none
    else if isTagChar angled c then
      (tagChars? angled 0 cs).map fun (text, rest) => (c :: text, rest)
    else some ([], c :: cs)

/-- The characters of a tag up to an octet that is zero, and what follows all of them. Where
`needed`, there is at least one. -/
def readTagText? (angled needed : Bool) (cs : List Char) : Option (String × List Char) := do
  let (text, rest) ← tagChars? angled 0 cs
  if needed && text.isEmpty then none
  else some (String.ofList (text.takeWhile (· != '\x00')), rest)

/-- Reads a tag from behind its first mark, and what follows it. -/
def readTagName? (cs : List Char) : Option (TagName × List Char) :=
  match cs with
  | '<' :: cs => do
    let (text, rest) ← readTagText? true true cs
    if rest.head? == some '>' then some (⟨"", text⟩, rest.drop 1) else none
  | cs =>
    let (word, rest) := cs.span isNameChar
    match rest with
    | '!' :: rest => do
      let (text, rest) ← readTagText? false true rest
      some (⟨"!" ++ String.ofList word ++ "!", text⟩, rest)
    | rest => do
      let (text, rest) ← readTagText? false false rest
      let full := String.ofList word ++ text
      some (if full.isEmpty then ⟨"", bareTag⟩ else ⟨"!", full⟩, rest)

/-- Reads a tag from behind its first mark. It ends with its word, or inside braces before a comma. -/
def readTag? (flow : Bool) (cs : List Char) : Option (TagName × List Char) := do
  let (name, rest) ← readTagName? cs
  if endsWord rest || (flow && rest.head? == some ',') then some (name, rest) else none

/-! ### Directives -/

inductive Directive where
  /-- The version of the format. -/
  | version (major minor : Nat)
  /-- What a handle of tags stands for. -/
  | handle (handle stem : String)
  deriving DecidableEq, Repr

def readVersionNumber? (cs : List Char) : Option (Nat × List Char) :=
  let (digits, rest) := cs.span Char.isDigit
  if digits.isEmpty || digits.length > 9 then none
  else some (digits.foldl (fun n c => 10 * n + (c.toNat - '0'.toNat)) 0, rest)

def readVersion? (cs : List Char) : Option (Directive × List Char) := do
  let (major, rest) ← readVersionNumber? cs
  if rest.head? != some '.' then none
  let (minor, rest) ← readVersionNumber? (rest.drop 1)
  some (.version major minor, rest)

/-- A handle between marks of exclamation, or a single such mark. -/
def readHandle? (cs : List Char) : Option (String × List Char) :=
  match cs with
  | '!' :: cs =>
    let (word, rest) := cs.span isNameChar
    match rest with
    | '!' :: rest => some ("!" ++ String.ofList word ++ "!", rest)
    | rest => if word.isEmpty then some ("!", rest) else none
  | _ => none

/-- A handle, blanks, and what the handle stands for. -/
def readHandleMeaning? (cs : List Char) : Option (Directive × List Char) := do
  let (handle, rest) ← readHandle? cs
  if !rest.head?.any isSpace then none
  let (stem, rest) ← readTagText? true true (rest.dropWhile isSpace)
  if endsWord rest then some (.handle handle stem, rest) else none

/-- Reads a directive from behind its mark; it has a line of its own. -/
def readDirective? (c : Cursor) : Option (Directive × Cursor) := do
  let (name, rest) := c.rest.span isNameChar
  if !endsWord rest then none
  let body := rest.dropWhile isSpace
  let (directive, rest) ← match String.ofList name with
    | "YAML" => readVersion? body
    | "TAG" => readHandleMeaning? body
    | _ => none
  some (directive, ← (c.moveTo rest).nextLine?)

end Hydroseries.Yaml
