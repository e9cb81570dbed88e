import Hydroseries.OrderedMap
import Hydroseries.Yaml.Token

/-!
# Flat documents

A flat document is one mapping from scalars to scalars. The mapping is written as a block

    entry ::= key-mark node? (value-mark node?)?

or in braces with commas between the entries, where a value may also be missing altogether. A node is a
scalar with an anchor and a tag, in either order, or an alias; with an anchor or a tag the scalar itself
may be missing. A document that holds nothing is an empty mapping.
-/

namespace Hydroseries.Yaml

/-- A scalar as it stands in a document, or the name of another one. -/
inductive Node where
  | scalar (anchor : Option String) (value : Scalar)
  | alias (name : String)
  deriving DecidableEq, Repr

/-- The scalar that stands where nothing is written, as a node. -/
def Node.missing : Node := .scalar none .missing

structure Properties where
  anchor : Option String
  tag : Option String
  deriving DecidableEq, Repr

structure Document where
  anchor : Option String
  entries : List (Node × Node)
  deriving Repr

namespace Document

def empty : Document := ⟨none, []⟩

/-! ### Nodes -/

/-- The full form of a tag, unless its handle stands for nothing. -/
def fullTag? (handles : OrderedMap String String) (t : TagName) : Option String :=
  if t.handle.isEmpty then some t.rest else (handles.find? t.handle).map (· ++ t.rest)

/-- The properties at the front of some tokens. -/
def properties? (handles : OrderedMap String String) :
    List Token → Option (Properties × List Token)
  | .anchor a :: .tag t :: rest => (fullTag? handles t).map fun tag => (⟨some a, some tag⟩, rest)
  | .tag t :: .anchor a :: rest => (fullTag? handles t).map fun tag => (⟨some a, some tag⟩, rest)
  | .anchor a :: rest => some (⟨some a, none⟩, rest)
  | .tag t :: rest => (fullTag? handles t).map fun tag => (⟨none, some tag⟩, rest)
  | rest => some (⟨none, none⟩, rest)

/-- The node at the front of some tokens. The bare tag says nothing about a scalar that is written. -/
def node? (handles : OrderedMap String String) (tokens : List Token) : Option (Node × List Token) :=
  match tokens with
  | .alias name :: rest => some (.alias name, rest)
  | _ => do
    let (p, rest) ← properties? handles tokens
    match rest with
    | .scalar text style :: rest =>
      some (.scalar p.anchor ⟨text, style, p.tag.filter (· != bareTag)⟩, rest)
    | _ =>
      if p.anchor.isNone && p.tag.isNone then none
      else some (.scalar p.anchor { Scalar.missing with tag := p.tag }, rest)

/-- The node at the front of some tokens, the missing one before a token in `ends`. -/
def nodeBefore? (handles : OrderedMap String String) (ends : List Token) (tokens : List Token) :
    Option (Node × List Token) :=
  if tokens.head?.any (ends.contains ·) then some (.missing, tokens) else node? handles tokens

/-! ### Mappings -/

/-- The value at the front of some tokens, missing where there is no mark of one. -/
def valueNode? (handles : OrderedMap String String) (ends : List Token) :
    List Token → Option (Node × List Token)
  | .value :: rest => nodeBefore? handles ends rest
  | rest => some (.missing, rest)

/-- The entries of a block, from behind its beginning. The fuel bounds their number. -/
def blockEntries? (handles : OrderedMap String String) :
    Nat → List Token → Option (List (Node × Node) × List Token)
  | _, .mappingEnd :: rest => some ([], rest)
  | fuel + 1, .key :: rest => do
    let ends : List Token := [.key, .value, .mappingEnd]
    let (key, rest) ← nodeBefore? handles ends rest
    let (value, rest) ← valueNode? handles ends rest
    let (entries, rest) ← blockEntries? handles fuel rest
    some ((key, value) :: entries, rest)
  | _, _ => none

def braceEntry? (handles : OrderedMap String String) :
    List Token → Option ((Node × Node) × List Token)
  | .key :: rest => do
    let (key, rest) ← nodeBefore? handles [.value, .comma, .closeBrace] rest
    let (value, rest) ← valueNode? handles [.comma, .closeBrace] rest
    some ((key, value), rest)
  | tokens => (node? handles tokens).map fun (key, rest) => ((key, .missing), rest)

/-- The entries in braces, from behind the opening one. A comma may stand behind the last entry. The
fuel bounds the number of entries. -/
def braceEntries? (handles : OrderedMap String String) :
    Nat → List Token → Option (List (Node × Node) × List Token)
  | _, .closeBrace :: rest => some ([], rest)
  | 0, _ => none
  | fuel + 1, tokens => do
    let (entry, rest) ← braceEntry? handles tokens
    match rest with
    | .closeBrace :: rest => some ([entry], rest)
    | .comma :: rest =>
      let (entries, rest) ← braceEntries? handles fuel rest
      some (entry :: entries, rest)
    | _ => none

/-! ### The whole -/

/-- What the handles stand for in a document with the given directives, and the tokens behind them.
`versioned` says that there was a version before; only the versions 1.1 and 1.2 are known. -/
def directives? (versioned : Bool) (handles : OrderedMap String String) :
    List Token → Option (OrderedMap String String × List Token)
  | .directive (.version major minor) :: rest =>
    if versioned || major ≠ 1 || (minor ≠ 1 && minor ≠ 2) then none
    else directives? true handles rest
  | .directive (.handle handle stem) :: rest =>
    if handles.contains handle then none
    else directives? versioned (handles.insert handle stem) rest
  | rest => some (handles, rest)

/-- The handles of a document with those that are bound in every document. -/
def withUsualHandles (handles : OrderedMap String String) : OrderedMap String String :=
  usualHandles.foldl (fun m e => if m.contains e.1 then m else m.insert e.1 e.2) handles

/-- The mapping at the front of some tokens, which only the end of the document may follow. -/
def content? (handles : OrderedMap String String) (tokens : List Token) : Option Document := do
  let (p, rest) ← properties? handles tokens
  let (entries, rest) ← match rest with
    | .mappingStart :: rest => blockEntries? handles rest.length rest
    | .openBrace :: rest => braceEntries? handles rest.length rest
    -- What is not written at all stands for no entries.
    | _ => if p.anchor.isNone && p.tag.isNone then none else some ([], rest)
  if rest.all (· == .documentEnd) then some ⟨p.anchor, entries⟩ else none

/-- The only document of some tokens. Directives call for a mark at its beginning. -/
def ofTokens? (tokens : List Token) : Option Document := do
  let (handles, rest) ← directives? false .empty tokens
  let bound := withUsualHandles handles
  match rest with
  | .documentStart :: rest =>
    if rest.all (· == .documentEnd) then some empty else content? bound rest
  | [] => if tokens.isEmpty then some empty else none
  | _ => if rest.length == tokens.length then content? bound rest else none

/-! ### Aliases -/

/-- The anchors of a document. An anchor takes the number of names that are bound when it is read, and
a name that is bound again takes a new number; the last node with a number is what the number means. -/
structure Anchors where
  numbers : OrderedMap String Nat
  /-- The mapping has no scalar. -/
  meanings : OrderedMap Nat (Option Scalar)
  deriving Repr

namespace Anchors

def empty : Anchors := ⟨.empty, .empty⟩

/-- Binds an anchor, if there is one. -/
def bind (a : Anchors) (anchor : Option String) (meaning : Option Scalar) : Anchors :=
  match anchor with
  | none => a
  | some name =>
    let n := a.numbers.size
    ⟨a.numbers.insert name n, a.meanings.insert n meaning⟩

end Anchors

/-- A scalar, or the number of an anchor. -/
inductive Reference where
  | scalar (value : Scalar)
  | anchored (number : Nat)
  deriving Repr

/-- Binds the anchors of some nodes in order; an alias means an anchor before it. -/
def references? (a : Anchors) : List Node → Option (List Reference × Anchors)
  | [] => some ([], a)
  | .scalar anchor value :: rest =>
    (references? (a.bind anchor (some value)) rest).map fun (rs, a) => (.scalar value :: rs, a)
  | .alias name :: rest => do
    let n ← a.numbers.find? name
    (references? a rest).map fun (rs, a) => (.anchored n :: rs, a)

/-- The scalar that a reference means in the end. -/
def Reference.scalar? (a : Anchors) : Reference → Option Scalar
  | scalar value => some value
  | anchored n => (a.meanings.find? n).join

def pairs : List Scalar → List (Scalar × Scalar)
  | k :: v :: rest => (k, v) :: pairs rest
  | _ => []

/-- The entries of a document, with the scalars that its aliases mean. -/
def resolve? (d : Document) : Option (List (Scalar × Scalar)) := do
  let nodes := d.entries.flatMap fun (k, v) => [k, v]
  let (references, anchors) ← references? (Anchors.empty.bind d.anchor none) nodes
  let scalars ← references.mapM (Reference.scalar? anchors)
  some (pairs scalars)

def readEntries? (text : String) : Option (List (Scalar × Scalar)) := do
  (← ofTokens? (← Token.ofText? text)).resolve?

end Document

end Hydroseries.Yaml
