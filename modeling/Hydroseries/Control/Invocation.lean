import Hydroseries.Control.Block

/-!
# Invocations

One invocation is one command with the values of its keywords. A value is a single text, or a list of
texts for commands that keep the values of several lines or words together.
-/

namespace Hydroseries.Control

inductive Value where
  | scalar (text : String)
  | list (texts : List String)
  deriving DecidableEq, Repr

namespace Value

def entries : Value → List String
  | scalar s => [s]
  | list texts => texts

def first? (v : Value) : Option String := v.entries.head?

def tokens (v : Value) : List String := v.entries.flatMap Text.words

/-- The texts with `sep` between them. -/
def joined (v : Value) (sep : String) : String := Text.join sep v.entries

def isBlank (v : Value) : Bool := v.entries.all Text.isAllBlank

end Value

/-- A command in capitals and its keyword entries in the order of the file. A keyword may occur more
than once; the first entry counts. -/
structure Invocation where
  command : String
  startLine : Nat
  entries : List (String × Value)
  deriving DecidableEq, Repr

namespace Invocation

def find? (i : Invocation) (keyword : String) : Option Value := i.entries.lookup keyword

/-- The run context that the block belongs to. -/
def context? (i : Invocation) : Option String := (i.find? "context").bind Value.first?

/-- The keywords without repetitions, in the order of their first entries. -/
def keywords (i : Invocation) : List String := (i.entries.map Prod.fst).eraseDups

def origin (i : Invocation) : Origin := ⟨i.command, i.startLine⟩

end Invocation

inductive NoticeKind where
  | deprecated
  | notUnrolled
  | synthesizedMinMax
  | ignoredKeyword
  deriving DecidableEq, Repr

def NoticeKind.label : NoticeKind → String
  | deprecated => "deprecated"
  | notUnrolled => "not-unrolled"
  | synthesizedMinMax => "synthesized-min-max"
  | ignoredKeyword => "ignored-keyword"

structure Notice where
  kind : NoticeKind
  origin : Origin
  message : String
  deriving DecidableEq, Repr

def Notice.text (n : Notice) : String :=
  "[" ++ n.kind.label ++ "] " ++ n.origin.text ++ ": " ++ n.message

end Hydroseries.Control
