import Hydroseries.Arith
import Hydroseries.Time.DateFormat

/-!
# Equations

An equation is an expression over numbers, names of entities and a few specials that stand for dates
or for the value at hand.
-/

namespace Hydroseries.Equation

inductive BinaryOp where
  | add
  | sub
  | mul
  | div
  | pow
  deriving DecidableEq, Repr

def BinaryOp.name : BinaryOp → String
  | add => "add"
  | sub => "sub"
  | mul => "mul"
  | div => "div"
  | pow => "pow"

def BinaryOp.apply {α : Type} [Transcendental α] : BinaryOp → α → α → α
  | add, a, b => a + b
  | sub, a, b => a - b
  | mul, a, b => a * b
  | div, a, b => a / b
  | pow, a, b => Transcendental.rpow a b

inductive Function where
  | abs
  | sqrt
  | exp
  | log
  | log10
  | sin
  | cos
  | tan
  deriving DecidableEq, Repr

namespace Function

def all : List Function := [abs, sqrt, exp, log, log10, sin, cos, tan]

def name : Function → String
  | abs => "abs"
  | sqrt => "sqrt"
  | exp => "exp"
  | log => "log"
  | log10 => "log10"
  | sin => "sin"
  | cos => "cos"
  | tan => "tan"

/-- The function of a name, whatever its case; the natural logarithm has two names. -/
def ofName? (word : String) : Option Function :=
  let word := Text.lower word
  if word = "ln" then some log else all.find? fun f => f.name = word

def apply : Function → Double → Double
  | abs, x => x.abs
  | sqrt, x => Transcendental.sqrt x
  | exp, x => Transcendental.exp x
  | log, x => Transcendental.ln x
  | log10, x => Transcendental.log10 x
  | sin, x => Transcendental.sin x
  | cos, x => Transcendental.cos x
  | tan, x => Transcendental.tan x

end Function

/-- A day and a time of day from which days are counted. The second may be the sixtieth, which lies
between the second 59 and the next minute. -/
structure DayOrigin where
  day : Date
  clock : Clock
  deriving DecidableEq, Repr

namespace DayOrigin

/-- The origin as a day and a time of day. -/
def text (o : DayOrigin) : String :=
  o.day.text ++ "T" ++ Timestamp.twoDigits o.clock.hours ++ ":" ++
    Timestamp.twoDigits o.clock.minutes ++ ":" ++ Timestamp.twoDigits o.clock.seconds

/-- Whole seconds from the origin to `t`, cut toward zero. The extra second of a minute of sixty-one
counts for the times of day after it. -/
def secondsUntil (o : DayOrigin) (t : Timestamp) : Int :=
  let extra := o.clock.seconds = 60
  let clock := if extra then { o.clock with seconds := 59 } else o.clock
  let start := Timestamp.ofDate o.day (clock.totalSeconds * Timestamp.secondNanos)
  let passed := t.sinceMidnight / Timestamp.secondNanos > clock.totalSeconds
  let span := t.since start - if extra ∧ ¬passed then Timestamp.secondNanos else 0
  span.tdiv Timestamp.secondNanos

end DayOrigin

inductive Expr where
  | number (value : Double)
  | name (text : String)
  /-- The day of the year of each moment. -/
  | dayOfYear
  /-- The days that have passed since an origin. -/
  | daysSince (origin : DayOrigin)
  /-- The magnitude of the value that a weight is computed for. -/
  | absValue
  | neg (e : Expr)
  | binary (op : BinaryOp) (lhs rhs : Expr)
  | call (f : Function) (arg : Expr)
  deriving Repr

namespace Expr

/-- The names in the order of their occurrences, repetitions included. -/
def names : Expr → List String
  | name n => [n]
  | neg e | call _ e => e.names
  | binary _ l r => l.names ++ r.names
  | number _ | dayOfYear | daysSince _ | absValue => []

def usesDates : Expr → Bool
  | dayOfYear | daysSince _ => true
  | neg e | call _ e => e.usesDates
  | binary _ l r => l.usesDates || r.usesDates
  | number _ | name _ | absValue => false

end Expr

end Hydroseries.Equation
