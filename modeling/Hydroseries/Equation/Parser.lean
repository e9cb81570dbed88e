import Hydroseries.Equation.Expr

/-!
# Reading equations

    expr  = term   (('+' | '-') term)*
    term  = unary  (('*' | '/') unary)*
    unary = '-' unary | power
    power = atom   (('^' | '**') unary)?
    atom  = number | special | function '(' expr ')' | name | '(' expr ')'

Powers associate to the right. Spaces, tabs and line ends may stand between tokens.

A reader either takes something from the front of the text, or misses, and then another reader may be
tried, or stops, and then none is. A miss and a stop remember where they happened; of several readers
that miss, the place of the last one is kept.
-/

namespace Hydroseries.Equation

inductive Reply (α : Type) where
  | done (value : α) (rest : List Char)
  | miss (place : List Char)
  | stop (place : List Char)

/-- A reader of the front of a text. -/
abbrev Reader (α : Type) := List Char → Reply α

namespace Reply

/-- Goes on after a reader that has taken something. -/
def andThen {α β : Type} (r : Reply α) (next : α → List Char → Reply β) : Reply β :=
  match r with
  | done v rest => next v rest
  | miss place => miss place
  | stop place => stop place

def orElse {α : Type} (r : Reply α) (other : Unit → Reply α) : Reply α :=
  match r with
  | miss _ => other ()
  | r => r

end Reply

/-! ### Tokens -/

/-- Characters that may stand between tokens. -/
def isGap (c : Char) : Bool := c == ' ' || c == '\t' || c == '\r' || c == '\n'

/-- Skips what may stand between tokens. -/
def skipGap (cs : List Char) : List Char := cs.dropWhile isGap

/-- Takes one character and the gaps around it. -/
def sign (c : Char) : Reader Unit := fun cs =>
  match skipGap cs with
  | d :: rest => if d == c then .done () (skipGap rest) else .miss (d :: rest)
  | [] => .miss []

/-- Takes a word, whatever the case of its letters. -/
def word (w : String) : Reader Unit := fun cs =>
  match Pattern.dropWord? w.toList cs with
  | some rest => .done () rest
  | none => .miss cs

/-- Takes `n` characters. -/
def exactly (n : Nat) : Reader (List Char) := fun cs =>
  if n ≤ cs.length then .done (cs.take n) (cs.drop n) else .miss cs

/-- The digits at the front, at least one. -/
def digits : Reader (List Char) := fun cs =>
  match cs.span Text.isDigit with
  | ([], _) => .miss cs
  | (ds, rest) => .done ds rest

/-- The exponent of a number. Once its mark has been seen, digits must follow. -/
def exponent : Reader Unit := fun cs =>
  match cs with
  | c :: rest =>
    if c == 'e' || c == 'E' then
      let rest := (Text.splitSign rest).2
      match digits rest with
      | .done _ rest => .done () rest
      | _ => .stop rest
    else .done () cs
  | [] => .done () cs

/-- Digits with an optional point, or a point and digits. -/
def mantissa : Reader Unit := fun cs =>
  match cs with
  | '.' :: rest => (digits rest).andThen fun _ rest => .done () rest
  | _ => (digits cs).andThen fun _ rest =>
    match rest with
    | '.' :: rest => .done () (rest.dropWhile Text.isDigit)
    | _ => .done () rest

def number : Reader Expr := fun cs =>
  (mantissa cs).andThen fun _ rest => (exponent rest).andThen fun _ rest =>
    match Text.Numeral.ofChars? (cs.take (cs.length - rest.length)) with
    | some n => .done (.number n.toDouble) rest
    | none => .miss cs

def opensName (c : Char) : Bool := c.isAlpha || c == '_'

def continuesName (c : Char) : Bool := c.isAlphanum || c == '_' || c == '.'

def identifier : Reader String := fun cs =>
  match cs with
  | c :: rest =>
    if opensName c then
      .done (String.ofList (c :: rest.takeWhile continuesName)) (rest.dropWhile continuesName)
    else .miss cs
  | [] => .miss []

/-- The day and time of day written as `mm/dd/yyyy_hh:mm:ss`. -/
def readOrigin? (stamp : List Char) : Option DayOrigin := do
  let g ← Pattern.gather? (Pattern.itemsOf "%m/%d/%Y_%H:%M:%S".toList) stamp
  let day ← g.date?
  let (h, m, s) ← g.clock?
  some ⟨day, ⟨h, m, s⟩⟩

/-- Days since an origin, which stands between two delimiters of one character each. -/
def daysSince : Reader Expr := fun cs =>
  (word "@_days_" cs).andThen fun _ rest => (exactly 1 rest).andThen fun _ rest =>
    (exactly 19 rest).andThen fun stamp rest => (exactly 1 rest).andThen fun _ rest =>
      match readOrigin? stamp with
      | some origin => .done (.daysSince origin) rest
      | none => .miss cs

def special : Reader Expr := fun cs =>
  ((word "@_days_start_year" cs).andThen fun _ rest => .done Expr.dayOfYear rest).orElse fun _ =>
    ((word "@_abs_value" cs).andThen fun _ rest => .done Expr.absValue rest).orElse fun _ =>
      daysSince cs

/-! ### Expressions -/

/-- An expression in parentheses, with gaps before and after them. -/
def parenthesized (expr : Reader Expr) : Reader Expr := fun cs =>
  (sign '(' cs).andThen fun _ rest => (expr rest).andThen fun e rest =>
    (sign ')' rest).andThen fun _ rest => .done e rest

/-- A name, or a function and its argument. An unknown function stops the reading. -/
def callOrName (expr : Reader Expr) : Reader Expr := fun cs =>
  (identifier cs).andThen fun n rest =>
    match parenthesized expr rest with
    | .done arg after =>
      match Function.ofName? n with
      | some f => .done (.call f arg) after
      | none => .stop cs
    -- No argument follows, so it is a name; the gap before it is left alone.
    | .miss _ => .done (.name n) rest
    | .stop place => .stop place

def group (expr : Reader Expr) : Reader Expr := fun cs =>
  match cs with
  | '(' :: _ => parenthesized expr cs
  | _ => .miss cs

def atom (expr : Reader Expr) : Reader Expr := fun cs =>
  let cs := skipGap cs
  let found := (number cs).orElse fun _ => (special cs).orElse fun _ =>
    (callOrName expr cs).orElse fun _ => group expr cs
  found.andThen fun e rest => .done e (skipGap rest)

def powerSign : Reader Unit := fun cs =>
  match skipGap cs with
  | '*' :: '*' :: rest => .done () (skipGap rest)
  | '^' :: rest => .done () (skipGap rest)
  | cs => .miss cs

/-- An atom, or an atom raised to a power. -/
def power (expr unary : Reader Expr) : Reader Expr := fun cs =>
  (atom expr cs).andThen fun base rest =>
    match (powerSign rest).andThen fun _ rest => unary rest with
    | .done e after => .done (.binary .pow base e) after
    -- Not raised to a power after all.
    | .miss _ => .done base rest
    | .stop place => .stop place

/-- Minus signs before a power. The fuel bounds the depth of signs and powers. -/
def unary (expr : Reader Expr) : Nat → Reader Expr
  | 0, cs => .stop cs
  | fuel + 1, cs =>
    ((sign '-' cs).andThen fun _ rest => (unary expr fuel rest).andThen fun e rest =>
      .done (.neg e) rest).orElse fun _ => power expr (unary expr fuel) cs

/-- Goes on with operations of one level as long as a sign and an operand follow. The fuel bounds
their number. -/
def chain (signs : List (Char × BinaryOp)) (operand : Reader Expr) : Nat → Expr → Reader Expr
  | 0, e, cs => .done e cs
  | fuel + 1, e, cs =>
    match skipGap cs with
    | [] => .done e cs
    | c :: rest =>
      match signs.lookup c with
      | none => .done e cs
      | some op =>
        match operand (skipGap rest) with
        | .done r rest => chain signs operand fuel (.binary op e r) rest
        -- A sign without an operand behind it is not part of the expression.
        | .miss _ => .done e cs
        | .stop place => .stop place

/-- Products and quotients, from the left. -/
def term (expr : Reader Expr) (fuel : Nat) : Reader Expr := fun cs =>
  (unary expr fuel cs).andThen fun e rest =>
    chain [('*', .mul), ('/', .div)] (unary expr fuel) fuel e rest

/-- Sums and differences, from the left. The first number bounds the depth of parentheses, the second
one the length of everything else. -/
def expression : Nat → Nat → Reader Expr
  | 0, _, cs => .stop cs
  | depth + 1, fuel, cs =>
    let operand := term (expression depth fuel) fuel
    (operand cs).andThen fun e rest => chain [('+', .add), ('-', .sub)] operand fuel e rest

/-- The fault of a text that is no equation. -/
def notReadable (source : String) (place : List Char) : Fault :=
  .equation ("cannot parse '" ++ Text.trim source ++ "' near '" ++
    String.ofList (Text.trimChars place) ++ "'")

def read (source : String) : Outcome Expr :=
  let cs := source.toList
  let fuel := cs.length + 1
  match expression fuel fuel (skipGap cs) with
  | .done e rest =>
    match skipGap rest with
    | [] => .ok e
    | rest => .error (notReadable source rest)
  | .miss place => .error (notReadable source place)
  | .stop place => .error (notReadable source place)

end Hydroseries.Equation
