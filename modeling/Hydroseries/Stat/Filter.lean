import Hydroseries.Arith
import Hydroseries.Decimal.Shortest
import Hydroseries.Fault

/-!
# Digital filters

Butterworth filters are cascades of sections of second order, and one of first order for an odd count;
the cutoff is corrected for the warping of frequencies. The baseflow filter of Chapman has a single
parameter.
-/

namespace Hydroseries.Filter

inductive Pass where
  | low
  | high
  | band
  deriving DecidableEq, Repr

def Pass.read (text : String) : Outcome Pass :=
  match Text.lower (Text.trim text) with
  | "low" => .ok low
  | "high" => .ok high
  | "band" | "bandpass" => .ok band
  | _ => .error (.invalid "filter_pass" text "expected low, high or band")

/-! ### Sections -/

/-- A section of second order, by the weights of the present and the two past inputs and of the two
past outputs. -/
structure Section where
  b₀ : Double
  b₁ : Double
  b₂ : Double
  a₁ : Double
  a₂ : Double
  deriving Repr

/-- The output of a section from the past inputs and outputs on. -/
def Section.runFrom (s : Section) (x₁ x₂ y₁ y₂ : Double) : List Double → List Double
  | [] => []
  | x :: rest =>
    let y := s.b₀ * x + s.b₁ * x₁ + s.b₂ * x₂ - s.a₁ * y₁ - s.a₂ * y₂
    y :: s.runFrom x x₁ y y₁ rest

def Section.run (s : Section) (input : List Double) : List Double := s.runFrom 0 0 0 0 input

/-- The output of the last of several sections in a row. -/
def cascade (sections : List Section) (input : List Double) : List Double :=
  sections.foldl (fun acc s => s.run acc) input

def pi : Double := 3.141592653589793

/-- The section of second order of the `i`-th pair of poles. -/
def pairSection (k : Double) (order i : Nat) (high : Bool) : Section :=
  let theta := pi * Double.ofNat (2 * i + 1) / Double.ofNat (2 * order)
  let q := 1.0 / (2.0 * theta.sin)
  let norm := 1.0 / (1.0 + k / q + k * k)
  let a₁ := 2.0 * (k * k - 1.0) * norm
  let a₂ := (1.0 - k / q + k * k) * norm
  if high then ⟨norm, -2.0 * norm, norm, a₁, a₂⟩
  else
    let b₀ := k * k * norm
    ⟨b₀, 2.0 * b₀, b₀, a₁, a₂⟩

def singleSection (k : Double) (high : Bool) : Section :=
  let norm := 1.0 / (1.0 + k)
  let a₁ := (k - 1.0) * norm
  if high then ⟨norm, -norm, 0.0, a₁, 0.0⟩ else ⟨k * norm, k * norm, 0.0, a₁, 0.0⟩

/-- The sections of a filter of a given order. The cutoff is given in cycles, the rate in samples per
unit of time. -/
def sections (order : Nat) (cutoff rate : Double) (high : Bool) : Outcome (List Section) := do
  if order = 0 then throw (.invalid "stages" "0" "must be at least 1")
  if !(0.0 < cutoff && cutoff < rate / 2.0) then
    throw (.invalid "cutoff_frequency" (Decimal.plain cutoff)
      ("must be between 0 and the Nyquist frequency " ++ Decimal.plain (rate / 2.0)))
  let k := (pi * cutoff / rate).tan
  let pairs := (List.range (order / 2)).map fun i => pairSection k order i high
  pure (if order % 2 = 1 then pairs ++ [singleSection k high] else pairs)

/-! ### Butterworth filters -/

/-- A Butterworth filter; cutoffs are in cycles a day. -/
structure Butterworth where
  pass : Pass
  cutoff : Double
  /-- The upper edge of a band. -/
  upperCutoff : Option Double
  stages : Nat
  reverseSecondStage : Bool
  deriving Repr

/-- The filtered values. A low pass of two stages can run its second stage backward in time. -/
def Butterworth.apply (f : Butterworth) (values : List Double) (rate : Double) :
    Outcome (List Double) := do
  match f.pass with
  | .band =>
    match f.upperCutoff with
    | none =>
      throw (.refused "band pass filtering needs CUTOFF_FREQUENCY_1 and CUTOFF_FREQUENCY_2")
    | some upper =>
      if upper ≤ f.cutoff then
        throw (.refused "CUTOFF_FREQUENCY_1 must be below CUTOFF_FREQUENCY_2")
      let above ← sections f.stages f.cutoff rate true
      let below ← sections f.stages upper rate false
      pure (cascade below (cascade above values))
  | .low =>
    if f.reverseSecondStage && f.stages == 2 then
      let stage ← sections 1 f.cutoff rate false
      -- Backward in time the second stage undoes the delay of the first.
      pure (cascade stage (cascade stage values).reverse).reverse
    else
      pure (cascade (← sections f.stages f.cutoff rate false) values)
  | .high => pure (cascade (← sections f.stages f.cutoff rate true) values)

/-! ### Baseflow -/

structure Chapman (α : Type) where
  alpha : α
  /-- One pass forward, or three: forward, backward and forward. -/
  passes : Nat
  clipInput : Bool
  clipZero : Bool

namespace Chapman

variable {α : Type} [Arith α]

/-- Clips a value to the flow and to zero, as the settings ask for. -/
def clip (f : Chapman α) (flow b : α) : α :=
  let b := if f.clipInput then Arith.min b flow else b
  if f.clipZero then Arith.max b Arith.zero else b

/-- One pass after an output, over the flow and the input. -/
def passFrom (f : Chapman α) (previous : Option α) : List (α × α) → List α
  | [] => []
  | (flow, q) :: rest =>
    let k := f.alpha
    let two : α := Arith.ofNat 2
    let b := match previous with
      | none => q
      | some p => k / (two - k) * p + (Arith.one - k) / (two - k) * q
    let b := f.clip flow b
    b :: f.passFrom (some b) rest

/-- One pass over the flow and the input. -/
def pass (f : Chapman α) (flow input : List α) : List α := f.passFrom none (flow.zip input)

/-- The passes of a filter whose settings have been checked. -/
def run (f : Chapman α) (flow : List α) : List α :=
  let forward := f.pass flow flow
  if f.passes = 3 then
    let backward := f.pass flow.reverse forward.reverse
    f.pass flow backward.reverse
  else forward

/-- The baseflow, for settings in their range. A fault says the parameter as `write` spells it. -/
def applyWith (write : α → String) (f : Chapman α) (flow : List α) : Outcome (List α) :=
  if !(Arith.zero < f.alpha && f.alpha < Arith.one) then
    .error (.invalid "alpha" (write f.alpha) "must be between 0 and 1")
  else if f.passes ≠ 1 ∧ f.passes ≠ 3 then
    .error (.invalid "passes" (toString f.passes) "must be 1 or 3")
  else .ok (f.run flow)

end Chapman

/-- The baseflow of floats. -/
def Chapman.apply (f : Chapman Double) (flow : List Double) : Outcome (List Double) :=
  f.applyWith Decimal.plain flow

/-- The settings of the baseflow filter where a block gives none. -/
def Chapman.usual : Chapman Double := ⟨0.925, 1, false, false⟩

end Hydroseries.Filter
