import Hydroseries.Stat.Summary
import Hydroseries.Decimal.Shortest

/-!
# Goodness of fit

How well simulated values agree with observed ones at the same moments. Efficiencies compare the
errors with the distance of the observed values from a base value: the value of a base series at the
same moment, or the mean of the observed values.
-/

namespace Hydroseries

/-- Simulated, observed and base values at common moments. -/
structure Paired (α : Type) where
  sim : List α
  obs : List α
  base : Option (List α) := none

inductive FitStatistic where
  | bias
  | standardError
  | relativeBias
  | relativeStandardError
  | nashSutcliffe
  | efficiency
  | agreement
  | volumetricEfficiency
  deriving DecidableEq, Repr

namespace FitStatistic

/-- All measures, in the order in which they are reported. -/
def all : List FitStatistic :=
  [bias, standardError, relativeBias, relativeStandardError, nashSutcliffe, efficiency, agreement,
   volumetricEfficiency]

def keyword : FitStatistic → String
  | bias => "bias"
  | standardError => "standard_error"
  | relativeBias => "relative_bias"
  | relativeStandardError => "relative_standard_error"
  | nashSutcliffe => "nash_sutcliffe"
  | efficiency => "coefficient_of_efficiency"
  | agreement => "index_of_agreement"
  | volumetricEfficiency => "volumetric_efficiency"

def label : FitStatistic → String
  | bias => "Bias:"
  | standardError => "Standard error:"
  | relativeBias => "Relative bias:"
  | relativeStandardError => "Relative standard error:"
  | nashSutcliffe => "Nash-Sutcliffe coefficient:"
  | efficiency => "Coefficient of efficiency:"
  | agreement => "Index of agreement:"
  | volumetricEfficiency => "Volumetric efficiency:"

end FitStatistic

namespace Paired

variable {α : Type} [Arith α] (p : Paired α)

/-- A quotient, undefined for a denominator of zero. -/
def ratio? (num den : α) : Option α := if den == Arith.zero then none else some (num / den)

def errors : List α := p.sim.zipWith (· - ·) p.obs

def meanError : α := Arith.sum p.errors / Arith.ofNat p.sim.length

def meanSquare : α := Arith.sum (p.errors.map fun e => e * e) / Arith.ofNat p.sim.length

def bases : List α := p.base.getD (p.obs.map fun _ => Arith.mean p.obs)

/-- The sum of powers of the errors' magnitudes. -/
def errorPower (exponent : Nat) : α :=
  Arith.sum (p.errors.map fun e => Arith.pow (Arith.abs e) exponent)

/-- One less the squared errors over the spread of the observed values. -/
def nashSutcliffe? : Option α :=
  (ratio? (p.meanSquare * Arith.ofNat p.sim.length)
    (Stat.squaredSpread p.obs (Arith.mean p.obs))).map (Arith.one - ·)

/-- One less the powers of the errors over those of the distances from the base. -/
def efficiency? (exponent : Nat) : Option α :=
  let distances := p.obs.zipWith (fun o b => Arith.pow (Arith.abs (o - b)) exponent) p.bases
  (ratio? (p.errorPower exponent) (Arith.sum distances)).map (Arith.one - ·)

/-- One less the powers of the errors over those of the two distances from the base together. -/
def agreement? (exponent : Nat) : Option α :=
  let distances := (p.sim.zip p.obs).zipWith (fun (s, o) b =>
    Arith.pow (Arith.abs (s - b) + Arith.abs (o - b)) exponent) p.bases
  (ratio? (p.errorPower exponent) (Arith.sum distances)).map (Arith.one - ·)

/-- One less the sum of the errors' magnitudes over the observed volume. -/
def volumetricEfficiency? : Option α :=
  (ratio? (Arith.sum (p.errors.map Arith.abs)) (Arith.sum p.obs)).map (Arith.one - ·)

end Paired

/-- The value of a measure, unless a denominator is zero. -/
def FitStatistic.value? {α : Type} [Transcendental α] (p : Paired α) (exponent : Nat) :
    FitStatistic → Option α
  | bias => some p.meanError
  | standardError => some (Transcendental.sqrt p.meanSquare)
  | relativeBias => Paired.ratio? p.meanError (Arith.mean p.obs)
  | relativeStandardError => Paired.ratio? (Transcendental.sqrt p.meanSquare) (Arith.mean p.obs)
  | nashSutcliffe => p.nashSutcliffe?
  | efficiency => p.efficiency? exponent
  | agreement => p.agreement? exponent
  | volumetricEfficiency => p.volumetricEfficiency?

/-- The value of a measure. There must be as many observed values as simulated ones, and at least
one. -/
def FitStatistic.compute {α : Type} [Transcendental α] (s : FitStatistic) (p : Paired α)
    (exponent : Nat) : Outcome α :=
  if p.sim.isEmpty || p.obs.length != p.sim.length then
    .error (.refused "no common timestamps between simulated and observed series")
  else
    match s.value? p exponent with
    | some v => .ok v
    | none =>
      .error (.refused "statistic is undefined: observed values give a zero denominator")

/-- The exponent of the efficiencies, one or two. -/
def checkExponent (exponent : Double) : Outcome Nat :=
  if exponent == 1.0 then .ok 1
  else if exponent == 2.0 then .ok 2
  else .error (.invalid "exponent" (Decimal.plain exponent) "must be 1 or 2")

end Hydroseries
