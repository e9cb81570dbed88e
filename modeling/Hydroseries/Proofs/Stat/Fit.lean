import Hydroseries.Proofs.Arith.Rational
import Hydroseries.Stat.Fit
import Mathlib.Algebra.Order.BigOperators.Group.List
import Mathlib.Algebra.Order.Field.Basic

/-!
# Bounds of the measures of fit

The efficiencies and the index of agreement are scores: one less a quotient of two sums of powers, each
with one term for every moment (`Score`). Over the rationals a score is at most one, and it is one
exactly if its numerator is zero, that is if no moment has an error. The index of agreement is not
negative either, since the error at a moment is at most the way from one value to the base and on to the
other (`compute_score_bounds`).
-/

namespace Hydroseries

/-- Functions on the rationals in the places of the roots, exponentials and the like. No score uses
any. -/
structure Elementary where
  sqrt : ℚ → ℚ
  exp : ℚ → ℚ
  ln : ℚ → ℚ
  log10 : ℚ → ℚ
  sin : ℚ → ℚ
  cos : ℚ → ℚ
  tan : ℚ → ℚ
  rpow : ℚ → ℚ → ℚ

/-- Exact arithmetic, with the functions `f`. -/
@[reducible] def Elementary.arithmetic (f : Elementary) : Transcendental ℚ :=
  { Arith.rational with
    sqrt := f.sqrt, exp := f.exp, ln := f.ln, log10 := f.log10, sin := f.sin, cos := f.cos,
    tan := f.tan, rpow := f.rpow }

/-! ## Sums of powers -/

section Powers

variable {β : Type} {ts : List β} {g : β → ℚ} {exponent : ℕ}

theorem pow_nonneg_of_mem (hg : ∀ t ∈ ts, 0 ≤ g t) : ∀ x ∈ ts.map fun t => g t ^ exponent, 0 ≤ x := by
  intro x hx
  obtain ⟨t, ht, rfl⟩ := List.mem_map.mp hx
  exact pow_nonneg (hg t ht) exponent

theorem sum_pow_nonneg (hg : ∀ t ∈ ts, 0 ≤ g t) : 0 ≤ (ts.map fun t => g t ^ exponent).sum :=
  List.sum_nonneg (pow_nonneg_of_mem hg)

theorem sum_pow_eq_zero_iff (hexponent : exponent ≠ 0) (hg : ∀ t ∈ ts, 0 ≤ g t) :
    (ts.map fun t => g t ^ exponent).sum = 0 ↔ ∀ t ∈ ts, g t = 0 := by
  constructor
  · intro hsum t ht
    have hpow := List.all_zero_of_le_zero_le_of_sum_eq_zero (pow_nonneg_of_mem hg) hsum
      (List.mem_map_of_mem ht)
    exact (pow_eq_zero_iff hexponent).mp hpow
  · intro hzero
    refine List.sum_eq_zero fun x hx => ?_
    obtain ⟨t, ht, rfl⟩ := List.mem_map.mp hx
    rw [hzero t ht, zero_pow hexponent]

end Powers

/-! ## Scores -/

/-- One less a quotient, refused for a denominator of zero. -/
def score (num den : ℚ) : Outcome ℚ :=
  if den = 0 then .error (.refused "statistic is undefined: observed values give a zero denominator")
  else .ok (1 - num / den)

section Score

variable {num den v : ℚ}

theorem score_eq_ok : score num den = .ok v ↔ den ≠ 0 ∧ 1 - num / den = v := by
  unfold score
  split
  next hden => simp [hden]
  next hden => simp [hden]

theorem score_le_one (hnum : 0 ≤ num) (hden : 0 ≤ den) (h : score num den = .ok v) : v ≤ 1 := by
  obtain ⟨-, rfl⟩ := score_eq_ok.mp h
  exact sub_le_self 1 (div_nonneg hnum hden)

theorem score_eq_one_iff (h : score num den = .ok v) : v = 1 ↔ num = 0 := by
  obtain ⟨hden, rfl⟩ := score_eq_ok.mp h
  rw [sub_eq_self, div_eq_zero_iff, or_iff_left hden]

theorem score_nonneg (hnum : 0 ≤ num) (hle : num ≤ den) (h : score num den = .ok v) : 0 ≤ v := by
  obtain ⟨-, rfl⟩ := score_eq_ok.mp h
  exact sub_nonneg.mpr (div_le_one_of_le₀ hle (hnum.trans hle))

end Score

/-! ## The three sums -/

/-- A simulated, an observed and a base value. -/
abbrev Triple := ℚ × ℚ × ℚ

namespace Triple

/-- The distance of the simulated value from the observed one. -/
def error (t : Triple) : ℚ := |t.1 - t.2.1|

/-- The distance of the observed value from the base. -/
def spread (t : Triple) : ℚ := |t.2.1 - t.2.2|

/-- The way from the simulated value to the base and on to the observed one. -/
def detour (t : Triple) : ℚ := |t.1 - t.2.2| + |t.2.1 - t.2.2|

variable {t : Triple}

theorem error_nonneg : 0 ≤ t.error := abs_nonneg _

theorem spread_nonneg : 0 ≤ t.spread := abs_nonneg _

theorem detour_nonneg : 0 ≤ t.detour := add_nonneg (abs_nonneg _) (abs_nonneg _)

theorem error_le_detour : t.error ≤ t.detour := by
  rw [detour, abs_sub_comm t.2.1]
  exact abs_sub_le t.1 t.2.2 t.2.1

theorem error_eq_zero_iff : t.error = 0 ↔ t.1 = t.2.1 := abs_eq_zero.trans sub_eq_zero

theorem spread_eq_zero_iff : t.spread = 0 ↔ t.2.1 = t.2.2 := abs_eq_zero.trans sub_eq_zero

theorem detour_eq_zero_iff : t.detour = 0 ↔ t.1 = t.2.2 ∧ t.2.1 = t.2.2 := by
  rw [detour, add_eq_zero_iff_of_nonneg (abs_nonneg _) (abs_nonneg _), abs_eq_zero, abs_eq_zero,
    sub_eq_zero, sub_eq_zero]

end Triple

namespace Paired

/-- There are values, as many observed ones as simulated ones, and as many base values, if any. -/
structure Matched (p : Paired ℚ) : Prop where
  sim_ne_nil : p.sim ≠ []
  obs_length : p.obs.length = p.sim.length
  base_length : ∀ base ∈ p.base, base.length = p.sim.length

/-- The values at each moment. -/
def triples (p : Paired ℚ) : List Triple := p.sim.zip (p.obs.zip p.bases)

namespace Matched

variable {p : Paired ℚ} (hp : p.Matched)
include hp

theorem bases_length : p.bases.length = p.sim.length := by
  unfold bases
  cases hbase : p.base with
  | none => rw [Option.getD_none, List.length_map, hp.obs_length]
  | some base => exact hp.base_length base hbase

theorem map_sim : p.triples.map (fun t => t.1) = p.sim :=
  List.map_fst_zip (by simp [hp.obs_length, hp.bases_length])

theorem map_snd : p.triples.map Prod.snd = p.obs.zip p.bases :=
  List.map_snd_zip (by simp [hp.obs_length, hp.bases_length])

theorem map_obs : p.triples.map (fun t => t.2.1) = p.obs := by
  have hfst := congrArg (List.map Prod.fst) hp.map_snd
  rwa [List.map_map, List.map_fst_zip (by simp [hp.obs_length, hp.bases_length])] at hfst

theorem map_bases : p.triples.map (fun t => t.2.2) = p.bases := by
  have hsnd := congrArg (List.map Prod.snd) hp.map_snd
  rwa [List.map_map, List.map_snd_zip (by simp [hp.obs_length, hp.bases_length])] at hsnd

theorem errors_eq : p.errors = p.triples.map fun t => t.1 - t.2.1 := by
  rw [errors, ← hp.map_sim, ← hp.map_obs, List.zipWith_map, List.zipWith_self]

theorem errorPower_eq (exponent : ℕ) :
    p.errorPower exponent = (p.triples.map fun t => t.error ^ exponent).sum := by
  simp only [errorPower, hp.errors_eq, Arith.sum_rational, Arith.pow_rational, Arith.abs_rational,
    List.map_map]
  rfl

/-- With values to compare, a measure that is one less a quotient is a score. -/
theorem compute_eq_score (f : Elementary) {s : FitStatistic} {exponent : ℕ} {num den : ℚ}
    (hvalue : @FitStatistic.value? ℚ f.arithmetic p exponent s =
      (ratio? num den).map (Arith.one - ·)) :
    @FitStatistic.compute ℚ f.arithmetic s p exponent = score num den := by
  have hlengths : (p.sim.isEmpty || p.obs.length != p.sim.length) = false := by
    simp [hp.sim_ne_nil, hp.obs_length]
  unfold FitStatistic.compute score
  rw [hlengths, if_neg Bool.false_ne_true, hvalue]
  by_cases hden : den = 0
  · have hratio : ratio? num den = none := if_pos (beq_iff_eq.mpr hden)
    rw [hratio, if_pos hden]
    rfl
  · have hratio : ratio? num den = some (num / den) := if_neg fun h => hden (beq_iff_eq.mp h)
    rw [hratio, if_neg hden]
    exact congrArg (fun one => Except.ok (one - num / den)) Arith.one_rational

/-- The Nash-Sutcliffe coefficient squares the errors for any exponent. -/
theorem compute_nashSutcliffe (f : Elementary) (exponent : ℕ) :
    @FitStatistic.compute ℚ f.arithmetic .nashSutcliffe p exponent =
      score (p.triples.map fun t => t.error ^ 2).sum
        (p.obs.map fun o => |o - Arith.mean p.obs| ^ 2).sum := by
  refine hp.compute_eq_score f ?_
  have hlength : (p.sim.length : ℚ) ≠ 0 := by
    simp [hp.sim_ne_nil]
  have herrors : p.meanSquare * (p.sim.length : ℚ) = (p.triples.map fun t => t.error ^ 2).sum := by
    have hsum : Arith.sum (p.errors.map fun e => e * e) =
        (p.triples.map fun t => t.error ^ 2).sum := by
      simp only [Arith.sum_rational, hp.errors_eq, List.map_map, Triple.error, pow_two,
        abs_mul_abs_self]
      rfl
    rw [← hsum]
    exact div_mul_cancel₀ (Arith.sum (p.errors.map fun e => e * e)) hlength
  have hspread : Stat.squaredSpread p.obs (Arith.mean p.obs) =
      (p.obs.map fun o => |o - Arith.mean p.obs| ^ 2).sum := by
    simp only [Stat.squaredSpread, Arith.sum_rational, Arith.pow_rational, sq_abs]
  rw [← herrors, ← hspread]
  rfl

theorem compute_efficiency (f : Elementary) (exponent : ℕ) :
    @FitStatistic.compute ℚ f.arithmetic .efficiency p exponent =
      score (p.triples.map fun t => t.error ^ exponent).sum
        (p.triples.map fun t => t.spread ^ exponent).sum := by
  refine hp.compute_eq_score f ?_
  have hspread : Arith.sum (p.obs.zipWith
      (fun o b => Arith.pow (Arith.abs (o - b)) exponent) p.bases) =
      (p.triples.map fun t => t.spread ^ exponent).sum := by
    rw [← hp.map_obs, ← hp.map_bases, List.zipWith_map, List.zipWith_self]
    simp
    rfl
  rw [← hp.errorPower_eq, ← hspread]
  rfl

theorem compute_agreement (f : Elementary) (exponent : ℕ) :
    @FitStatistic.compute ℚ f.arithmetic .agreement p exponent =
      score (p.triples.map fun t => t.error ^ exponent).sum
        (p.triples.map fun t => t.detour ^ exponent).sum := by
  refine hp.compute_eq_score f ?_
  have hdetour : Arith.sum ((p.sim.zip p.obs).zipWith
      (fun q b => Arith.pow (Arith.abs (q.1 - b) + Arith.abs (q.2 - b)) exponent) p.bases) =
      (p.triples.map fun t => t.detour ^ exponent).sum := by
    rw [← hp.map_sim, ← hp.map_obs, ← hp.map_bases, List.zip_map', List.zipWith_map, List.zipWith_self]
    simp
    rfl
  rw [← hp.errorPower_eq, ← hdetour]
  rfl

/-- Without a base series, each base value is the mean of the observed ones. -/
theorem map_spread_of_base_none (hbase : p.base = none) :
    p.triples.map (fun t => t.spread ^ 2) = p.obs.map fun o => |o - Arith.mean p.obs| ^ 2 := by
  have hmean : ∀ t ∈ p.triples, t.2.2 = Arith.mean p.obs := by
    intro t ht
    have hmem : t.2.2 ∈ p.bases := hp.map_bases ▸ List.mem_map_of_mem ht
    rw [bases, hbase, Option.getD_none] at hmem
    obtain ⟨_, _, hbase⟩ := List.mem_map.mp hmem
    exact hbase.symm
  have hobs := congrArg (List.map fun o => |o - Arith.mean p.obs| ^ 2) hp.map_obs
  rw [← hobs, List.map_map]
  refine List.map_congr_left fun t ht => ?_
  rw [Triple.spread, hmean t ht]
  rfl

/-! ### Sums of zero -/

theorem sim_eq_obs_iff : p.sim = p.obs ↔ ∀ t ∈ p.triples, t.error = 0 := by
  rw [← hp.map_sim, ← hp.map_obs, List.map_inj_left]
  simp only [Triple.error_eq_zero_iff]

theorem obs_eq_bases_iff : p.obs = p.bases ↔ ∀ t ∈ p.triples, t.spread = 0 := by
  rw [← hp.map_obs, ← hp.map_bases, List.map_inj_left]
  simp only [Triple.spread_eq_zero_iff]

theorem sim_obs_eq_bases_iff :
    (p.sim = p.bases ∧ p.obs = p.bases) ↔ ∀ t ∈ p.triples, t.detour = 0 := by
  rw [← hp.map_sim, ← hp.map_obs, ← hp.map_bases, List.map_inj_left, List.map_inj_left]
  simp only [Triple.detour_eq_zero_iff, forall_and]

end Matched

end Paired

namespace FitStatistic

open Paired Triple

variable {p : Paired ℚ} {exponent : ℕ}

theorem compute_eq_score_of_mem (f : Elementary) (hp : p.Matched) (hexponent : exponent ≠ 0)
    {s : FitStatistic} (hs : s ∈ [nashSutcliffe, efficiency, agreement]) :
    ∃ power ≠ 0, ∃ den, 0 ≤ den ∧ @compute ℚ f.arithmetic s p exponent =
      score (p.triples.map fun t => t.error ^ power).sum den := by
  simp only [List.mem_cons, List.not_mem_nil, or_false] at hs
  obtain rfl | rfl | rfl := hs
  · exact ⟨2, two_ne_zero, _, sum_pow_nonneg fun o _ => abs_nonneg _,
      hp.compute_nashSutcliffe f exponent⟩
  · exact ⟨exponent, hexponent, _, sum_pow_nonneg fun _ _ => spread_nonneg,
      hp.compute_efficiency f exponent⟩
  · exact ⟨exponent, hexponent, _, sum_pow_nonneg fun _ _ => detour_nonneg,
      hp.compute_agreement f exponent⟩

/-- A score is refused only if there is nothing to compare the errors with: all observed values are
their mean, or the base, or the simulated values are the base as well. -/
theorem compute_score_defined_iff (f : Elementary) (hp : p.Matched) (hexponent : exponent ≠ 0) :
    ((∃ v, @compute ℚ f.arithmetic nashSutcliffe p exponent = .ok v) ↔
      ∃ o ∈ p.obs, o ≠ Arith.mean p.obs) ∧
    ((∃ v, @compute ℚ f.arithmetic efficiency p exponent = .ok v) ↔ p.obs ≠ p.bases) ∧
    ((∃ v, @compute ℚ f.arithmetic agreement p exponent = .ok v) ↔
      ¬(p.sim = p.bases ∧ p.obs = p.bases)) := by
  have hdefined (num den : ℚ) : (∃ v, score num den = .ok v) ↔ ¬den = 0 := by
    simp [score_eq_ok]
  refine ⟨?_, ?_, ?_⟩
  · rw [hp.compute_nashSutcliffe, hdefined, sum_pow_eq_zero_iff two_ne_zero fun o _ => abs_nonneg _]
    simp only [abs_eq_zero, sub_eq_zero, not_forall, exists_prop, ne_eq]
  · rw [hp.compute_efficiency, hdefined, sum_pow_eq_zero_iff hexponent fun _ _ => spread_nonneg,
      ← hp.obs_eq_bases_iff]
  · rw [hp.compute_agreement, hdefined, sum_pow_eq_zero_iff hexponent fun _ _ => detour_nonneg,
      ← hp.sim_obs_eq_bases_iff]

/-- The index of agreement lies between zero and one, the efficiencies are at most one, and each of
them is one exactly if the simulated values are the observed ones. Without a base series the
Nash-Sutcliffe coefficient is the efficiency of squares, and they are refused together. -/
theorem compute_score_bounds (f : Elementary) (hp : p.Matched) (hexponent : exponent ≠ 0) :
    (∀ v, @compute ℚ f.arithmetic agreement p exponent = .ok v → 0 ≤ v) ∧
    (∀ s ∈ [nashSutcliffe, efficiency, agreement], ∀ v,
      @compute ℚ f.arithmetic s p exponent = .ok v → v ≤ 1 ∧ (v = 1 ↔ p.sim = p.obs)) ∧
    (p.base = none → @compute ℚ f.arithmetic nashSutcliffe p exponent =
      @compute ℚ f.arithmetic efficiency p 2) := by
  refine ⟨fun v hv => ?_, fun s hs v hv => ?_, fun hbase => ?_⟩
  · rw [hp.compute_agreement] at hv
    have hle : (p.triples.map fun t => t.error ^ exponent).sum ≤
        (p.triples.map fun t => t.detour ^ exponent).sum :=
      List.sum_le_sum fun t _ => pow_le_pow_left₀ error_nonneg error_le_detour exponent
    exact score_nonneg (sum_pow_nonneg fun _ _ => error_nonneg) hle hv
  · obtain ⟨power, hpower, den, hden, hscore⟩ := compute_eq_score_of_mem f hp hexponent hs
    rw [hscore] at hv
    have hnum : ∀ t ∈ p.triples, 0 ≤ t.error := fun _ _ => error_nonneg
    refine ⟨score_le_one (sum_pow_nonneg hnum) hden hv, ?_⟩
    rw [score_eq_one_iff hv, sum_pow_eq_zero_iff hpower hnum, hp.sim_eq_obs_iff]
  · rw [hp.compute_nashSutcliffe, hp.compute_efficiency, hp.map_spread_of_base_none hbase]

/-- The simulated values vary less than the observed ones. -/
def damped : Paired ℚ := { sim := [2, 4, 6], obs := [1, 4, 7] }

theorem compute_score_bounds_of_damped :
    damped.Matched ∧ (1 : ℕ) ≠ 0 ∧ damped.base = none ∧
    ∃ f : Elementary, ∃ v, @compute ℚ f.arithmetic agreement damped 1 = .ok v ∧ 0 ≤ v ∧ v ≤ 1 ∧ v ≠ 1 ∧
      @compute ℚ f.arithmetic nashSutcliffe damped 1 = @compute ℚ f.arithmetic efficiency damped 2 := by
  have hp : damped.Matched := ⟨nofun, rfl, nofun⟩
  let f : Elementary := ⟨id, id, id, id, id, id, id, fun a _ => a⟩
  have hvalue : @compute ℚ f.arithmetic agreement damped 1 = .ok (4 / 5) := by
    rw [hp.compute_agreement]
    decide +kernel
  obtain ⟨hnonneg, hone, hsame⟩ := compute_score_bounds f hp one_ne_zero
  have hv := hone agreement (by decide) _ hvalue
  refine ⟨hp, one_ne_zero, rfl, f, _, hvalue, hnonneg _ hvalue, hv.1, fun h => ?_, hsame rfl⟩
  have : damped.sim ≠ damped.obs := by decide
  exact this (hv.2.mp h)

end FitStatistic

end Hydroseries
