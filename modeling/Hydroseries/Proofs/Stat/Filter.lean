import Hydroseries.Proofs.Arith.Rational
import Hydroseries.Stat.Filter
import Mathlib.Algebra.Order.Field.Basic
import Mathlib.Data.Set.Finite.List
import Mathlib.Order.Interval.Set.Defs
import Mathlib.Tactic.Linarith

/-!
# The baseflow of the filter stays within the flow

Each output of a pass is a mean of the output before and the input, with weights that do not exceed one
together (`mix_mem`), so that it stays between zero and the greatest flow, and clipping keeps it there
(`clip_mem`). What one output keeps, a pass keeps (`passFrom_within`), in whichever direction it goes,
and so do several passes (`run_within`).
-/

namespace Hydroseries.Filter.Chapman

variable {f : Chapman ℚ} {flow input out : List ℚ} {previous : Option ℚ} {high p q b : ℚ}

/-! ## One output -/

/-- The parameter of the filter is in its range. -/
def InRange (f : Chapman ℚ) : Prop := 0 < f.alpha ∧ f.alpha < 1

/-- The mean of the output before and the input; the first output is the input. -/
def mix (f : Chapman ℚ) (previous : Option ℚ) (q : ℚ) : ℚ :=
  match previous with
  | none => q
  | some p => f.alpha / (2 - f.alpha) * p + (1 - f.alpha) / (2 - f.alpha) * q

theorem passFrom_cons (f : Chapman ℚ) (previous : Option ℚ) (flow q : ℚ) (rest : List (ℚ × ℚ)) :
    f.passFrom previous ((flow, q) :: rest) =
      f.clip flow (f.mix previous q) :: f.passFrom (some (f.clip flow (f.mix previous q))) rest := by
  have htwo : (Arith.ofNat 2 : ℚ) = 2 := Arith.ofNat_rational 2
  cases previous <;> simp only [passFrom, mix, htwo, Arith.one_rational]

/-- The weights of the mean do not exceed one together. -/
theorem mix_mem (hf : f.InRange) (hprevious : ∀ p ∈ previous, p ∈ Set.Icc 0 high)
    (hq : q ∈ Set.Icc 0 high) : f.mix previous q ∈ Set.Icc 0 high := by
  obtain ⟨hlow, hone⟩ := hf
  cases previous with
  | none => exact hq
  | some p =>
    obtain ⟨hp, hphigh⟩ := hprevious p rfl
    obtain ⟨hq, hqhigh⟩ := hq
    have hdenominator : 0 < 2 - f.alpha := by linarith
    have hfirst : 0 ≤ f.alpha / (2 - f.alpha) := div_nonneg hlow.le hdenominator.le
    have hsecond : 0 ≤ (1 - f.alpha) / (2 - f.alpha) :=
      div_nonneg (sub_nonneg.mpr hone.le) hdenominator.le
    have htogether : f.alpha / (2 - f.alpha) + (1 - f.alpha) / (2 - f.alpha) ≤ 1 := by
      rw [← add_div, add_sub_cancel]
      exact div_le_one_of_le₀ (by linarith) hdenominator.le
    constructor
    · exact add_nonneg (mul_nonneg hfirst hp) (mul_nonneg hsecond hq)
    · calc f.mix (some p) q
          = f.alpha / (2 - f.alpha) * p + (1 - f.alpha) / (2 - f.alpha) * q := rfl
        _ ≤ f.alpha / (2 - f.alpha) * high + (1 - f.alpha) / (2 - f.alpha) * high := by gcongr
        _ = (f.alpha / (2 - f.alpha) + (1 - f.alpha) / (2 - f.alpha)) * high := by ring
        _ ≤ high := mul_le_of_le_one_left (hp.trans hphigh) htogether

/-- Clipping keeps a value between zero and the greatest flow. -/
theorem clip_mem (f : Chapman ℚ) (hq : 0 ≤ q) (hb : b ∈ Set.Icc 0 high) :
    f.clip q b ∈ Set.Icc 0 high ∧ (f.clipInput = true → f.clip q b ≤ q) := by
  obtain ⟨hlow, hhigh⟩ := hb
  have hmin : 0 ≤ min b q := le_min hlow hq
  unfold clip
  simp only [Arith.min_rational, Arith.max_rational, Arith.zero_rational]
  cases f.clipInput <;> cases f.clipZero <;> simp [hlow, hhigh, hmin]

/-! ## Passes -/

/-- For each flow there is a value between zero and the greatest flow, and if the input is clipped it
does not exceed the flow. -/
def Within (f : Chapman ℚ) (high : ℚ) : List ℚ → List ℚ → Prop :=
  List.Forall₂ fun q b => b ∈ Set.Icc 0 high ∧ (f.clipInput = true → b ≤ q)

theorem Within.mem (h : f.Within high flow out) : ∀ b ∈ out, b ∈ Set.Icc 0 high := by
  intro b hb
  obtain ⟨i, hi, rfl⟩ := List.getElem_of_mem hb
  exact (h.get (h.length_eq ▸ hi) hi).1

/-- The outputs of a pass stay within the flow, from any output that does. -/
theorem passFrom_within (hf : f.InRange) (hlength : input.length = flow.length)
    (hflow : ∀ q ∈ flow, 0 ≤ q) (hinput : ∀ q ∈ input, q ∈ Set.Icc 0 high)
    (hprevious : ∀ p ∈ previous, p ∈ Set.Icc 0 high) :
    f.Within high flow (f.passFrom previous (flow.zip input)) := by
  induction flow generalizing input previous with
  | nil => exact .nil
  | cons flow rest ih =>
    cases input with
    | nil => cases hlength
    | cons q input =>
      rw [List.forall_mem_cons] at hflow hinput
      rw [List.zip_cons_cons, passFrom_cons]
      have hstep := f.clip_mem hflow.1 (mix_mem hf hprevious hinput.1)
      refine .cons hstep (ih (Nat.succ.inj hlength) hflow.2 hinput.2 ?_)
      rintro p ⟨⟩
      exact hstep.1

theorem pass_within (hf : f.InRange) (hlength : input.length = flow.length)
    (hflow : ∀ q ∈ flow, 0 ≤ q) (hinput : ∀ q ∈ input, q ∈ Set.Icc 0 high) :
    f.Within high flow (f.pass flow input) :=
  passFrom_within hf hlength hflow hinput nofun

/-- Passes in either direction stay within the flow. -/
theorem run_within (hf : f.InRange) (hflow : ∀ q ∈ flow, q ∈ Set.Icc 0 high) :
    f.Within high flow (f.run flow) := by
  have hnonneg : ∀ q ∈ flow, 0 ≤ q := fun q hq => (hflow q hq).1
  have hforward : f.Within high flow (f.pass flow flow) := pass_within hf rfl hnonneg hflow
  rw [run]
  split
  next =>
    -- The second pass goes backward over the flow and the outputs of the first.
    have hbackward : f.Within high flow.reverse (f.pass flow.reverse (f.pass flow flow).reverse) := by
      apply pass_within hf
      · simp [hforward.length_eq]
      · simpa using hnonneg
      · simpa using hforward.mem
    apply pass_within hf
    · simpa using hbackward.length_eq.symm
    · exact hnonneg
    · simpa using hbackward.mem
  next => exact hforward

/-- For a parameter between zero and one, and one pass or three, there is a baseflow of any flow that
is not negative. It has as many values as the flow, all between zero and the greatest flow; if the
input is clipped, none exceeds the flow at its position. -/
theorem apply_within (write : ℚ → String) (f : Chapman ℚ) (hf : f.InRange)
    (hpasses : f.passes = 1 ∨ f.passes = 3) (hflow : ∀ q ∈ flow, 0 ≤ q) :
    ∃ out, f.applyWith write flow = .ok out ∧ out.length = flow.length ∧
      (∀ high, IsGreatest {q | q ∈ flow} high → ∀ v ∈ out, 0 ≤ v ∧ v ≤ high) ∧
      (f.clipInput = true → ∀ (i : ℕ) (v q : ℚ), out[i]? = some v → flow[i]? = some q → v ≤ q) := by
  have hwithin : ∀ high ∈ upperBounds {q | q ∈ flow}, f.Within high flow (f.run flow) :=
    fun high hhigh => run_within hf fun q hq => ⟨hflow q hq, hhigh hq⟩
  obtain ⟨bound, hbound⟩ := (List.finite_toSet flow).bddAbove
  refine ⟨f.run flow, ?_, (hwithin bound hbound).length_eq.symm, ?_, ?_⟩
  · have hone : f.alpha < Arith.one := hf.2.trans_eq Arith.one_rational.symm
    have halpha : (Arith.zero < f.alpha && f.alpha < Arith.one) = true :=
      Bool.and_eq_true_iff.mpr ⟨decide_eq_true hf.1, decide_eq_true hone⟩
    rw [applyWith, halpha, Bool.not_true, if_neg Bool.false_ne_true, if_neg (by omega)]
  · intro high hhigh v hv
    exact (hwithin high hhigh.2).mem v hv
  · intro hclip i v q hv hq
    obtain ⟨hi, rfl⟩ := List.getElem?_eq_some_iff.mp hv
    obtain ⟨hi', rfl⟩ := List.getElem?_eq_some_iff.mp hq
    exact ((hwithin bound hbound).get hi' hi).2 hclip

/-- Three clipped passes over a storm. -/
theorem apply_within_storm : ∃ f : Chapman ℚ, f.alpha = 37 / 40 ∧ f.passes = 3 ∧
    f.clipInput = true ∧ f.InRange ∧ (∀ q ∈ [10, 50, 30, 12, 11], (0 : ℚ) ≤ q) ∧
    ∃ out, f.applyWith (fun _ => "") [10, 50, 30, 12, 11] = .ok out ∧ out.length = 5 ∧
      (∀ v ∈ out, 0 ≤ v ∧ v ≤ 50) ∧ ∀ v, out[3]? = some v → v ≤ 12 := by
  let f : Chapman ℚ := ⟨37 / 40, 3, true, false⟩
  have hf : f.InRange := by
    constructor <;> norm_num [f]
  have hflow : ∀ q ∈ [10, 50, 30, 12, 11], (0 : ℚ) ≤ q := by norm_num
  have hgreatest : IsGreatest {q | q ∈ [10, 50, 30, 12, 11]} (50 : ℚ) := by
    constructor
    · simp
    · norm_num [upperBounds]
  obtain ⟨out, hout, hlength, hbounds, hclip⟩ := apply_within (fun _ => "") f hf (.inr rfl) hflow
  exact ⟨f, rfl, rfl, rfl, hf, hflow, out, hout, hlength, hbounds 50 hgreatest,
    fun v hv => hclip rfl 3 v 12 hv rfl⟩

end Hydroseries.Filter.Chapman
