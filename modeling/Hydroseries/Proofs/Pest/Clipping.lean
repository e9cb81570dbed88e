import Hydroseries.Pest.Weight
import Hydroseries.Proofs.Outcome
import Hydroseries.Proofs.Stat.Blocks

/-!
# Weights within their bounds

A weight is raised to the minimum and then lowered to the maximum, and both steps pass over what is
not a number. The minimum is at least zero, and the bounds are compared before it is raised. So a
weight keeps to both bounds, and is not negative, unless the maximum is: then every weight is the
maximum (`weight_of_bounds`).
-/

namespace Hydroseries

open Stat (chooses_max chooses_min)

/-- The larger of two doubles is not below either of them that is a number. -/
theorem Double.le_max (a b : Double) : (a.isNaN = false → a ≤ Arith.max a b) ∧
    (b.isNaN = false → b ≤ Arith.max a b) := by
  obtain ⟨-, hleft, hright⟩ := chooses_max.spec a b
  constructor
  · intro h
    obtain ⟨hmax, ha, hrank⟩ := hleft h
    exact le_iff.mpr ⟨ha, hmax, Int.neg_le_neg_iff.mp hrank⟩
  · intro h
    obtain ⟨hmax, hb, hrank⟩ := hright h
    exact le_iff.mpr ⟨hb, hmax, Int.neg_le_neg_iff.mp hrank⟩

theorem Double.isNaN_zero : (0.0 : Double).isNaN = false := by decide +kernel

namespace Pest.WeightedPair

variable {w : WeightedPair} {raw : Option String} {lower : Double} {upper : Option Double}

/-! ## Reading bounds -/

/-- Bounds are two numbers, the minimum not above the maximum, and the minimum is raised to zero. -/
theorem readBounds_eq_ok (h : readBounds raw = .ok (lower, upper)) :
    lower = 0.0 ∧ upper = none ∨
      ∃ low high, ¬ high < low ∧ lower = Arith.max low 0.0 ∧ upper = some high := by
  cases raw with
  | none =>
    obtain ⟨rfl, rfl⟩ := Prod.mk.inj (Except.ok.inj h)
    exact .inl ⟨rfl, rfl⟩
  | some text =>
    unfold readBounds at h
    dsimp only at h
    split at h
    next low high _ =>
      obtain ⟨low, -, h⟩ := bind_eq_ok.mp h
      obtain ⟨high, -, h⟩ := bind_eq_ok.mp h
      split at h
      next => cases h
      next hordered =>
        obtain ⟨rfl, rfl⟩ := Prod.mk.inj (Except.ok.inj h)
        exact .inr ⟨low, high, hordered, rfl, rfl⟩
    next => cases h

/-- The minimum of accepted bounds is a number that is not negative. -/
theorem zero_le_lower (h : readBounds raw = .ok (lower, upper)) : (0.0 : Double) ≤ lower := by
  rcases readBounds_eq_ok h with ⟨rfl, -⟩ | ⟨low, high, -, rfl, -⟩
  · exact Double.le_iff.mpr ⟨Double.isNaN_zero, Double.isNaN_zero, le_rfl⟩
  · exact (Double.le_max low 0.0).2 Double.isNaN_zero

/-- Accepted bounds leave room between them if the maximum is not negative. -/
theorem lower_le_upper {u : Double} (h : readBounds raw = .ok (lower, some u))
    (hnumber : u.isNaN = false) (hu : ¬ u < 0.0) : lower ≤ u := by
  rcases readBounds_eq_ok h with ⟨-, hnone⟩ | ⟨low, high, hordered, rfl, hsome⟩
  · cases hnone
  obtain rfl := Option.some.inj hsome
  have hleast : ∀ v : Double, v.isNaN = false → ¬ u < v → v ≤ u := fun v hv hlt =>
    Double.le_iff.mpr ⟨hv, hnumber, not_lt.mp fun hrank => hlt (Double.lt_iff.mpr ⟨hnumber, hv, hrank⟩)⟩
  obtain ⟨hchoice, -, -⟩ := chooses_max.spec low 0.0
  rcases hchoice with heq | heq
  · -- The minimum is kept, so it is a number.
    have hlow : low.isNaN = false := heq ▸ (Double.le_iff.mp ((Double.le_max low 0.0).2 Double.isNaN_zero)).2.1
    rw [heq]
    exact hleast low hlow hordered
  · rw [heq]
    exact hleast 0.0 Double.isNaN_zero hu

/-! ## Clipping -/

/-- A clipped number, with a maximum or without: it is the number raised to the minimum, or the
maximum. -/
theorem bounded_cases (w : WeightedPair) (x : Double) :
    w.bounded x = Arith.max x w.lower ∨ w.upper = some (w.bounded x) := by
  unfold bounded
  cases w.upper with
  | none => exact .inl rfl
  | some u => exact (chooses_min.spec (Arith.max x w.lower) u).1.imp_right fun h => by simp [h]

/-- What is clipped is not above the maximum. -/
theorem bounded_le {u : Double} (hupper : w.upper = some u) (hu : u.isNaN = false) (x : Double) :
    w.bounded x ≤ u := by
  have hmin := (chooses_min.spec (Arith.max x w.lower) u).2.2 hu
  rw [bounded, hupper]
  exact Double.le_iff.mpr hmin

/-- The minimum is a number, so what is clipped is one. -/
theorem bounded_isNaN (hlower : w.lower.isNaN = false) (x : Double) :
    (w.bounded x).isNaN = false := by
  have hraised := (Double.le_iff.mp ((Double.le_max x w.lower).2 hlower)).2.1
  unfold bounded
  cases w.upper with
  | none => exact hraised
  | some u => exact ((chooses_min.spec (Arith.max x w.lower) u).2.1 hraised).1

theorem weight_eq_ok {st : Store} {value x : Double}
    (hscalar : Equation.evaluate (.ofStore st) (some value.abs) w.equation = .ok (.scalar x)) :
    w.weight st value = .ok (w.bounded x) := by
  rw [weight, hscalar]
  rfl

/-- A weight keeps to both of its bounds and is not negative, as long as the maximum is not negative;
a negative maximum is the weight itself. -/
theorem weight_of_bounds (hbounds : readBounds raw = .ok (w.lower, w.upper)) {st : Store}
    {value x : Double}
    (hscalar : Equation.evaluate (.ofStore st) (some value.abs) w.equation = .ok (.scalar x)) :
    ∃ y, w.weight st value = .ok y ∧
      ((∀ u, w.upper = some u → ¬ u < 0.0) → 0.0 ≤ y ∧ w.lower ≤ y) ∧
      (∀ u, w.upper = some u → u.isNaN = false → y ≤ u) ∧
      ∀ u, w.upper = some u → u < 0.0 → y = u := by
  obtain ⟨hzero, hlower, hleast⟩ := Double.le_iff.mp (zero_le_lower hbounds)
  obtain ⟨-, hraised, hrank⟩ := Double.le_iff.mp ((Double.le_max x w.lower).2 hlower)
  refine ⟨w.bounded x, weight_eq_ok hscalar, fun hupper => ?_,
    fun u hu hnumber => bounded_le hu hnumber x, fun u hu hnegative => ?_⟩
  · have habove : w.lower ≤ w.bounded x := by
      rcases w.bounded_cases x with heq | hsome
      · rw [heq]
        exact Double.le_iff.mpr ⟨hlower, hraised, hrank⟩
      · exact lower_le_upper (hsome ▸ hbounds) (bounded_isNaN hlower x) (hupper _ hsome)
    obtain ⟨-, hnumber, hlow⟩ := Double.le_iff.mp habove
    exact ⟨Double.le_iff.mpr ⟨hzero, hnumber, hleast.trans hlow⟩, habove⟩
  · rcases w.bounded_cases x with heq | hsome
    · -- The raised weight is not negative, and so not below the maximum.
      obtain ⟨hnumber, -, hlt⟩ := Double.lt_iff.mp hnegative
      obtain ⟨-, -, hle⟩ := Double.le_iff.mp (bounded_le hu hnumber x)
      rw [heq] at hle
      omega
    · exact Option.some.inj (hsome.symm.trans hu)

/-! ## Bounds of a text -/

/-- A pair with a weight of one for each value. -/
def unitPair (lower : Double) (upper : Option Double) : WeightedPair :=
  ⟨.series, .ofSpelling "obs", .ofSpelling "sim", .number 1.0, lower, upper⟩

theorem evaluate_unitPair (lower : Double) (upper : Option Double) (value : Double) :
    Equation.evaluate (.ofStore .empty) (some value.abs) (unitPair lower upper).equation =
      .ok (.scalar 1.0) := rfl

theorem readBounds_of_bits {text : String} {low high : UInt64}
    (h : (readBounds (some text)).toOption.map (fun r => (r.1.bits, r.2.map Double.bits)) =
      some (low, some high)) : readBounds (some text) = .ok (⟨low⟩, some ⟨high⟩) := by
  obtain ⟨⟨lower, upper⟩, hread, hbits⟩ := ok_of_toOption_map h
  obtain ⟨rfl, hupper⟩ := Prod.mk.inj hbits
  obtain ⟨u, rfl, rfl⟩ := Option.map_eq_some_iff.mp hupper
  exact hread

/-- A minimum below zero is raised, and the weight one is lowered to a maximum of a half. -/
theorem weight_of_half : ∃ lower u y, readBounds (some "-1 0.5") = .ok (lower, some u) ∧
    (unitPair lower (some u)).weight .empty 2.0 = .ok y ∧ 0.0 ≤ y ∧ lower ≤ y ∧ y ≤ u := by
  have hread : readBounds (some "-1 0.5") = .ok (⟨0⟩, some ⟨0x3FE0000000000000⟩) :=
    readBounds_of_bits (by decide +kernel)
  obtain ⟨y, hy, hlow, hhigh, -⟩ :=
    weight_of_bounds (w := unitPair _ _) hread (evaluate_unitPair _ _ 2.0)
  obtain ⟨hzero, hlower⟩ := hlow fun u hu => by
    obtain rfl := Option.some.inj hu
    decide +kernel
  exact ⟨_, _, y, hread, hy, hzero, hlower, hhigh _ rfl (by decide)⟩

/-- Bounds that are both below zero are accepted, and every weight is below zero and below the
minimum, which was raised. -/
theorem weight_below_zero : ∃ lower u y, readBounds (some "-5 -3") = .ok (lower, some u) ∧
    (unitPair lower (some u)).weight .empty 2.0 = .ok y ∧ y < 0.0 ∧ ¬ lower ≤ y := by
  have hread : readBounds (some "-5 -3") = .ok (⟨0⟩, some ⟨0xC008000000000000⟩) :=
    readBounds_of_bits (by decide +kernel)
  have hweight : (unitPair ⟨0⟩ (some ⟨0xC008000000000000⟩)).bounded 1.0 < 0.0 ∧
      ¬ (⟨0⟩ : Double) ≤ (unitPair ⟨0⟩ (some ⟨0xC008000000000000⟩)).bounded 1.0 := by
    decide +kernel
  exact ⟨_, _, _, hread, weight_eq_ok (evaluate_unitPair _ _ 2.0), hweight⟩

end Pest.WeightedPair

end Hydroseries
