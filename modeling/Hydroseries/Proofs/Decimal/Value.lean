import Hydroseries.Decimal.Exact
import Mathlib.Algebra.Order.Field.Power
import Mathlib.Data.Rat.Cast.Order
import Mathlib.Order.Monotone.Basic
import Mathlib.Tactic.NormNum
import Mathlib.Tactic.Linarith
import Mathlib.Tactic.Positivity
import Mathlib.Tactic.Ring

/-!
# The values of floats

A finite float has a rational value (`Double.toRat`). Its magnitude is a multiple of the least
positive float, and the number of that multiple grows with the bits (`Double.grid_strictMono`). So
floats are compared by their bits, and between neighbours there is nothing.
-/

namespace Hydroseries

namespace Double

variable {x y : Double}

/-! ## Bits -/

/-- Numbers are the same if their bits are; both zeros are different then. -/
@[reducible] def sameBits : DecidableEq Double := fun x y =>
  decidable_of_iff (x.bits = y.bits) ⟨fun h => by cases x; cases y; exact congrArg Double.mk h,
    congrArg bits⟩

theorem toNat_magnitude (x : Double) : x.magnitude.toNat = x.bits.toNat % 2 ^ 63 := by
  rw [magnitude, UInt64.toNat_and]
  exact Nat.and_two_pow_sub_one_eq_mod _ 63

theorem exponentBits_eq (x : Double) : x.exponentBits = x.magnitude.toNat / 2 ^ 52 := by
  have hand : x.exponentBits = x.bits.toNat / 2 ^ 52 % 2 ^ 11 := by
    rw [exponentBits, UInt64.toNat_and, UInt64.toNat_shiftRight]
    exact (Nat.and_two_pow_sub_one_eq_mod _ 11).trans (by rw [Nat.shiftRight_eq_div_pow]; rfl)
  rw [hand, toNat_magnitude]
  omega

theorem fractionBits_eq (x : Double) : x.fractionBits = x.magnitude.toNat % 2 ^ 52 := by
  have hand : x.fractionBits = x.bits.toNat % 2 ^ 52 := by
    rw [fractionBits, UInt64.toNat_and]
    exact Nat.and_two_pow_sub_one_eq_mod _ 52
  rw [hand, toNat_magnitude]
  omega

@[simp] theorem magnitude_abs (x : Double) : x.abs.magnitude = x.magnitude := by
  apply UInt64.toNat_inj.mp
  rw [toNat_magnitude]
  show x.magnitude.toNat % 2 ^ 63 = _
  rw [toNat_magnitude]
  omega

theorem isNegative_abs (x : Double) : x.abs.isNegative = false := by
  have hshift : x.magnitude >>> 63 = 0 := by
    apply UInt64.toNat_inj.mp
    rw [UInt64.toNat_shiftRight, toNat_magnitude, Nat.shiftRight_eq_div_pow]
    show x.bits.toNat % 2 ^ 63 / 2 ^ 63 = 0
    omega
  show (x.magnitude >>> 63 == 1) = false
  rw [hshift]
  rfl

theorem isNaN_of_isFinite (h : x.isFinite = true) : x.isNaN = false := by
  rw [isFinite, decide_eq_true_eq, UInt64.lt_iff_toNat_lt] at h
  rw [isNaN, decide_eq_false_iff_not, UInt64.lt_iff_toNat_lt]
  omega

theorem isInf_of_isFinite (h : x.isFinite = true) : x.isInf = false := by
  rw [isFinite, decide_eq_true_eq, UInt64.lt_iff_toNat_lt] at h
  rw [isInf, beq_eq_false_iff_ne]
  rintro heq
  rw [heq] at h
  omega

/-- A float is finite, infinite or not a number. -/
theorem isFinite_eq (x : Double) : x.isFinite = (!x.isNaN && !x.isInf) := by
  rw [isFinite, isNaN, isInf, Bool.eq_iff_iff]
  simp only [Bool.and_eq_true, Bool.not_eq_true', decide_eq_true_eq, decide_eq_false_iff_not,
    beq_eq_false_iff_ne, ne_eq, ← UInt64.toNat_inj, UInt64.lt_iff_toNat_lt]
  omega

/-- Magnitudes are compared by their bits. -/
theorem abs_lt_iff (hx : x.isFinite = true) (hy : y.isFinite = true) (hpos : y.isNegative = false) :
    x.abs < y ↔ x.magnitude.toNat < y.magnitude.toNat := by
  show x.abs.less y = true ↔ _
  have hnan : x.abs.isNaN = false := by
    rw [isNaN, magnitude_abs]
    exact isNaN_of_isFinite hx
  rw [less_iff, rank, rank, isNegative_abs, hpos, magnitude_abs]
  simp [hnan, isNaN_of_isFinite hy]

theorem le_abs_iff (hx : x.isFinite = true) (hy : y.isFinite = true) (hpos : y.isNegative = false) :
    y ≤ x.abs ↔ y.magnitude.toNat ≤ x.magnitude.toNat := by
  show (y.less x.abs || y.equal x.abs) = true ↔ _
  have hnan : x.abs.isNaN = false := by
    rw [isNaN, magnitude_abs]
    exact isNaN_of_isFinite hx
  rw [Bool.or_eq_true, less_iff, equal_iff, rank, rank, isNegative_abs, hpos, magnitude_abs]
  simp only [hnan, isNaN_of_isFinite hy, Bool.false_eq_true, if_false, true_and, Nat.cast_lt,
    Nat.cast_inj]
  exact Nat.le_iff_lt_or_eq.symm

/-! ## Magnitudes -/

/-- How many times the least positive float a magnitude is. -/
def grid (m : Nat) : Nat :=
  if m / 2 ^ 52 = 0 then m else (2 ^ 52 + m % 2 ^ 52) * 2 ^ (m / 2 ^ 52 - 1)

theorem grid_strictMono : StrictMono grid := by
  refine strictMono_nat_of_lt_succ fun m => ?_
  unfold grid
  by_cases hcarry : m % 2 ^ 52 + 1 < 2 ^ 52
  · have hdiv : (m + 1) / 2 ^ 52 = m / 2 ^ 52 := by omega
    have hmod : (m + 1) % 2 ^ 52 = m % 2 ^ 52 + 1 := by omega
    rw [hdiv, hmod]
    split
    · omega
    · exact Nat.mul_lt_mul_of_pos_right (by omega) (by positivity)
  · have hdiv : (m + 1) / 2 ^ 52 = m / 2 ^ 52 + 1 := by omega
    have hmod : (m + 1) % 2 ^ 52 = 0 := by omega
    rw [hdiv, hmod, if_neg (Nat.succ_ne_zero _), Nat.add_sub_cancel]
    split
    next hzero =>
      rw [hzero]
      omega
    next hpos =>
      -- The fraction is full, so the next magnitude is twice the least one of this exponent.
      obtain ⟨e, he⟩ := Nat.exists_eq_succ_of_ne_zero hpos
      have hfull : 2 ^ 52 + m % 2 ^ 52 < 2 * 2 ^ 52 := by omega
      calc (2 ^ 52 + m % 2 ^ 52) * 2 ^ (m / 2 ^ 52 - 1)
          = (2 ^ 52 + m % 2 ^ 52) * 2 ^ e := by rw [he, Nat.succ_sub_one]
        _ < 2 * 2 ^ 52 * 2 ^ e := Nat.mul_lt_mul_of_pos_right hfull (by positivity)
        _ = (2 ^ 52 + 0) * 2 ^ (m / 2 ^ 52) := by
          rw [he, Nat.add_zero, Nat.mul_comm 2, Nat.mul_assoc, ← Nat.pow_succ']

/-! ## Values -/

/-- The value of a finite float. -/
def toRat (x : Double) : ℚ :=
  (if x.isNegative then -1 else 1) *
    if x.exponentBits = 0 then (x.fractionBits : ℚ) * 2 ^ (-1074 : ℤ)
    else (2 ^ 52 + x.fractionBits : ℚ) * 2 ^ ((x.exponentBits : ℤ) - 1075)

theorem toRat_eq (x : Double) :
    x.toRat = (if x.isNegative then -1 else 1) * (grid x.magnitude.toNat / 2 ^ 1074) := by
  have hleast : (2 : ℚ) ^ (-1074 : ℤ) = (2 ^ 1074)⁻¹ := by
    rw [zpow_neg]
    rfl
  rw [toRat, grid, exponentBits_eq, fractionBits_eq]
  congr 1
  split
  next hzero =>
    have hm : x.magnitude.toNat % 2 ^ 52 = x.magnitude.toNat := by omega
    rw [hm, hleast, div_eq_mul_inv]
  next hnormal =>
    obtain ⟨e, he⟩ := Nat.exists_eq_succ_of_ne_zero hnormal
    have hexp : ((e.succ : ℕ) : ℤ) - 1075 = (e : ℤ) + (-1074) := by
      push_cast
      ring
    rw [he, hexp, zpow_add₀ two_ne_zero, hleast, zpow_natCast, Nat.succ_sub_one, div_eq_mul_inv]
    generalize (2 : ℚ) ^ 1074 = K
    push_cast
    ring

theorem abs_toRat (x : Double) : |x.toRat| = grid x.magnitude.toNat / 2 ^ 1074 := by
  have hsign : |(if x.isNegative then -1 else 1 : ℚ)| = 1 := by
    split <;> simp
  have hpos : (0 : ℚ) < 2 ^ 1074 := pow_pos two_pos _
  rw [toRat_eq, abs_mul, hsign, one_mul, abs_of_nonneg (div_nonneg (Nat.cast_nonneg _) hpos.le)]

theorem toRat_eq_zero_iff : x.toRat = 0 ↔ x.magnitude.toNat = 0 := by
  have hgrid : grid 0 = 0 := rfl
  rw [← abs_eq_zero, abs_toRat, div_eq_zero_iff, Nat.cast_eq_zero, ← hgrid,
    grid_strictMono.injective.eq_iff]
  exact or_iff_left (pow_ne_zero _ two_ne_zero)

/-- The value is the magnitude with the sign. -/
theorem toRat_eq_abs (x : Double) : x.toRat = (if x.isNegative then -1 else 1) * |x.toRat| := by
  rw [abs_toRat, ← toRat_eq]

theorem toRat_neg_iff : x.toRat < 0 ↔ x.isNegative = true ∧ x.toRat ≠ 0 := by
  have hsign := x.toRat_eq_abs
  have hmagnitude := abs_nonneg x.toRat
  cases hneg : x.isNegative with
  | false =>
    rw [hneg, if_neg Bool.false_ne_true, one_mul] at hsign
    exact iff_of_false (fun hlt => by linarith) fun h => Bool.false_ne_true h.1
  | true =>
    rw [hneg, if_pos rfl, neg_one_mul] at hsign
    rw [and_iff_right rfl]
    exact ⟨ne_of_lt, fun hne => lt_of_le_of_ne (by linarith) hne⟩

/-- Only zeros equal zero. -/
theorem beq_zero_iff (hx : x.isFinite = true) : (x == 0.0) = true ↔ x.toRat = 0 := by
  have hzero : (0.0 : Double).rank = 0 ∧ (0.0 : Double).isNaN = false := by decide +kernel
  show x.equal 0.0 = true ↔ _
  rw [equal_iff, hzero.1, hzero.2, toRat_eq_zero_iff, rank]
  simp only [isNaN_of_isFinite hx, true_and]
  split <;> omega

theorem beq_zero_of_ne (hx : x.isFinite = true) (hne : x.toRat ≠ 0) : (x == 0.0) = false := by
  rw [Bool.eq_false_iff]
  exact fun h => hne ((beq_zero_iff hx).mp h)

theorem lt_zero_iff (hx : x.isFinite = true) : x < 0.0 ↔ x.toRat < 0 := by
  have hzero : (0.0 : Double).rank = 0 ∧ (0.0 : Double).isNaN = false := by decide +kernel
  show x.less 0.0 = true ↔ _
  rw [less_iff, hzero.1, hzero.2, toRat_neg_iff, Ne, toRat_eq_zero_iff, rank]
  simp only [isNaN_of_isFinite hx, true_and]
  split
  next hneg => simp [hneg, Nat.pos_iff_ne_zero]
  next hpos => simp [hpos]

end Double

namespace Decimal.Exact

open Double (grid)

theorem den_pos (x : Double) : 0 < (ofDouble x).den := Nat.pow_pos Nat.two_pos

/-- The quotient of a float is its magnitude. -/
theorem num_div_den (x : Double) : ((ofDouble x).num / (ofDouble x).den : ℚ) = |x.toRat| := by
  have hcross : (ofDouble x).num * 2 ^ 1074 = grid x.magnitude.toNat * (ofDouble x).den := by
    simp only [ofDouble, grid, ← Double.exponentBits_eq, ← Double.fractionBits_eq, Nat.pow_eq,
      beq_iff_eq]
    split
    next hzero =>
      have hm : x.magnitude.toNat = x.fractionBits := by
        rw [Double.exponentBits_eq] at hzero
        rw [Double.fractionBits_eq]
        omega
      rw [hzero, hm, Nat.zero_sub, Nat.pow_zero, Nat.mul_one]
    next hnormal =>
      have hexp : x.exponentBits - 1075 + 1074 = x.exponentBits - 1 + (1075 - x.exponentBits) := by
        omega
      rw [Nat.mul_assoc, Nat.mul_assoc, ← Nat.pow_add, ← Nat.pow_add, hexp]
  have hden : ((ofDouble x).den : ℚ) ≠ 0 := Nat.cast_ne_zero.mpr (den_pos x).ne'
  rw [Double.abs_toRat, div_eq_div_iff hden (pow_ne_zero _ two_ne_zero), ← Nat.cast_two,
    ← Nat.cast_pow, ← Nat.cast_mul, ← Nat.cast_mul, hcross]

end Decimal.Exact

end Hydroseries
