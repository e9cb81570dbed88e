import Hydroseries.Arith
import Mathlib.Algebra.BigOperators.Group.List.Basic
import Mathlib.Algebra.Order.Group.Unbundled.Abs
import Mathlib.Algebra.Order.Ring.Rat
import Mathlib.Data.Rat.Floor
import Mathlib.Tactic.Ring

/-!
# Arithmetic over the rationals

Rationals as numbers: nothing is rounded, every value is finite, and there is none above all others, so
that zero stands in the place of infinity. The routines that are written over `Arith` mean over the
rationals what their formulas say.

Sums from the left are sums, powers by repeated squaring are powers (`pow_rational`), and the magnitude
is the absolute value. Sorted values are in ascending order (`pairwise_sort`).
-/

namespace Hydroseries

instance Arith.rational : Arith Rat where
  decLt := inferInstance
  decLe := inferInstance
  ofInt n := n
  sumStart := 0
  isNaN _ := false
  isFinite _ := true
  totalLe a b := decide (a ≤ b)
  abs a := if a < 0 then -a else a
  floorNat a := a.floor.toNat
  ceilNat a := a.ceil.toNat
  infinity := 0

end Hydroseries

namespace Hydroseries.Arith

@[simp] theorem zero_rational : (Arith.zero : ℚ) = 0 := rfl

@[simp] theorem one_rational : (Arith.one : ℚ) = 1 := Int.cast_one

theorem ofNat_rational (n : ℕ) : (Arith.ofNat n : ℚ) = n := Int.cast_natCast n

theorem floorNat_rational (a : ℚ) : Arith.floorNat a = ⌊a⌋₊ := rfl

theorem ceilNat_rational (a : ℚ) : Arith.ceilNat a = ⌈a⌉₊ :=
  congrArg Int.toNat (Rat.ceil_eq_neg_floor_neg a)

theorem max_rational (a b : ℚ) : Arith.max a b = Max.max a b := (max_def_lt a b).symm

theorem min_rational (a b : ℚ) : Arith.min a b = Min.min a b :=
  (min_def_lt b a).symm.trans (min_comm b a)

/-- What lies within the bounds stays. -/
theorem clamp_rational {low high a : ℚ} (hlow : low ≤ a) (hhigh : a ≤ high) :
    Arith.clamp low high a = a := by
  show (if a < low then low else if high < a then high else a) = a
  rw [if_neg hlow.not_gt, if_neg hhigh.not_gt]

@[simp] theorem abs_rational (a : ℚ) : Arith.abs a = |a| := by
  show (if a < 0 then -a else a) = |a|
  split
  next hneg => exact (abs_of_neg hneg).symm
  next hneg => exact (abs_of_nonneg (not_lt.mp hneg)).symm

@[simp] theorem sum_rational (xs : List ℚ) : Arith.sum xs = xs.sum := List.sum_eq_foldl.symm

theorem pairwise_sort (xs : List ℚ) : (Arith.sort xs).Pairwise (· ≤ ·) := by
  have htrans (a b c : ℚ) (hab : decide (a ≤ b) = true) (hbc : decide (b ≤ c) = true) :
      decide (a ≤ c) = true :=
    decide_eq_true (le_trans (of_decide_eq_true hab) (of_decide_eq_true hbc))
  have htotal (a b : ℚ) : (decide (a ≤ b) || decide (b ≤ a)) = true := by simpa using le_total a b
  have hsorted : (Arith.sort xs).Pairwise fun a b => decide (a ≤ b) = true :=
    List.pairwise_mergeSort htrans htotal xs
  exact hsorted.imp of_decide_eq_true

/-- The product of the accumulator and the power of the base stays the same: the base is squared as the
exponent is halved. -/
theorem powGo_rational (acc base : ℚ) (n : ℕ) : powGo acc base n = acc * base ^ n := by
  fun_induction powGo acc base n with
  | case1 acc base => exact congrArg (acc * ·) (pow_one base).symm
  | case2 acc base n hle hne =>
    obtain rfl : n = 0 := by omega
    rw [pow_zero, mul_one]
  | case3 acc base n hlt ih =>
    simp only [dite_eq_ite] at ih
    rw [ih]
    show (if n % 2 = 1 then acc * base else acc) * (base * base) ^ (n / 2) = acc * base ^ n
    rw [← pow_two, ← pow_mul]
    split
    next hodd =>
      have hn : n = 2 * (n / 2) + 1 := by omega
      conv_rhs => rw [hn, pow_succ]
      ring
    next heven =>
      have hn : n = 2 * (n / 2) := by omega
      rw [← hn]

@[simp] theorem pow_rational (a : ℚ) (n : ℕ) : Arith.pow a n = a ^ n := by
  rw [pow, powGo_rational, one_rational, one_mul]

end Hydroseries.Arith
