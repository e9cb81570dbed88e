import Hydroseries.Arith
import Hydroseries.Proofs.Double.Rounding

/-!
# Powers of floats

Powers are multiplied together from repeated squares, and each product is rounded. The rounding of
one product makes it larger by a factor of `slack` at most, so a power is at most that of the base
times the slack (`Within.powGo`), as long as this stays in the range of floats. The powers of ten
that do are at most twice what they should be (`within_pow_ten`). A power of a number that has no
sign has none either, also where it leaves the range (`isSigned_pow`).
-/

namespace Hydroseries.Double

variable {x y acc base : Double} {a b : ℚ}

/-! ## Upper bounds -/

/-- A product of floats is larger than that of their values by this factor at most. -/
def slack : ℚ := 1 + 2 ^ (-52 : ℤ)

theorem one_le_slack : 1 ≤ slack := by
  have hpart : (0 : ℚ) < 2 ^ (-52 : ℤ) := by positivity
  rw [slack]
  linarith

/-- A finite float that is not negative and not above a number. -/
structure Within (x : Double) (a : ℚ) : Prop where
  finite : x.isFinite = true
  nonneg : 0 ≤ x.toRat
  le : x.toRat ≤ a

theorem Within.mono (h : Within x a) (hab : a ≤ b) : Within x b := ⟨h.finite, h.nonneg, h.le.trans hab⟩

theorem Within.mul (hx : Within x a) (hy : Within y b) (hone : 1 ≤ a * b)
    (hsize : a * b < 2 ^ (1020 : ℤ)) : Within (x * y) (a * b * slack) := by
  have hnonneg := mul_nonneg hx.nonneg hy.nonneg
  have hle : x.toRat * y.toRat ≤ a * b :=
    mul_le_mul hx.le hy.le hy.nonneg (hx.nonneg.trans hx.le)
  have habs : |x.toRat * y.toRat| = x.toRat * y.toRat := abs_of_nonneg hnonneg
  obtain ⟨hfinite, t, hrounds⟩ :=
    mul_rounds hx.finite hy.finite (habs.trans_lt (hle.trans_lt hsize))
  refine ⟨hfinite, hrounds.nonneg hnonneg, ?_⟩
  have hnear := (abs_le.mp hrounds.abs_sub_le).2
  have hpart : (x.toRat * y.toRat) / 2 ^ 53 ≤ a * b / 2 ^ 53 := by gcongr
  have hleast : (2 : ℚ) ^ (-1074 : ℤ) ≤ a * b / 2 ^ 53 := by
    have hfraction : (1 : ℚ) / 2 ^ 53 ≤ a * b / 2 ^ 53 := by gcongr
    refine le_trans ?_ hfraction
    rw [one_div, ← zpow_natCast, ← zpow_neg]
    exact zpow_le_zpow_right₀ one_le_two (by decide)
  have hslack : a * b * slack = a * b + a * b / 2 ^ 53 + a * b / 2 ^ 53 := by
    rw [slack]
    norm_num
    ring
  rw [habs] at hnear
  linarith only [hnear, hpart, hleast, hslack, hle]

/-- What repeated squaring multiplies together is at most the power of the base with its slack. -/
theorem Within.powGo (n : ℕ) (hacc : Within acc a) (hbase : Within base b) (ha : 1 ≤ a) (hb : 1 ≤ b)
    (hsize : a * (b * slack) ^ n < 2 ^ (1020 : ℤ)) :
    Within (Arith.powGo acc base n) (a * (b * slack) ^ n) := by
  have hslack := one_le_slack
  fun_induction Arith.powGo acc base n generalizing a b with
  | case1 acc base =>
    rw [pow_one, ← mul_assoc] at hsize ⊢
    have hone := one_le_mul_of_one_le_of_one_le ha hb
    exact hacc.mul hbase hone ((le_mul_of_one_le_right (by linarith) hslack).trans_lt hsize)
  | case2 acc base n hle hne =>
    obtain rfl : n = 0 := by omega
    rwa [pow_zero, mul_one]
  | case3 acc base n hlt ih =>
    -- The slack of the square is that of its two factors together.
    have hsquare : b * b * slack * slack = (b * slack) ^ 2 := by ring
    have hone := one_le_mul_of_one_le_of_one_le hb hb
    have hc : 1 ≤ b * slack := one_le_mul_of_one_le_of_one_le hb hslack
    have hroom : ∀ m ≤ n, a * (b * slack) ^ m < 2 ^ (1020 : ℤ) := fun m hm =>
      (mul_le_mul_of_nonneg_left (pow_le_pow_right₀ hc hm) (by linarith)).trans_lt hsize
    have hbase' : Within (base * base) (b * b * slack) := by
      refine hbase.mul hbase hone (lt_of_le_of_lt ?_ (hroom 2 (by omega)))
      rw [← hsquare, mul_assoc (b * b)]
      have hgrown := le_mul_of_one_le_right (zero_le_one.trans hone)
        (one_le_mul_of_one_le_of_one_le hslack hslack)
      exact hgrown.trans (le_mul_of_one_le_left (by linarith) ha)
    have hb' : 1 ≤ b * b * slack := one_le_mul_of_one_le_of_one_le hone hslack
    simp only [dite_eq_ite] at ih
    split
    next hodd =>
      have hacc' : Within (acc * base) (a * b * slack) := by
        refine hacc.mul hbase (one_le_mul_of_one_le_of_one_le ha hb) ?_
        have hfirst := hroom 1 (by omega)
        rw [pow_one, ← mul_assoc] at hfirst
        exact (le_mul_of_one_le_right (by positivity) hslack).trans_lt hfirst
      have hpower : a * b * slack * (b * b * slack * slack) ^ (n / 2) = a * (b * slack) ^ n := by
        have hn : n = 2 * (n / 2) + 1 := by omega
        rw [hsquare, ← pow_mul]
        conv_rhs => rw [hn, pow_succ]
        ring
      rw [if_pos hodd] at ih
      rw [← hpower] at hsize ⊢
      have ha' := one_le_mul_of_one_le_of_one_le (one_le_mul_of_one_le_of_one_le ha hb) hslack
      exact ih hacc' hbase' ha' hb' hsize
    next heven =>
      have hpower : a * (b * b * slack * slack) ^ (n / 2) = a * (b * slack) ^ n := by
        have hn : 2 * (n / 2) = n := by omega
        rw [hsquare, ← pow_mul, hn]
      rw [if_neg heven] at ih
      rw [← hpower] at hsize ⊢
      exact ih hacc hbase' ha hb' hsize

/-! ## Signs -/

theorem isSigned_powGo (n : ℕ) (hacc : IsSigned .positive acc) (hbase : IsSigned .positive base) :
    IsSigned .positive (Arith.powGo acc base n) := by
  fun_induction Arith.powGo acc base n with
  | case1 acc base => exact isSigned_mul hacc hbase
  | case2 acc base n => exact hacc
  | case3 acc base n _ ih =>
    refine ih ?_ (isSigned_mul hbase hbase)
    split
    · exact isSigned_mul hacc hbase
    · exact hacc

/-! ## Powers of ten -/

theorem one_eq_literal : (Arith.one : Double) = one :=
  congrArg mk (by decide +kernel : (Arith.one : Double).bits = one.bits)

theorem ten_eq : (10.0 : Double).isFinite = true ∧ (10.0 : Double).isNegative = false ∧
    (10.0 : Double).toRat = 10 := by
  have hparts : (10.0 : Double).isFinite = true ∧ (10.0 : Double).isNegative = false ∧
      (10.0 : Double).exponentBits = 1026 ∧ (10.0 : Double).fractionBits = 2 ^ 50 := by
    decide +kernel
  obtain ⟨hfinite, hsign, hexponent, hfraction⟩ := hparts
  refine ⟨hfinite, hsign, ?_⟩
  rw [toRat, hsign, hexponent, hfraction]
  norm_num

/-- The slack of a power that stays in the range of floats is small. -/
theorem slack_pow_le {n : ℕ} (hn : n ≤ 307) : slack ^ n ≤ 11 / 10 := by
  have hslack : slack = (2 ^ 52 + 1 : ℕ) / (2 ^ 52 : ℕ) := by
    rw [slack]
    norm_num
  have hmost : (2 ^ 52 + 1) ^ 307 * 10 ≤ 11 * (2 ^ 52) ^ 307 := by decide +kernel
  calc slack ^ n
      ≤ slack ^ 307 := pow_le_pow_right₀ one_le_slack hn
    _ = ((2 ^ 52 + 1) ^ 307 : ℕ) / ((2 ^ 52) ^ 307 : ℕ) := by
      simp only [hslack, div_pow, Nat.cast_pow]
    _ ≤ (11 : ℕ) / (10 : ℕ) := by
      rw [div_le_div_iff₀ (Nat.cast_pos.mpr (by positivity)) (by norm_num)]
      exact_mod_cast hmost

theorem ten_pow_lt {n : ℕ} (hn : n ≤ 307) : (11 / 10 * 10 ^ n : ℚ) < 2 ^ (1020 : ℤ) := by
  have hmost : 11 * 10 ^ n < 10 * 2 ^ 1020 :=
    (Nat.mul_le_mul_left 11 (Nat.pow_le_pow_right (by decide) hn)).trans_lt (by decide +kernel)
  have hcast : (11 * 10 ^ n : ℚ) < 10 * 2 ^ (1020 : ℤ) := by exact_mod_cast hmost
  linarith only [hcast]

theorem within_pow_ten {n : ℕ} (hn : n ≤ 307) :
    Within (Arith.pow (10.0 : Double) n) (11 / 10 * 10 ^ n) := by
  have hone : Within (Arith.one : Double) 1 := by
    rw [one_eq_literal]
    exact ⟨one_eq.1, one_eq.2 ▸ zero_le_one, one_eq.2.le⟩
  have hten : Within (10.0 : Double) 10 := ⟨ten_eq.1, by rw [ten_eq.2.2]; norm_num, ten_eq.2.2.le⟩
  have hle : 1 * (10 * slack) ^ n ≤ 11 / 10 * 10 ^ n := by
    rw [one_mul, mul_pow, mul_comm]
    exact mul_le_mul_of_nonneg_right (slack_pow_le hn) (by positivity)
  exact (hone.powGo n hten le_rfl (by norm_num) (hle.trans_lt (ten_pow_lt hn))).mono hle

theorem isSigned_pow_ten (n : ℕ) : IsSigned .positive (Arith.pow (10.0 : Double) n) := by
  refine isSigned_powGo n ?_ (isSigned_positive ten_eq.2.1)
  rw [one_eq_literal]
  exact isSigned_positive (by decide)

end Hydroseries.Double
