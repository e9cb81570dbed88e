import Hydroseries.Proofs.Decimal.Value
import Mathlib.Algebra.Ring.Parity

/-!
# Rounding to decimals

A magnitude is rounded to a decimal grid exactly, ties going to the even neighbour
(`Exact.nearest_unitsAt`). For a given number of significant digits the grid is chosen by the
exponent of the leading digit (`Exact.leadingExponent_spec`), which is estimated from the binary
logarithm; a carry out of the leading digit moves the exponent (`Exact.significant_spec`).
-/

namespace Hydroseries.Decimal

/-- The natural is nearest to the number, and even if a neighbour is as near. -/
def Nearest (n : ℕ) (q : ℚ) : Prop := |q - n| ≤ 1 / 2 ∧ (|q - n| = 1 / 2 → Even n)

namespace Nearest

variable {n N : ℕ} {q : ℚ}

theorem of_lt (h : |q - n| < 1 / 2) : Nearest n q := ⟨h.le, fun heq => absurd heq h.ne⟩

theorem le_add_half (h : Nearest n q) : (n : ℚ) ≤ q + 1 / 2 := by
  linarith [neg_le_of_abs_le h.1]

theorem sub_half_le (h : Nearest n q) : q - 1 / 2 ≤ n := by
  linarith [le_of_abs_le h.1]

theorem lt_of_lt (h : Nearest n q) (hq : q < N - 1 / 2) : n < N := by
  have hlt : (n : ℚ) < N := by linarith [h.le_add_half]
  exact_mod_cast hlt

theorem ge_of_le (h : Nearest n q) (hq : (N : ℚ) ≤ q) : N ≤ n := by
  by_contra hlt
  have hbelow : (n : ℚ) + 1 ≤ N := by exact_mod_cast Nat.not_le.mp hlt
  linarith [h.sub_half_le]

theorem le_of_lt (h : Nearest n q) (hq : q < N) : n ≤ N := by
  by_contra hgt
  have habove : (N : ℚ) + 1 ≤ n := by exact_mod_cast Nat.not_le.mp hgt
  linarith [h.le_add_half]

/-- What lies halfway below an even natural is not rounded down. -/
theorem le_of_le (h : Nearest n q) (hN : Even N) (hq : (N : ℚ) - 1 / 2 ≤ q) : N ≤ n := by
  by_contra hlt
  have hbelow : (n : ℚ) + 1 ≤ N := by exact_mod_cast Nat.not_le.mp hlt
  have hhalf : |q - n| = 1 / 2 := le_antisymm h.1 (le_abs.mpr (.inl (by linarith)))
  have hn : (n : ℚ) + 1 = N := by
    linarith [h.sub_half_le]
  have hsucc : n + 1 = N := by exact_mod_cast hn
  exact absurd (hsucc ▸ hN) (Nat.even_add_one.not.mpr (not_not.mpr (h.2 hhalf)))

end Nearest

/-- A quotient is rounded to the nearest natural, ties to even. -/
theorem nearest_roundDiv (num : ℕ) {den : ℕ} (hden : 0 < den) :
    Nearest (roundDiv num den .toEven) (num / den) := by
  have hpos : (0 : ℚ) < den := Nat.cast_pos.mpr hden
  have hq : (num / den : ℚ) = (num / den : ℕ) + (num % den : ℕ) / den := by
    have hdiv : (num : ℚ) = den * (num / den : ℕ) + (num % den : ℕ) := by
      exact_mod_cast (Nat.div_add_mod num den).symm
    rw [div_eq_iff hpos.ne', add_mul, div_mul_cancel₀ _ hpos.ne', mul_comm, ← hdiv]
  have hrest : (0 : ℚ) ≤ (num % den : ℕ) / den := by positivity
  have hone : ((num % den : ℕ) / den : ℚ) < 1 := by
    rw [div_lt_one hpos]
    exact_mod_cast Nat.mod_lt num hden
  rw [hq]
  unfold roundDiv
  split
  next hlt =>
    have hsmall : ((num % den : ℕ) / den : ℚ) < 1 / 2 := by
      rw [div_lt_div_iff₀ hpos two_pos, one_mul, mul_comm]
      exact_mod_cast Nat.compare_eq_lt.mp hlt
    refine .of_lt ?_
    rw [add_sub_cancel_left, abs_of_nonneg hrest]
    exact hsmall
  next hgt =>
    have hlarge : 1 / 2 < ((num % den : ℕ) / den : ℚ) := by
      rw [div_lt_div_iff₀ two_pos hpos, one_mul, mul_comm]
      exact_mod_cast Nat.compare_eq_gt.mp hgt
    refine .of_lt ?_
    push_cast
    rw [add_sub_add_left_eq_sub, abs_lt]
    constructor <;> linarith
  next hmode => cases hmode
  next heq _ =>
    have hhalf : ((num % den : ℕ) / den : ℚ) = 1 / 2 := by
      rw [div_eq_div_iff hpos.ne' two_ne_zero, one_mul, mul_comm]
      exact_mod_cast Nat.compare_eq_eq.mp heq
    rw [hhalf]
    dsimp only
    split
    next heven =>
      refine ⟨by norm_num, fun _ => ?_⟩
      exact Nat.even_iff.mpr (by simpa using heven)
    next hodd =>
      refine ⟨by norm_num, fun _ => ?_⟩
      exact Nat.even_add_one.mpr (Nat.not_even_iff_odd.mpr (Nat.odd_iff.mpr (by simpa using hodd)))

/-! ## Powers of two and ten -/

/-- Thirty-one decimal digits are a little less than a hundred and three binary ones. -/
theorem ten_zpow_le_two_zpow {a b : ℤ} (hpos : 103 * a ≤ 31 * b) (hneg : 93 * a ≤ 28 * b) :
    (10 : ℚ) ^ a ≤ 2 ^ b := by
  rcases le_total 0 b with hb | hb
  · obtain ⟨n, rfl⟩ := Int.eq_ofNat_of_zero_le hb
    refine le_of_pow_le_pow_left₀ (n := 103) (by norm_num) (by positivity) ?_
    calc ((10 : ℚ) ^ a) ^ 103 = 10 ^ (103 * a) := by rw [← zpow_natCast, ← zpow_mul, mul_comm]; rfl
      _ ≤ 10 ^ (31 * (n : ℤ)) := zpow_le_zpow_right₀ (by norm_num) hpos
      _ = (10 ^ 31) ^ n := by rw [zpow_mul, zpow_natCast]; rfl
      _ ≤ (2 ^ 103) ^ n := pow_le_pow_left₀ (by norm_num) (by norm_num) n
      _ = (2 ^ (n : ℤ)) ^ 103 := by rw [zpow_natCast, ← pow_mul, ← pow_mul, mul_comm]
  · obtain ⟨n, hn⟩ := Int.eq_ofNat_of_zero_le (neg_nonneg.mpr hb)
    obtain rfl : b = -(n : ℤ) := by omega
    refine le_of_pow_le_pow_left₀ (n := 93) (by norm_num) (by positivity) ?_
    calc ((10 : ℚ) ^ a) ^ 93 = 10 ^ (93 * a) := by rw [← zpow_natCast, ← zpow_mul, mul_comm]; rfl
      _ ≤ 10 ^ (28 * -(n : ℤ)) := zpow_le_zpow_right₀ (by norm_num) hneg
      _ = ((10 ^ 28) ^ n)⁻¹ := by rw [mul_neg, zpow_neg, zpow_mul, zpow_natCast]; rfl
      _ ≤ ((2 ^ 93) ^ n)⁻¹ :=
        inv_anti₀ (by positivity) (pow_le_pow_left₀ (by norm_num) (by norm_num) n)
      _ = (2 ^ (-(n : ℤ))) ^ 93 := by
        rw [zpow_neg, zpow_natCast, inv_pow, ← pow_mul, ← pow_mul, mul_comm]

theorem two_zpow_le_ten_zpow {a b : ℤ} (hpos : 31 * b ≤ 103 * a) (hneg : 28 * b ≤ 93 * a) :
    (2 : ℚ) ^ b ≤ 10 ^ a := by
  have h := ten_zpow_le_two_zpow (a := -a) (b := -b) (by omega) (by omega)
  rw [zpow_neg, zpow_neg] at h
  exact (inv_le_inv₀ (by positivity) (by positivity)).mp h

/-- A power of ten as a quotient of naturals. -/
theorem ten_zpow_eq (e : ℤ) :
    (10 : ℚ) ^ e = (10 ^ e.toNat : ℕ) / (10 ^ (-e).toNat : ℕ) := by
  rcases le_total 0 e with he | he
  · obtain ⟨n, rfl⟩ := Int.eq_ofNat_of_zero_le he
    simp
  · obtain ⟨n, hn⟩ := Int.eq_ofNat_of_zero_le (neg_nonneg.mpr he)
    obtain rfl : e = -(n : ℤ) := by omega
    simp

/-! ## Digits of a magnitude -/

namespace Exact

variable {x : Exact}

theorem comparePow_eq_lt (hden : 0 < x.den) (e : ℤ) :
    x.comparePow e = .lt ↔ (x.num / x.den : ℚ) < 10 ^ e := by
  have hden' : (0 : ℚ) < x.den := Nat.cast_pos.mpr hden
  have hten : (0 : ℚ) < (10 ^ (-e).toNat : ℕ) := Nat.cast_pos.mpr (Nat.pow_pos (by decide))
  rw [comparePow, Nat.compare_eq_lt, ten_zpow_eq, div_lt_div_iff₀ hden' hten, mul_comm (_ : ℚ) x.den]
  norm_cast

/-- The magnitude in units of a decimal grid is rounded to the nearest. -/
theorem nearest_unitsAt (hden : 0 < x.den) (places : ℤ) :
    Nearest (x.unitsAt places .toEven) (x.num / x.den * 10 ^ places) := by
  have hquotient : (x.num / x.den * 10 ^ places : ℚ) =
      (x.num * 10 ^ places.toNat : ℕ) / (x.den * 10 ^ (-places).toNat : ℕ) := by
    rw [ten_zpow_eq, div_mul_div_comm]
    push_cast
    rfl
  rw [hquotient]
  exact nearest_roundDiv _ (Nat.mul_pos hden (Nat.pow_pos (by decide)))

/-- A quotient lies between the powers of two that the lengths of its terms tell. -/
theorem log2_bounds (hnum : 0 < x.num) (hden : 0 < x.den) :
    (2 : ℚ) ^ ((x.num.log2 : ℤ) - x.den.log2 - 1) < x.num / x.den ∧
      (x.num / x.den : ℚ) < 2 ^ ((x.num.log2 : ℤ) - x.den.log2 + 1) := by
  have hden' : (0 : ℚ) < x.den := Nat.cast_pos.mpr hden
  have hnumlow : (2 : ℚ) ^ (x.num.log2 : ℤ) ≤ x.num := by
    rw [zpow_natCast]
    exact_mod_cast Nat.log2_self_le hnum.ne'
  have hnumhigh : (x.num : ℚ) < 2 ^ ((x.num.log2 : ℤ) + 1) := by
    exact_mod_cast Nat.lt_log2_self
  have hdenlow : (2 : ℚ) ^ (x.den.log2 : ℤ) ≤ x.den := by
    rw [zpow_natCast]
    exact_mod_cast Nat.log2_self_le hden.ne'
  have hdenhigh : (x.den : ℚ) < 2 ^ ((x.den.log2 : ℤ) + 1) := by
    exact_mod_cast Nat.lt_log2_self
  constructor
  · rw [lt_div_iff₀ hden']
    calc (2 : ℚ) ^ ((x.num.log2 : ℤ) - x.den.log2 - 1) * x.den
        < 2 ^ ((x.num.log2 : ℤ) - x.den.log2 - 1) * 2 ^ ((x.den.log2 : ℤ) + 1) :=
          mul_lt_mul_of_pos_left hdenhigh (by positivity)
      _ = 2 ^ (x.num.log2 : ℤ) := by
          rw [← zpow_add₀ two_ne_zero]
          congr 1
          ring
      _ ≤ x.num := hnumlow
  · rw [div_lt_iff₀ hden']
    calc (x.num : ℚ) < 2 ^ ((x.num.log2 : ℤ) + 1) := hnumhigh
      _ = 2 ^ ((x.num.log2 : ℤ) - x.den.log2 + 1) * 2 ^ (x.den.log2 : ℤ) := by
          rw [← zpow_add₀ two_ne_zero]
          congr 1
          ring
      _ ≤ 2 ^ ((x.num.log2 : ℤ) - x.den.log2 + 1) * x.den :=
          mul_le_mul_of_nonneg_left hdenlow (by positivity)

/-- The exponent of the leading digit. The estimate misses by at most one for quotients of moderate
length. -/
theorem leadingExponent_spec (hnum : 0 < x.num) (hden : 0 < x.den)
    (hsize : ((x.num.log2 : ℤ) - x.den.log2).natAbs ≤ 10000) :
    (10 : ℚ) ^ x.leadingExponent ≤ x.num / x.den ∧
      (x.num / x.den : ℚ) < 10 ^ (x.leadingExponent + 1) := by
  obtain ⟨hlow, hhigh⟩ := log2_bounds hnum hden
  unfold leadingExponent
  dsimp only
  generalize hguess : ((x.num.log2 : ℤ) - x.den.log2) * 30103 / 100000 = guess
  have hbelow : (10 : ℚ) ^ (guess - 1) ≤ x.num / x.den :=
    (ten_zpow_le_two_zpow (by omega) (by omega)).trans hlow.le
  have habove : (x.num / x.den : ℚ) < 10 ^ (guess + 2) :=
    hhigh.trans_le (two_zpow_le_ten_zpow (by omega) (by omega))
  have hnext := comparePow_eq_lt hden (guess + 1)
  have hself := comparePow_eq_lt hden guess
  by_cases hlarge : x.comparePow (guess + 1) = .lt
  · rw [hlarge, if_neg (by decide)]
    by_cases hsmall : x.comparePow guess = .lt
    · rw [hsmall, if_pos (by rfl), sub_add_cancel]
      exact ⟨hbelow, hself.mp hsmall⟩
    · rw [if_neg (by simpa using hsmall)]
      exact ⟨not_lt.mp fun hlt => hsmall (hself.mpr hlt), hnext.mp hlarge⟩
  · rw [if_pos (by simpa using hlarge), add_assoc]
    exact ⟨not_lt.mp fun hlt => hlarge (hnext.mpr hlt), habove⟩

/-- A carry out of the leading digit leaves a power of ten. -/
theorem nearest_carry {N : ℕ} {q : ℚ} (h : Nearest (10 * N) q) : Nearest N (q / 10) := by
  have hlow := h.sub_half_le
  have hhigh := h.le_add_half
  push_cast at hlow hhigh
  refine .of_lt ?_
  rw [abs_lt]
  constructor <;> linarith

/-- Rounding to significant digits: there are as many as asked for, and they count the units of the
grid that they end at. -/
theorem significant_spec (hnum : 0 < x.num) (hden : 0 < x.den)
    (hsize : ((x.num.log2 : ℤ) - x.den.log2).natAbs ≤ 10000) (figures : ℕ) :
    10 ^ figures ≤ (x.significant figures).1 ∧ (x.significant figures).1 < 10 ^ (figures + 1) ∧
      Nearest (x.significant figures).1
        (x.num / x.den * 10 ^ ((figures : ℤ) - (x.significant figures).2)) := by
  obtain ⟨hlow, hhigh⟩ := leadingExponent_spec hnum hden hsize
  have hunits := nearest_unitsAt hden ((figures : ℤ) - x.leadingExponent)
  have hscale : ∀ e : ℤ, (10 : ℚ) ^ e * 10 ^ ((figures : ℤ) - x.leadingExponent) =
      10 ^ (e - x.leadingExponent + figures) := by
    intro e
    rw [← zpow_add₀ (by norm_num)]
    congr 1
    ring
  have hleast : ((10 ^ figures : ℕ) : ℚ) ≤
      x.num / x.den * 10 ^ ((figures : ℤ) - x.leadingExponent) := by
    have hmul := mul_le_mul_of_nonneg_right hlow
      (show (0 : ℚ) ≤ 10 ^ ((figures : ℤ) - x.leadingExponent) by positivity)
    rw [hscale, sub_self, zero_add, zpow_natCast] at hmul
    exact_mod_cast hmul
  have hbound : x.num / x.den * 10 ^ ((figures : ℤ) - x.leadingExponent) <
      ((10 ^ (figures + 1) : ℕ) : ℚ) := by
    have hmul := mul_lt_mul_of_pos_right hhigh
      (show (0 : ℚ) < 10 ^ ((figures : ℤ) - x.leadingExponent) by positivity)
    rw [hscale, add_sub_cancel_left, add_comm] at hmul
    exact_mod_cast hmul
  have hne : (x.num == 0) = false := by simpa using hnum.ne'
  simp only [significant, hne, Bool.false_eq_true, if_false, Nat.pow_eq]
  split
  next hcarry =>
    -- The digits are those of the next power of ten.
    have hfull : x.unitsAt ((figures : ℤ) - x.leadingExponent) .toEven = 10 * 10 ^ figures := by
      rw [← Nat.pow_succ']
      exact le_antisymm (hunits.le_of_lt hbound) hcarry
    have hquotient : x.num / x.den * 10 ^ ((figures : ℤ) - (x.leadingExponent + 1)) =
        (x.num / x.den * 10 ^ ((figures : ℤ) - x.leadingExponent) / 10 : ℚ) := by
      rw [← sub_sub, zpow_sub_one₀ (by norm_num), ← mul_assoc]
      exact (div_eq_mul_inv _ _).symm
    rw [hfull] at hunits ⊢
    rw [Nat.mul_div_cancel_left _ (by decide), hquotient]
    exact ⟨le_rfl, Nat.pow_lt_pow_right (by decide) (Nat.lt_succ_self _), nearest_carry hunits⟩
  next hfits =>
    dsimp only
    exact ⟨hunits.ge_of_le hleast, not_le.mp hfits, hunits⟩

/-! ## Digits of a float -/

theorem num_pos {v : Double} (hv : v.toRat ≠ 0) : 0 < (ofDouble v).num := by
  refine Nat.pos_of_ne_zero fun hzero => hv ?_
  rw [← abs_eq_zero, ← num_div_den, hzero, Nat.cast_zero, zero_div]

/-- Floats are of moderate length. -/
theorem natAbs_log2_ofDouble_le (v : Double) :
    (((ofDouble v).num.log2 : ℤ) - (ofDouble v).den.log2).natAbs ≤ 1100 := by
  have hexp : v.exponentBits < 2048 := by
    have hbits := v.toNat_magnitude
    rw [Double.exponentBits_eq]
    omega
  have hfraction : v.fractionBits < 2 ^ 52 := by
    rw [Double.fractionBits_eq]
    exact Nat.mod_lt _ (by decide)
  have hsignificand : (if v.exponentBits == 0 then v.fractionBits
      else Nat.pow 2 52 + v.fractionBits) < 2 ^ 53 := by
    rw [Nat.pow_eq]
    split <;> omega
  have hnum : (ofDouble v).num < 2 ^ (53 + (v.exponentBits - 1075)) := by
    rw [Nat.pow_add]
    exact Nat.mul_lt_mul_of_pos_right hsignificand (Nat.pow_pos (by decide))
  have hnumlog : (ofDouble v).num.log2 < 53 + (v.exponentBits - 1075) := by
    by_cases hzero : (ofDouble v).num = 0
    · rw [hzero, Nat.log2_zero]
      exact Nat.add_pos_left (by decide) _
    · exact (Nat.log2_lt hzero).mpr hnum
  have hdenlog : (ofDouble v).den.log2 ≤ 1075 := by
    simp only [ofDouble, Nat.pow_eq, Nat.log2_two_pow]
    split <;> omega
  omega

/-- A float other than zero, rounded to significant digits. -/
theorem significant_ofDouble {v : Double} (hv : v.toRat ≠ 0) (figures : ℕ) :
    10 ^ figures ≤ ((ofDouble v).significant figures).1 ∧
      ((ofDouble v).significant figures).1 < 10 ^ (figures + 1) ∧
      Nearest ((ofDouble v).significant figures).1
        (|v.toRat| * 10 ^ ((figures : ℤ) - ((ofDouble v).significant figures).2)) := by
  rw [← num_div_den v]
  exact significant_spec (num_pos hv) (den_pos v)
    ((natAbs_log2_ofDouble_le v).trans (by decide)) figures

/-- The exponent of a float has three digits at most. -/
theorem natAbs_exponent_le (v : Double) (figures : ℕ) :
    ((ofDouble v).significant figures).2.natAbs ≤ 401 := by
  have hsize := natAbs_log2_ofDouble_le v
  have hleading : (ofDouble v).leadingExponent.natAbs ≤ 400 := by
    unfold leadingExponent
    dsimp only
    split
    · omega
    · split <;> omega
  unfold significant
  dsimp only
  split
  · decide
  · split <;> dsimp only <;> omega

end Exact

/-! ## Whole numbers -/

variable {x : Double}

theorem nearest_eq (x : Double) : nearest x = (if x.isNegative then -1 else 1) *
    (roundDiv (Exact.ofDouble x).num (Exact.ofDouble x).den .awayFromZero : ℤ) := by
  show (if x.isNegative then -_ else _ : ℤ) = _
  split <;> simp

/-- A float is at most a half away from the nearest whole number. -/
theorem abs_nearest_sub_le (x : Double) : |(nearest x : ℚ) - x.toRat| ≤ 1 / 2 := by
  have hden := Exact.den_pos x
  have hden' : (0 : ℚ) < (Exact.ofDouble x).den := Nat.cast_pos.mpr hden
  obtain ⟨hhigh, hlow⟩ := roundDiv_near (Exact.ofDouble x).num (Exact.ofDouble x).den
    .awayFromZero hden
  have hquotient := Exact.num_div_den x
  have hsigned := nearest_eq x
  generalize roundDiv (Exact.ofDouble x).num (Exact.ofDouble x).den .awayFromZero = n at *
  have hnear : |n - ((Exact.ofDouble x).num / (Exact.ofDouble x).den : ℚ)| ≤ 1 / 2 := by
    have hnum : ((Exact.ofDouble x).num : ℚ) =
        (Exact.ofDouble x).num / (Exact.ofDouble x).den * (Exact.ofDouble x).den :=
      (div_mul_cancel₀ _ hden'.ne').symm
    have hhigh' : 2 * ((n : ℚ) * (Exact.ofDouble x).den) ≤
        2 * (Exact.ofDouble x).num + (Exact.ofDouble x).den := by exact_mod_cast hhigh
    have hlow' : 2 * ((Exact.ofDouble x).num : ℚ) ≤
        2 * (n * (Exact.ofDouble x).den) + (Exact.ofDouble x).den := by exact_mod_cast hlow
    generalize ((Exact.ofDouble x).num / (Exact.ofDouble x).den : ℚ) = q at hnum
    rw [hnum] at hhigh' hlow'
    rw [abs_le]
    constructor
    · refine le_of_mul_le_mul_right ?_ hden'
      linarith
    · refine le_of_mul_le_mul_right ?_ hden'
      linarith
  rw [hquotient] at hnear
  rw [hsigned, x.toRat_eq_abs]
  push_cast
  rw [← mul_sub, abs_mul]
  split <;> simpa using hnear

theorem roundToWord64_eq (hx : x.isFinite = true) (hsize : |x.toRat| < 2 ^ 62) :
    roundToWord64 x = nearest x := by
  have hnear := abs_le.mp (abs_nearest_sub_le x)
  have hsize' := abs_lt.mp hsize
  have hlow : (-2 ^ 63 : ℚ) ≤ nearest x := by linarith
  have hhigh : (nearest x : ℚ) ≤ 2 ^ 63 - 1 := by linarith
  have hlow' : -2 ^ 63 ≤ nearest x := by exact_mod_cast hlow
  have hhigh' : nearest x ≤ 2 ^ 63 - 1 := by exact_mod_cast hhigh
  rw [roundToWord64, boundedBy, if_neg (ne_true_of_eq_false (Double.isNaN_of_isFinite hx)),
    if_neg (ne_true_of_eq_false (Double.isInf_of_isFinite hx)), clamp]
  simp only [Nat.pow_eq]
  push_cast
  rw [if_neg (by omega), if_neg (by omega)]

/-- Going away from zero at a half is rounding down what lies a half above. -/
theorem roundDiv_away (num : ℕ) {den : ℕ} (hden : 0 < den) :
    roundDiv num den .awayFromZero = (2 * num + den) / (2 * den) := by
  have hnum : den * (num / den) + num % den = num := Nat.div_add_mod num den
  have hrest : num % den < den := Nat.mod_lt _ hden
  simp only [roundDiv]
  generalize num / den = q at *
  generalize num % den = r at *
  have hunits : ∀ k : ℕ, k * (2 * den) = 2 * (den * k) := fun k => by ring
  have hnext : ∀ k : ℕ, den * (k + 1) = den * k + den := Nat.mul_succ den
  symm
  split
  next h =>
    rw [Nat.compare_eq_lt] at h
    apply Nat.div_eq_of_lt_le <;> simp only [hunits, hnext] <;> omega
  next h =>
    rw [Nat.compare_eq_gt] at h
    apply Nat.div_eq_of_lt_le <;> simp only [hunits, hnext] <;> omega
  next h _ =>
    rw [Nat.compare_eq_eq] at h
    apply Nat.div_eq_of_lt_le <;> simp only [hunits, hnext] <;> omega
  next htie => cases htie

/-- The whole number nearest to a float is above a natural if the float is at least a half above it. -/
theorem lt_nearest_iff (n : ℕ) : (n : ℤ) < nearest x ↔ (n : ℚ) + 1 / 2 ≤ x.toRat := by
  have hden := Exact.den_pos x
  have hden' : (0 : ℚ) < (Exact.ofDouble x).den := Nat.cast_pos.mpr hden
  have hround : n < roundDiv (Exact.ofDouble x).num (Exact.ofDouble x).den .awayFromZero ↔
      (n : ℚ) + 1 / 2 ≤ |x.toRat| := by
    rw [roundDiv_away _ hden, ← Nat.succ_le_iff, Nat.le_div_iff_mul_le (by omega),
      ← Exact.num_div_den, le_div_iff₀ hden', ← Nat.cast_le (α := ℚ)]
    push_cast
    constructor <;> intro h <;> linarith
  rw [nearest_eq, x.toRat_eq_abs]
  cases x.isNegative with
  | false => simpa using hround
  | true =>
    have hn : (0 : ℚ) ≤ n := Nat.cast_nonneg n
    have habs := abs_nonneg x.toRat
    simp only [if_true]
    refine iff_of_false (by omega) fun h => ?_
    linarith

/-- A float is rounded to a machine word above a natural if it is infinite, or at least a half above. -/
theorem lt_roundToWord64_iff {n : ℕ} (hn : n + 1 < 2 ^ 63) : (n : ℤ) < roundToWord64 x ↔
    (x.isInf = true ∧ x.isNegative = false) ∨
      (x.isFinite = true ∧ (n : ℚ) + 1 / 2 ≤ x.toRat) := by
  rw [x.isFinite_eq, ← lt_nearest_iff, roundToWord64, boundedBy]
  cases hnan : x.isNaN with
  | true =>
    have hinf : x.isInf = false := by
      rw [Double.isInf, beq_eq_false_iff_ne]
      rintro heq
      rw [Double.isNaN, heq, decide_eq_true_eq] at hnan
      exact absurd hnan (by decide)
    simp [hinf]
  | false =>
    cases hinf : x.isInf with
    | true =>
      cases x.isNegative with
      | true => simp [Nat.pow_eq]
      | false =>
        simp only [Nat.pow_eq, Bool.false_eq_true, if_false, if_true, and_self, true_or, iff_true]
        push_cast
        omega
    | false =>
      simp only [clamp, Nat.pow_eq, Bool.false_eq_true, if_false, false_and, false_or, Bool.not_false,
        Bool.and_self, true_and]
      push_cast
      omega

end Hydroseries.Decimal
