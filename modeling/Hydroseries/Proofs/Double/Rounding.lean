import Hydroseries.Proofs.Double.Unpacked

/-!
# Arithmetic of floats

The difference and the product of finite floats are the exact ones, rounded to a multiple of the unit
in their last place (`sub_rounds`, `mul_rounds`). So they are exact if they are whole numbers of at
most fifty-three bits (`Rounds.eq_of_whole`), and else miss by a small part (`Rounds.abs_sub_le`).

Out of the range of floats the signs of results are still right. So what is below a difference is
not much above the minuend, whatever has been taken from it (`abs_toRat_lt_of_lt_sub`).
-/

namespace Hydroseries.Double

open Float.Model Float.Model.UnpackedFloat

variable {x y : Double} {u w : UnpackedFloat} {v r : ℚ} {t : ℤ}

/-! ## Nearest multiples -/

/-- A multiple of `2 ^ t` that is nearest to `v`; the unit is that of the last of the fifty-three
bits of `v`, or the least one. -/
structure Rounds (v r : ℚ) (t : ℤ) : Prop where
  multiple : ∃ n : ℤ, r = n * 2 ^ t
  near : |r - v| ≤ 2 ^ t / 2
  place : t = -1074 ∨ 2 ^ (t + 52) ≤ |v|

namespace Rounds

/-- A whole number of at most fifty-three bits stays as it is. -/
theorem eq_of_whole {n : ℤ} (h : Rounds n r t) (hn : |n| < 2 ^ 53) : r = n := by
  have hunit : (0 : ℚ) < 2 ^ t := by positivity
  have ht : t ≤ 0 := by
    rcases h.place with rfl | hplace
    · decide
    · have hn' : |(n : ℚ)| < 2 ^ (53 : ℤ) := by exact_mod_cast hn
      have hlt := (zpow_lt_zpow_iff_right₀ one_lt_two).mp (hplace.trans_lt hn')
      omega
  obtain ⟨k, rfl⟩ := h.multiple
  obtain ⟨j, hj⟩ := Int.eq_ofNat_of_zero_le (neg_nonneg.mpr ht)
  -- The number is a multiple of the unit as well, so it is the nearest one.
  have hmultiple : (n : ℚ) = (n * 2 ^ j : ℤ) * 2 ^ t := by
    have ht' : t = -(j : ℤ) := by omega
    push_cast
    rw [ht', mul_assoc, ← zpow_natCast, ← zpow_add₀ two_ne_zero, add_neg_cancel, zpow_zero, mul_one]
  have hnear := h.near
  rw [hmultiple, ← sub_mul, abs_mul, abs_of_pos hunit, ← mul_one_div, mul_comm (2 ^ t : ℚ),
    mul_le_mul_iff_left₀ hunit, ← Int.cast_sub, ← Int.cast_abs] at hnear
  have hzero : |k - n * 2 ^ j| < 1 := by
    have hlt : ((|k - n * 2 ^ j| : ℤ) : ℚ) < 1 := hnear.trans_lt (by norm_num)
    exact_mod_cast hlt
  rw [Int.abs_lt_one_iff, sub_eq_zero] at hzero
  rw [hzero, ← hmultiple]

theorem nonneg (h : Rounds v r t) (hv : 0 ≤ v) : 0 ≤ r := by
  have hunit : (0 : ℚ) < 2 ^ t := by positivity
  obtain ⟨n, rfl⟩ := h.multiple
  refine mul_nonneg ?_ hunit.le
  by_contra hneg
  have hlt : n < 0 := by exact_mod_cast not_le.mp hneg
  have hn : (n : ℚ) ≤ -1 := by exact_mod_cast Int.le_sub_one_of_lt hlt
  linarith [(abs_le.mp h.near).1, mul_le_mul_of_nonneg_right hn hunit.le]

/-- The error is at most half of the last of fifty-three bits, or the least float. -/
theorem abs_sub_le (h : Rounds v r t) : |r - v| ≤ |v| / 2 ^ 53 + 2 ^ (-1074 : ℤ) := by
  have hnear := h.near
  have hleast : (0 : ℚ) < 2 ^ (-1074 : ℤ) := by positivity
  rcases h.place with rfl | hplace
  · have hpart : 0 ≤ |v| / 2 ^ 53 := by positivity
    linarith
  · have hunit : (2 : ℚ) ^ t / 2 = 2 ^ (t + 52) / 2 ^ 53 := by
      rw [zpow_add₀ two_ne_zero]
      norm_num
      ring
    have hpart : (2 : ℚ) ^ (t + 52) / 2 ^ 53 ≤ |v| / 2 ^ 53 := by gcongr
    linarith

end Rounds

/-! ## Shifting -/

/-- The number that a mantissa with its two further bits stands for: the first one is a half, and
the second one says whether anything is left. -/
def Stands (em : ExtendedMantissa) (q : ℚ) : Prop :=
  match em.roundBit, em.stickyBit with
  | false, false => q = em.mantissa
  | false, true => (em.mantissa : ℚ) < q ∧ q < em.mantissa + 1 / 2
  | true, false => q = em.mantissa + 1 / 2
  | true, true => (em.mantissa : ℚ) + 1 / 2 < q ∧ q < em.mantissa + 1

theorem Stands.shiftRightOne {em : ExtendedMantissa} {q : ℚ} (h : Stands em q) :
    Stands em.shiftRightOne (q / 2) := by
  obtain ⟨m, round, sticky⟩ := em
  have hm : ((m % 2 : ℕ) : ℚ) + 2 * (m / 2 : ℕ) = m := by exact_mod_cast Nat.mod_add_div m 2
  rcases Nat.mod_two_eq_zero_or_one m with hbit | hbit <;> rw [hbit] at hm <;>
    cases round <;> cases sticky <;>
    simp [Stands, ExtendedMantissa.shiftRightOne, hbit] at h hm ⊢ <;>
    first | linarith | constructor <;> linarith

theorem Stands.shiftRight {em : ExtendedMantissa} {q : ℚ} (h : Stands em q) (k : ℕ) :
    Stands (em >>> k) (q / 2 ^ k) := by
  show Stands (k.repeat ExtendedMantissa.shiftRightOne em) _
  induction k with
  | zero => simpa [Nat.repeat] using h
  | succ k ih =>
    rw [Nat.repeat, pow_succ, ← div_div]
    exact ih.shiftRightOne

theorem Stands.abs_rounded_sub_le {em : ExtendedMantissa} {q : ℚ} (h : Stands em q) :
    |(em.roundedMantissa : ℚ) - q| ≤ 1 / 2 := by
  obtain ⟨m, round, sticky⟩ := em
  have hparity := Nat.mod_two_eq_zero_or_one m
  cases round <;> cases sticky <;>
    simp only [Stands, ExtendedMantissa.roundedMantissa, ExtendedMantissa.accuracy,
      Accuracy.roundToNearestEven] at h ⊢
  · rw [h, sub_self, abs_zero]
    norm_num
  · rw [abs_le]
    constructor <;> linarith
  · rcases hparity with heven | hodd
    · rw [heven, h, abs_le]
      constructor <;> norm_num
    · rw [hodd, h, abs_le]
      push_cast
      constructor <;> linarith
  · rw [abs_le]
    push_cast
    constructor <;> linarith

/-! ## Rounding -/

/-- The exponent of the last place of `m * 2 ^ e`. -/
def lastPlace (m : ℕ) (e : ℤ) : ℤ := max (m.log2 + e - 52) (-1074)

theorem targetExponent_eq (m : ℕ) (e : ℤ) :
    Format.binary64.targetExponent (totalExponent m e) = lastPlace m e := by
  show max ((m.log2 : ℤ) + 1 + e - 53) (-1074) = _
  rw [lastPlace]
  congr 1
  ring

theorem shiftToTargetExponent_eq (m : ℕ) (e : ℤ) :
    shiftToTargetExponent .binary64 m e .exact =
      (ExtendedMantissa.mk m false false >>> (lastPlace m e - e).toNat,
        e + (lastPlace m e - e).toNat) := by
  rw [shiftToTargetExponent, targetExponent_eq]
  rfl

theorem mantissa_lt_or {m : ℕ} {e : ℤ} (hm : 0 < m) (he : e ≤ lastPlace m e) :
    (m / 2 ^ (lastPlace m e - e).toNat : ℚ) < 2 ^ 53 ∧
      (2 ^ 52 ≤ (m / 2 ^ (lastPlace m e - e).toNat : ℚ) ∨ lastPlace m e = -1074) := by
  have hlow : (2 : ℚ) ^ m.log2 ≤ m := by exact_mod_cast Nat.log2_self_le hm.ne'
  have hhigh : (m : ℚ) < 2 ^ (m.log2 + 1) := by exact_mod_cast Nat.lt_log2_self
  have hk : (0 : ℚ) < 2 ^ (lastPlace m e - e).toNat := by positivity
  constructor
  · rw [div_lt_iff₀ hk, ← pow_add]
    refine hhigh.trans_le (pow_le_pow_right₀ one_le_two ?_)
    unfold lastPlace at *
    omega
  · by_cases hleast : lastPlace m e = -1074
    · exact .inr hleast
    · left
      rw [le_div_iff₀ hk, ← pow_add]
      refine le_trans (pow_le_pow_right₀ one_le_two ?_) hlow
      unfold lastPlace at *
      omega

/-- If the rounding has carried into a new bit, the mantissa is halved once more, and nothing is lost. -/
theorem carry {n : ℕ} (hn : n ≤ 2 ^ 53) (ht : -1074 ≤ t) (hfull : 2 ^ 52 ≤ n ∨ t = -1074) :
    ∃ m e, shiftToTargetExponent .binary64 n t .exact = (ExtendedMantissa.mk m false false, e) ∧
      (m * 2 ^ e : ℚ) = n * 2 ^ t ∧ m < 2 ^ 53 ∧ -1074 ≤ e ∧ e ≤ t + 1 ∧ (2 ^ 52 ≤ m ∨ e = -1074) := by
  rw [shiftToTargetExponent_eq]
  rcases hn.lt_or_eq with hlt | rfl
  · have hplace : (lastPlace n t - t).toNat = 0 := by
      have hlog : n.log2 < 53 := by
        by_cases hzero : n = 0
        · rw [hzero]
          decide
        · exact (Nat.log2_lt hzero).mpr hlt
      unfold lastPlace
      omega
    rw [hplace]
    exact ⟨n, t, by rw [Nat.cast_zero, add_zero]; rfl, rfl, hlt, ht, by omega, hfull⟩
  · have hplace : (lastPlace (2 ^ 53) t - t).toNat = 1 := by
      unfold lastPlace
      rw [Nat.log2_two_pow]
      omega
    rw [hplace]
    refine ⟨2 ^ 52, t + 1, rfl, ?_, by norm_num, by omega, le_rfl, .inl le_rfl⟩
    rw [zpow_add_one₀ two_ne_zero]
    push_cast
    ring

theorem apply_eq (s : Sign) (n : ℕ) : ((s.apply n : ℤ) : ℚ) = (s.apply 1 : ℤ) * n := by
  cases s <;> simp [Sign.apply]

theorem abs_apply_one (s : Sign) : |((s.apply 1 : ℤ) : ℚ)| = 1 := by
  cases s <;> simp [Sign.apply]

/-- A number in parts is rounded at its last place. -/
theorem roundWithAccuracy_rounds (s : Sign) {m : ℕ} {e : ℤ} (hm : 0 < m) (he : e ≤ lastPlace m e)
    (hsize : (m * 2 ^ e : ℚ) < 2 ^ (1020 : ℤ)) :
    Fits (roundWithAccuracy .binary64 s m e .exact) ∧
      ∃ t, Rounds ((s.apply m : ℤ) * 2 ^ e) (valueOf (roundWithAccuracy .binary64 s m e .exact)) t := by
  obtain ⟨hhigh, hlow⟩ := mantissa_lt_or hm he
  have hplace : e + (lastPlace m e - e).toNat = lastPlace m e := by omega
  have hleast : -1074 ≤ lastPlace m e := le_max_right _ _
  have hstands : Stands ⟨m, false, false⟩ m := rfl
  have hnear := (hstands.shiftRight (lastPlace m e - e).toNat).abs_rounded_sub_le
  have hfirst := shiftToTargetExponent_eq m e
  rw [hplace] at hfirst
  generalize hn : (ExtendedMantissa.mk m false false >>>
    (lastPlace m e - e).toNat).roundedMantissa = n at hnear
  generalize hk : (lastPlace m e - e).toNat = k at *
  generalize lastPlace m e = t at *
  have hunit : (0 : ℚ) < 2 ^ t := by positivity
  have hvalue : (m * 2 ^ e : ℚ) = m / 2 ^ k * 2 ^ t := by
    rw [← hplace, zpow_add₀ two_ne_zero, zpow_natCast, mul_comm (2 ^ e : ℚ), ← mul_assoc,
      div_mul_cancel₀ _ (pow_ne_zero k two_ne_zero)]
  obtain ⟨hbelow, habove⟩ := abs_le.mp hnear
  have hmost : n ≤ 2 ^ 53 := by
    have hlt : (n : ℚ) < (2 ^ 53 : ℕ) + 1 := by
      push_cast
      linarith
    exact Nat.lt_succ_iff.mp (by exact_mod_cast hlt)
  have hfull : 2 ^ 52 ≤ n ∨ t = -1074 := hlow.imp_left fun hlow => by
    have hlt : ((2 ^ 52 : ℕ) : ℚ) < n + 1 := by
      push_cast
      linarith
    exact Nat.lt_succ_iff.mp (by exact_mod_cast hlt)
  have hplace' : t = -1074 ∨ 2 ^ (t + 52) ≤ (m * 2 ^ e : ℚ) := hlow.symm.imp_right fun hlow => by
    rw [hvalue, add_comm, zpow_add₀ two_ne_zero]
    exact mul_le_mul_of_nonneg_right hlow hunit.le
  have hroom : t ≤ 968 := by
    rcases hplace' with rfl | hplace'
    · decide
    · have hlt := (zpow_lt_zpow_iff_right₀ one_lt_two).mp (hplace'.trans_lt hsize)
      omega
  obtain ⟨m', e', hsecond, hsame, hm', hleast', hmost', hfull'⟩ := carry hmost hleast hfull
  have hresult : roundWithAccuracy .binary64 s m e .exact =
      if h : m' = 0 then .zero s else .finite s m' e' (Nat.pos_of_ne_zero h) := by
    unfold roundWithAccuracy
    rw [hfirst]
    dsimp only
    rw [hn, hsecond]
  have hfinal : valueOf (roundWithAccuracy .binary64 s m e .exact) = (s.apply n : ℤ) * 2 ^ t := by
    have hparts : valueOf (roundWithAccuracy .binary64 s m e .exact) =
        (s.apply m' : ℤ) * 2 ^ e' := by
      by_cases hzero : m' = 0
      · rw [hresult, dif_pos hzero, valueOf_zero, apply_eq, hzero, Nat.cast_zero, mul_zero, zero_mul]
      · rw [hresult, dif_neg hzero, valueOf_finite]
    rw [hparts, apply_eq, apply_eq s n, mul_assoc, mul_assoc, hsame]
  constructor
  · by_cases hzero : m' = 0
    · rw [hresult, dif_pos hzero]
      trivial
    · rw [hresult, dif_neg hzero]
      exact ⟨hm', hleast', by omega, hfull'⟩
  · refine ⟨t, ⟨s.apply n, hfinal⟩, ?_, ?_⟩
    · rw [hfinal, apply_eq, apply_eq s m, mul_assoc, mul_assoc, ← mul_sub, abs_mul, abs_apply_one,
        one_mul, hvalue, ← sub_mul, abs_mul, abs_of_pos hunit]
      linarith [mul_le_mul_of_nonneg_right hnear hunit.le]
    · rwa [apply_eq, mul_assoc, abs_mul, abs_apply_one, one_mul, abs_of_nonneg (by positivity)]

theorem valueOf_shiftLeft (m k : ℕ) (e : ℤ) :
    ((m <<< k : ℕ) * 2 ^ (e - k) : ℚ) = m * 2 ^ e := by
  rw [Nat.shiftLeft_eq]
  push_cast
  rw [← zpow_natCast, mul_assoc, ← zpow_add₀ two_ne_zero, add_sub_cancel]

theorem round_rounds (s : Sign) {m : ℕ} {e : ℤ} (hm : 0 < m)
    (hsize : (m * 2 ^ e : ℚ) < 2 ^ (1020 : ℤ)) :
    Fits (round .binary64 s m e) ∧
      ∃ t, Rounds ((s.apply m : ℤ) * 2 ^ e) (valueOf (round .binary64 s m e)) t := by
  have hround : round .binary64 s m e = roundWithAccuracy .binary64 s
      (m <<< (e - lastPlace m e).toNat) (e - (e - lastPlace m e).toNat) .exact := by
    unfold UnpackedFloat.round
    rw [targetExponent_eq]
    rfl
  generalize hk : (e - lastPlace m e).toNat = k at hround
  have hsame := valueOf_shiftLeft m k e
  have hpos : 0 < m <<< k := by
    rw [Nat.shiftLeft_eq]
    positivity
  have hplace : lastPlace (m <<< k) (e - k) = lastPlace m e := by
    have hlog : (m <<< k).log2 = m.log2 + k := by
      rw [Nat.log2_eq_iff hpos.ne', Nat.shiftLeft_eq, add_right_comm, pow_add, pow_add _ _ k]
      have hk' : 0 < 2 ^ k := by positivity
      exact ⟨Nat.mul_le_mul_right _ (Nat.log2_self_le hm.ne'),
        Nat.mul_lt_mul_of_pos_right Nat.lt_log2_self hk'⟩
    unfold lastPlace
    rw [hlog]
    push_cast
    congr 1
    ring
  have hsigned : ((s.apply (m <<< k : ℕ) : ℤ) * 2 ^ (e - k) : ℚ) = (s.apply m : ℤ) * 2 ^ e := by
    rw [apply_eq, apply_eq s m, mul_assoc, mul_assoc, hsame]
  have hresult := roundWithAccuracy_rounds s (e := e - k) hpos (by rw [hplace]; omega)
    (hsame ▸ hsize)
  rwa [hsigned, ← hround] at hresult

namespace Rounds

theorem zero : Rounds 0 0 (-1074) := ⟨⟨0, by simp⟩, by simp; positivity, .inl rfl⟩

/-- What fits the bits is not changed by rounding. -/
theorem of_fits (hu : Fits u) : ∃ t, Rounds (valueOf u) (valueOf u) t := by
  cases u with
  | infinity s => exact hu.elim
  | notANumber => exact hu.elim
  | zero s => exact ⟨_, zero⟩
  | finite s m e hpos =>
    obtain ⟨-, -, -, hfull⟩ := hu
    refine ⟨e, ⟨s.apply m, rfl⟩, by rw [sub_self, abs_zero]; positivity, hfull.symm.imp_right ?_⟩
    intro hfull
    have hunit : (0 : ℚ) < 2 ^ e := by positivity
    have hm : ((2 : ℚ) ^ 52 : ℚ) ≤ m := by exact_mod_cast hfull
    rw [valueOf_finite, apply_eq, mul_assoc, abs_mul, abs_apply_one, one_mul,
      abs_of_nonneg (by positivity), add_comm, zpow_add₀ two_ne_zero]
    exact mul_le_mul_of_nonneg_right hm hunit.le

end Rounds

theorem normalize_rounds (n : ℤ) {e : ℤ} (s : Sign) (hsize : |(n * 2 ^ e : ℚ)| < 2 ^ (1020 : ℤ)) :
    Fits (normalize .binary64 n e s) ∧
      ∃ t, Rounds (n * 2 ^ e) (valueOf (normalize .binary64 n e s)) t := by
  have hunit : (0 : ℚ) < 2 ^ e := by positivity
  rw [abs_mul, abs_of_pos hunit] at hsize
  unfold UnpackedFloat.normalize
  split
  next hneg =>
    have hn := Int.compare_eq_lt.mp hneg
    have habs : ((-n).toNat : ℤ) = -n := Int.toNat_of_nonneg (by omega)
    have hcast : (((-n).toNat : ℕ) : ℚ) = |(n : ℚ)| := by
      rw [abs_of_neg (by exact_mod_cast hn)]
      exact_mod_cast habs
    have hresult := round_rounds .negative (m := (-n).toNat) (e := e) (by omega) (hcast ▸ hsize)
    rwa [Sign.apply, habs, Int.neg_neg] at hresult
  next hzero =>
    rw [Int.compare_eq_eq.mp hzero, Int.cast_zero, zero_mul]
    exact ⟨trivial, _, Rounds.zero⟩
  next hpos =>
    have hn := Int.compare_eq_gt.mp hpos
    have habs : (n.toNat : ℤ) = n := Int.toNat_of_nonneg (by omega)
    have hcast : ((n.toNat : ℕ) : ℚ) = |(n : ℚ)| := by
      rw [abs_of_pos (by exact_mod_cast hn)]
      exact_mod_cast habs
    have hresult := round_rounds .positive (m := n.toNat) (e := e) (by omega) (hcast ▸ hsize)
    rwa [Sign.apply, habs] at hresult

/-! ## Differences and products -/

theorem valueOf_decreaseExponent (s : Sign) (m : ℕ) {e t : ℤ} (ht : t ≤ e) :
    ((s.apply (decreaseExponent m e t).1 : ℤ) * 2 ^ t : ℚ) = (s.apply m : ℤ) * 2 ^ e := by
  have hsame := valueOf_shiftLeft m (e - t).toNat e
  rw [show e - (e - t).toNat = t by omega] at hsame
  rw [apply_eq, apply_eq s m, mul_assoc, mul_assoc, ← hsame]
  rfl

/-- Both are brought to the lesser exponent, where their difference is exact. -/
theorem valueOf_sub (s s' : Sign) {m m' : ℕ} (e e' : ℤ) (hpos : 0 < m) (hpos' : 0 < m') :
    valueOf (.finite s m e hpos) - valueOf (.finite s' m' e' hpos') =
      (s.apply (decreaseExponent m e (min e e')).1 -
        s'.apply (decreaseExponent m' e' (min e e')).1 : ℤ) * 2 ^ min e e' := by
  rw [Int.cast_sub, sub_mul, valueOf_decreaseExponent s m (min_le_left e e'),
    valueOf_decreaseExponent s' m' (min_le_right e e')]
  rfl

section Parts

variable (hu : Fits u) (hw : Fits w)

include hu hw

theorem parts_sub_rounds (hsize : |valueOf u - valueOf w| < 2 ^ (1020 : ℤ)) :
    Fits (UnpackedFloat.sub .binary64 u w) ∧
      ∃ t, Rounds (valueOf u - valueOf w) (valueOf (UnpackedFloat.sub .binary64 u w)) t := by
  match u, w with
  | .zero s, .zero s' =>
    have hzero : valueOf (.zero s) - valueOf (.zero s') = 0 := sub_zero 0
    rw [hzero]
    cases s <;> cases s' <;> exact ⟨trivial, _, Rounds.zero⟩
  | .zero s, .finite s' m e hpos =>
    have hneg : valueOf (.finite (-s') m e hpos) =
        valueOf (.zero s) - valueOf (.finite s' m e hpos) := by
      cases s' with
      | negative =>
        show ((m : ℤ) * 2 ^ e : ℚ) = 0 - ((-m : ℤ) : ℚ) * 2 ^ e
        push_cast
        ring
      | positive =>
        show (((-m : ℤ) : ℚ) * 2 ^ e : ℚ) = 0 - ((m : ℤ) : ℚ) * 2 ^ e
        push_cast
        ring
    have hfits : Fits (.finite (-s') m e hpos) := hw
    rw [← hneg]
    exact ⟨hfits, Rounds.of_fits hfits⟩
  | .finite s m e hpos, .zero s' =>
    have hzero : valueOf (.finite s m e hpos) - valueOf (.zero s') =
        valueOf (.finite s m e hpos) := sub_zero _
    rw [hzero]
    exact ⟨hu, Rounds.of_fits hu⟩
  | .finite s m e hpos, .finite s' m' e' hpos' =>
    rw [valueOf_sub] at hsize ⊢
    exact normalize_rounds _ _ hsize

theorem parts_mul_rounds (hsize : |valueOf u * valueOf w| < 2 ^ (1020 : ℤ)) :
    Fits (UnpackedFloat.mul .binary64 u w) ∧
      ∃ t, Rounds (valueOf u * valueOf w) (valueOf (UnpackedFloat.mul .binary64 u w)) t := by
  match u, w with
  | .zero s, .zero s' =>
    have hzero : valueOf (.zero s) * valueOf (.zero s') = 0 := zero_mul 0
    rw [hzero]
    exact ⟨trivial, _, Rounds.zero⟩
  | .zero s, .finite s' m e hpos =>
    have hzero : valueOf (.zero s) * valueOf (.finite s' m e hpos) = 0 := zero_mul _
    rw [hzero]
    exact ⟨trivial, _, Rounds.zero⟩
  | .finite s m e hpos, .zero s' =>
    have hzero : valueOf (.finite s m e hpos) * valueOf (.zero s') = 0 := mul_zero _
    rw [hzero]
    exact ⟨trivial, _, Rounds.zero⟩
  | .finite s m e hpos, .finite s' m' e' hpos' =>
    obtain ⟨hm, hleast, hmost, hfull⟩ := hu
    obtain ⟨hm', hleast', hmost', hfull'⟩ := hw
    have hplace : e + e' ≤ lastPlace (m * m') (e + e') := by
      unfold lastPlace
      by_cases hleasts : e = -1074 ∧ e' = -1074
      · omega
      · -- One of the mantissas has all bits, and so has the product.
        have hproduct : 2 ^ 52 ≤ m * m' := by
          have hor : 2 ^ 52 ≤ m ∨ 2 ^ 52 ≤ m' := by omega
          rcases hor with hm | hm'
          · exact hm.trans (Nat.le_mul_of_pos_right m hpos')
          · exact hm'.trans (Nat.le_mul_of_pos_left m' hpos)
        have hlog := (Nat.le_log2 (Nat.mul_pos hpos hpos').ne').mpr hproduct
        omega
    have hsame : valueOf (.finite s m e hpos) * valueOf (.finite s' m' e' hpos') =
        ((s * s').apply (m * m' : ℕ) : ℤ) * 2 ^ (e + e') := by
      rw [valueOf_finite, valueOf_finite, zpow_add₀ two_ne_zero]
      cases s <;> cases s' <;> simp [Sign.apply] <;> ring
    rw [hsame] at hsize ⊢
    refine roundWithAccuracy_rounds _ (Nat.mul_pos hpos hpos') hplace ?_
    rwa [apply_eq, mul_assoc, abs_mul, abs_apply_one, one_mul, abs_of_nonneg (by positivity)] at hsize

end Parts

theorem toFloat_sub (x y : Double) : x.toFloat - y.toFloat =
    .ofModel (Float.Model.pack (UnpackedFloat.sub .binary64 x.unpacked y.unpacked)) := by
  rw [← unpack_toModel x, ← unpack_toModel y]
  rfl

theorem toFloat_mul (x y : Double) : x.toFloat * y.toFloat =
    .ofModel (Float.Model.pack (UnpackedFloat.mul .binary64 x.unpacked y.unpacked)) := by
  rw [← unpack_toModel x, ← unpack_toModel y]
  rfl

theorem toFloat_div (x y : Double) : x.toFloat / y.toFloat =
    .ofModel (Float.Model.pack (UnpackedFloat.div .binary64 x.unpacked y.unpacked)) := by
  rw [← unpack_toModel x, ← unpack_toModel y]
  rfl

section Finite

variable (hx : x.isFinite = true) (hy : y.isFinite = true)

include hx hy

theorem sub_rounds (hsize : |x.toRat - y.toRat| < 2 ^ (1020 : ℤ)) :
    (x - y).isFinite = true ∧ ∃ t, Rounds (x.toRat - y.toRat) (x - y).toRat t := by
  rw [← valueOf_unpacked hx, ← valueOf_unpacked hy] at hsize ⊢
  obtain ⟨hfits, hrounds⟩ := parts_sub_rounds (fits_unpacked hx) (fits_unpacked hy) hsize
  rw [show x - y = _ from lift₂_eq (toFloat_sub x y) hfits, toRat_ofUnpacked hfits]
  exact ⟨isFinite_ofUnpacked hfits, hrounds⟩

theorem mul_rounds (hsize : |x.toRat * y.toRat| < 2 ^ (1020 : ℤ)) :
    (x * y).isFinite = true ∧ ∃ t, Rounds (x.toRat * y.toRat) (x * y).toRat t := by
  rw [← valueOf_unpacked hx, ← valueOf_unpacked hy] at hsize ⊢
  obtain ⟨hfits, hrounds⟩ := parts_mul_rounds (fits_unpacked hx) (fits_unpacked hy) hsize
  rw [show x * y = _ from lift₂_eq (toFloat_mul x y) hfits, toRat_ofUnpacked hfits]
  exact ⟨isFinite_ofUnpacked hfits, hrounds⟩

theorem ofFloat_mul (hsize : |x.toRat * y.toRat| < 2 ^ (1020 : ℤ)) :
    ofFloat (x.toFloat * y.toFloat) = x * y := by
  rw [← valueOf_unpacked hx, ← valueOf_unpacked hy] at hsize
  have hfits := (parts_mul_rounds (fits_unpacked hx) (fits_unpacked hy) hsize).1
  rw [toFloat_mul x y, ofFloat_eq hfits]
  exact (lift₂_eq (toFloat_mul x y) hfits).symm

end Finite

/-! ## Signs of results -/

theorem hasSign_of_mantissa (s : Sign) (m : ℕ) (e : ℤ) :
    HasSign s (if h : m = 0 then .zero s else .finite s m e (Nat.pos_of_ne_zero h)) := by
  by_cases hzero : m = 0
  · rw [dif_pos hzero]
    rfl
  · rw [dif_neg hzero]
    rfl

theorem hasSign_roundWithAccuracy (s : Sign) (m : ℕ) (e : ℤ) (accuracy : Accuracy) :
    HasSign s (roundWithAccuracy .binary64 s m e accuracy) :=
  hasSign_of_mantissa s _ _

theorem hasSign_mul {s s' : Sign} (hu : HasSign s u) (hw : HasSign s' w) :
    HasSign (s * s') (UnpackedFloat.mul .binary64 u w) := by
  cases u <;> cases w <;> try trivial
  all_goals
    obtain rfl := hu
    obtain rfl := hw
    first | rfl | exact hasSign_roundWithAccuracy _ _ _ _

theorem hasSign_div {s s' : Sign} (hu : HasSign s u) (hw : HasSign s' w) :
    HasSign (s / s') (UnpackedFloat.div .binary64 u w) := by
  cases u <;> cases w <;> try trivial
  all_goals
    obtain rfl := hu
    obtain rfl := hw
    first | rfl | exact hasSign_roundWithAccuracy _ _ _ _

theorem hasSign_normalize_of_neg {n : ℤ} (hn : n < 0) (e : ℤ) (s : Sign) :
    HasSign .negative (normalize .binary64 n e s) := by
  unfold UnpackedFloat.normalize
  rw [Int.compare_eq_lt.mpr hn]
  exact hasSign_roundWithAccuracy _ _ _ _

/-- More than a number cannot be taken from it without changing the sign. -/
theorem hasSign_sub (hu : Fits u) (hpos : 0 ≤ valueOf u) (hw : HasSign .positive w)
    (hlt : w.isFinite = true → valueOf u < valueOf w) :
    HasSign .negative (UnpackedFloat.sub .binary64 u w) := by
  match u, w with
  | .infinity s, _ => exact hu.elim
  | .notANumber, _ => exact hu.elim
  | .zero _, .notANumber | .finite .., .notANumber => trivial
  | .zero _, .infinity _ | .finite .., .infinity _ | .zero _, .finite .. =>
    obtain rfl := hw
    rfl
  | .zero _, .zero _ | .finite .., .zero _ => exact absurd (hlt rfl) (not_lt.mpr hpos)
  | .finite s m e h, .finite s' m' e' h' =>
    -- In the smaller of both units, the difference of the values is one of whole numbers.
    have hunit : (0 : ℚ) < 2 ^ min e e' := by positivity
    have hneg := sub_neg.mpr (hlt rfl)
    rw [valueOf_sub] at hneg
    have hmantissa := neg_of_mul_neg_left hneg hunit.le
    exact hasSign_normalize_of_neg (by exact_mod_cast hmantissa) _ _

section Signed

variable (hx : IsSigned .positive x) (hy : IsSigned .positive y)

include hx hy

theorem isSigned_mul : IsSigned .positive (x * y) :=
  isSigned_lift₂ (toFloat_mul x y) (hasSign_mul (hasSign_unpacked hx) (hasSign_unpacked hy))

theorem isSigned_div : IsSigned .positive (x / y) :=
  isSigned_lift₂ (toFloat_div x y) (hasSign_div (hasSign_unpacked hx) (hasSign_unpacked hy))

end Signed

/-! ## Order -/

theorem abs_toRat_lt_two_zpow (hx : x.isFinite = true) : |x.toRat| < 2 ^ (1024 : ℤ) := by
  have hfits := fits_unpacked hx
  rw [← valueOf_unpacked hx]
  generalize x.unpacked = u at hfits ⊢
  cases u with
  | infinity s => exact hfits.elim
  | notANumber => exact hfits.elim
  | zero s =>
    rw [valueOf_zero, abs_zero]
    positivity
  | finite s m e hpos =>
    obtain ⟨hm, -, hmost, -⟩ := hfits
    have hunit : (0 : ℚ) < 2 ^ e := by positivity
    have hmantissa : (m : ℚ) < 2 ^ (53 : ℤ) := by exact_mod_cast hm
    rw [valueOf_finite, apply_eq, mul_assoc, abs_mul, abs_apply_one, one_mul,
      abs_of_nonneg (by positivity)]
    calc (m : ℚ) * 2 ^ e
        < 2 ^ (53 : ℤ) * 2 ^ e := mul_lt_mul_of_pos_right hmantissa hunit
      _ ≤ 2 ^ (53 : ℤ) * 2 ^ (971 : ℤ) :=
        mul_le_mul_of_nonneg_left (zpow_le_zpow_right₀ one_le_two hmost) (by positivity)
      _ = 2 ^ (1024 : ℤ) := by rw [← zpow_add₀ two_ne_zero]; rfl

theorem not_abs_lt_of_isSigned (hy : IsSigned .negative y) : ¬ x.abs < y := by
  intro h
  obtain ⟨-, hnumber, hrank⟩ := (less_iff _ _).mp h
  have hnegative := sign_eq_negative_iff.mp (hy.sign_eq hnumber)
  rw [rank, rank, isNegative_abs, hnegative, if_pos rfl, if_neg Bool.false_ne_true] at hrank
  omega

theorem abs_toRat_lt (hx : x.isFinite = true) (hy : y.isFinite = true) (h : x.abs < y) :
    |x.toRat| < y.toRat := by
  have hgrid : (0 : ℚ) < 2 ^ 1074 := pow_pos two_pos _
  have hpos : y.isNegative = false := by
    rw [← Bool.not_eq_true]
    exact fun hnegative => not_abs_lt_of_isSigned (.inr (if_pos hnegative)) h
  have hsign := y.toRat_eq_abs
  rw [hpos, if_neg Bool.false_ne_true, one_mul] at hsign
  rw [abs_lt_iff hx hy hpos, ← grid_strictMono.lt_iff_lt] at h
  rw [hsign, abs_toRat, abs_toRat]
  exact div_lt_div_of_pos_right (by exact_mod_cast h) hgrid

theorem toRat_nonneg (hx : x.isFinite = true) (hsigned : IsSigned .positive x) : 0 ≤ x.toRat := by
  rw [← not_lt, toRat_neg_iff]
  rintro ⟨hnegative, -⟩
  have hsign := hsigned.sign_eq (isNaN_of_isFinite hx)
  rw [sign_eq_negative_iff.mpr hnegative] at hsign
  cases hsign

/-- What is below a difference with a number that is not negative is hardly above the minuend. -/
theorem abs_toRat_lt_of_lt_sub {v : Double} (hv : v.isFinite = true) (hx : x.isFinite = true)
    (hpos : 0 ≤ x.toRat) (hsize : x.toRat < 2 ^ (1020 : ℤ)) (hy : IsSigned .positive y)
    (h : v.abs < x - y) : |v.toRat| < 2 * x.toRat + 1 := by
  by_cases hle : y.isFinite = true ∧ y.toRat ≤ x.toRat
  · obtain ⟨hyfinite, hle⟩ := hle
    have hynonneg := toRat_nonneg hyfinite hy
    have hdifference : |x.toRat - y.toRat| = x.toRat - y.toRat := abs_of_nonneg (sub_nonneg.mpr hle)
    have hroom : |x.toRat - y.toRat| < 2 ^ (1020 : ℤ) :=
      hdifference.trans_lt ((sub_le_self _ hynonneg).trans_lt hsize)
    obtain ⟨hfinite, t, hrounds⟩ := sub_rounds hx hyfinite hroom
    have hlt := abs_toRat_lt hv hfinite h
    have hnear := (abs_le.mp hrounds.abs_sub_le).2
    have hpart : (x.toRat - y.toRat) / 2 ^ 53 ≤ x.toRat - y.toRat :=
      div_le_self (sub_nonneg.mpr hle) (one_le_pow₀ one_le_two)
    have hleast : (2 : ℚ) ^ (-1074 : ℤ) ≤ 1 := zpow_le_one_of_nonpos₀ one_le_two (by decide)
    rw [hdifference] at hnear
    have herror := hnear.trans (add_le_add hpart hleast)
    linarith only [hlt, herror, hynonneg, hpos]
  · -- More than the minuend is taken, so the difference is negative.
    refine absurd h (not_abs_lt_of_isSigned (isSigned_lift₂ (toFloat_sub x y)
      (hasSign_sub (fits_unpacked hx) ?_ (hasSign_unpacked hy) fun hyfinite => ?_)))
    · rw [valueOf_unpacked hx]
      exact hpos
    · rw [isFinite_unpacked] at hyfinite
      rw [valueOf_unpacked hx, valueOf_unpacked hyfinite]
      exact not_le.mp fun hyle => hle ⟨hyfinite, hyle⟩

/-! ## Whole numbers -/

theorem lt_of_whole {n : ℤ} (hn : |n| < 2 ^ 53) : |(n : ℚ)| < 2 ^ (1020 : ℤ) := by
  have hn' : |(n : ℚ)| < 2 ^ (53 : ℤ) := by exact_mod_cast hn
  exact hn'.trans (zpow_lt_zpow_right₀ one_lt_two (by decide))

/-- Differences of whole numbers are exact if they have at most fifty-three bits. -/
theorem toRat_sub_of_whole {n : ℤ} (hx : x.isFinite = true) (hy : y.isFinite = true)
    (hn : x.toRat - y.toRat = n) (hsize : |n| < 2 ^ 53) :
    (x - y).isFinite = true ∧ (x - y).toRat = n := by
  obtain ⟨hfinite, t, hrounds⟩ := sub_rounds hx hy (hn ▸ lt_of_whole hsize)
  exact ⟨hfinite, (hn ▸ hrounds).eq_of_whole hsize⟩

theorem toRat_mul_of_whole {n : ℤ} (hx : x.isFinite = true) (hy : y.isFinite = true)
    (hn : x.toRat * y.toRat = n) (hsize : |n| < 2 ^ 53) :
    (x * y).isFinite = true ∧ (x * y).toRat = n := by
  obtain ⟨hfinite, t, hrounds⟩ := mul_rounds hx hy (hn ▸ lt_of_whole hsize)
  exact ⟨hfinite, (hn ▸ hrounds).eq_of_whole hsize⟩

def one : Double := ⟨0x3FF0000000000000⟩

theorem one_eq : one.isFinite = true ∧ one.toRat = 1 := by
  have hparts : one.isNegative = false ∧ one.exponentBits = 1023 ∧ one.fractionBits = 0 := by
    decide
  refine ⟨by decide, ?_⟩
  rw [toRat, hparts.1, hparts.2.1, hparts.2.2]
  norm_num

/-- A natural number of at most fifty-three bits is a float. -/
theorem ofNat_eq {n : ℕ} (hn : n < 2 ^ 53) : (ofNat n).isFinite = true ∧ (ofNat n).toRat = n := by
  have hsize : |(n : ℤ)| < 2 ^ 53 := by
    rw [abs_of_nonneg (Int.natCast_nonneg n)]
    exact_mod_cast hn
  have hwhole : (((n : ℤ) : ℚ) * 2 ^ (0 : ℤ)) = (n : ℤ) := by rw [zpow_zero, mul_one]
  obtain ⟨hfits, t, hrounds⟩ := normalize_rounds n .positive (hwhole.symm ▸ lt_of_whole hsize)
  -- The machine multiplies what it makes of the word by a power of ten, here by one.
  have hword : n.toUInt64.toFloat = (ofUnpacked (normalize .binary64 n 0 .positive)).toFloat := by
    have hcast : n.toUInt64.toNat = n := Nat.mod_eq_of_lt (by omega)
    rw [toFloat_ofUnpacked hfits]
    show Float.ofModel (Float.Model.pack (normalize .binary64 (n.toUInt64.toNat : ℤ) 0 .positive)) = _
    rw [hcast]
  have hmachine : Float.ofNat n =
      (ofUnpacked (normalize .binary64 n 0 .positive)).toFloat * one.toFloat := by
    rw [← hword]
    exact dif_pos ⟨hn, by decide⟩
  have hfinite := isFinite_ofUnpacked hfits
  have hvalue : (ofUnpacked (normalize .binary64 n 0 .positive)).toRat * one.toRat = (n : ℤ) := by
    rw [one_eq.2, mul_one, toRat_ofUnpacked hfits]
    exact (hwhole ▸ hrounds).eq_of_whole hsize
  rw [ofNat, hmachine, ofFloat_mul hfinite one_eq.1 (hvalue ▸ lt_of_whole hsize)]
  exact toRat_mul_of_whole hfinite one_eq.1 hvalue hsize

end Hydroseries.Double
