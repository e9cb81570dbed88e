import Hydroseries.Proofs.Double.Power
import Hydroseries.Proofs.Record.General
import Hydroseries.Proofs.Stat.Blocks

/-!
# General forms that fit

Seven columns more than digits are enough for a general form of any finite number, whatever its size
and its digits. In fixed notation the digits before the point are told by comparing the value with
powers of ten less a half of the last place, all computed in floats. A power of ten is never too large
by more than a tenth, so the value has one digit more than told at most, and there is a column for it.

The digits of the form are counted in a signed word of thirty-two bits, and its least number has no
opposite to begin the comparison with: then there is no form at all (`general_fills`).
-/

namespace Hydroseries.Record

open Double (IsSigned)
open Decimal (Nearest)

variable {v : Double} {width decimals : Nat}

/-! ## Columns that are filled -/

/-- The columns hold a number and no asterisk, and the number misses the value by at most half of
the unit of its last digit. -/
structure Fills (width : Nat) (v : Double) (text : String) : Prop where
  length : text.length = width
  noStars : '*' ∉ text.toList
  near : ∃ r unit, readReal? text.toList = some r ∧ lastUnit? text.toList = some unit ∧
    |r - v.toRat| ≤ unit / 2

/-- A number is near the value if its digits are those nearest to the value. -/
theorem near_of_parts {cell : List Char} {negative : Bool} {units : ℕ} {place : ℤ}
    (hparts : readParts? cell = some (negative, units, place))
    (hsign : v.toRat = (if negative then -1 else 1) * |v.toRat|)
    (hnear : Nearest units (|v.toRat| * 10 ^ (-place))) :
    ∃ r unit, readReal? cell = some r ∧ lastUnit? cell = some unit ∧ |r - v.toRat| ≤ unit / 2 := by
  refine ⟨_, 10 ^ place, readReal?_of_parts hparts, by rw [lastUnit?, hparts]; rfl, ?_⟩
  have hunit : (0 : ℚ) < 10 ^ place := by positivity
  have hone : |(if negative then -1 else 1 : ℚ)| = 1 := by
    split <;> simp
  have hvalue : |v.toRat| = |v.toRat| * 10 ^ (-place) * 10 ^ place := by
    rw [mul_assoc, ← zpow_add₀ (by norm_num), neg_add_cancel, zpow_zero, mul_one]
  -- The sign is taken out, and the rest is counted in units of the last digit.
  rw [hsign, mul_assoc, ← mul_sub, abs_mul, hone, one_mul]
  conv_lhs => rw [hvalue, ← sub_mul, abs_mul, abs_of_pos hunit, abs_sub_comm]
  linarith [mul_le_mul_of_nonneg_right hnear.1 hunit.le]

/-- Fixed notation that has room fills its columns, with four blanks behind it. -/
theorem fills_pointed {negative : Bool} {units places : ℕ} (hwidth : 4 ≤ width)
    (hfits : (Decimal.signed negative (Decimal.pointed units places)).length ≤ width - 4)
    (hsign : v.toRat = (if negative then -1 else 1) * |v.toRat|)
    (hnear : Nearest units (|v.toRat| * 10 ^ places)) :
    Fills width v
      (fit (Decimal.signed negative (Decimal.pointed units places)) (width - 4) ++ "    ") := by
  refine ⟨length_inner hwidth _, ?_,
    near_of_parts (readParts?_inner negative units places hfits) hsign ?_⟩
  · rw [String.toList_append, List.mem_append, not_or]
    exact ⟨not_mem_fit hfits fun c => isNumeral_of_mem_signed, by decide⟩
  · rwa [neg_neg, zpow_natCast]

/-- The exponent form fills its columns. -/
theorem fills_editExponent {scale : ℤ} (hv : v.isFinite = true) (hne : v.toRat ≠ 0)
    (hpos : 0 < decimals) (hwidth : exponentFigures decimals scale + 6 ≤ width) :
    Fills width v (editExponent v width decimals scale) := by
  obtain ⟨whole, fraction, n, e, hall, hsome, rfl, -, -, hnear, hfits, hform⟩ :=
    editExponent_eq_fit hv hne hpos hwidth
  rw [hform]
  refine ⟨length_fit _ _, not_mem_fit hfits fun c => isNumeral_of_mem_exponentForm hall,
    near_of_parts (readParts?_exponentForm hall hsome hfits) ?_ ?_⟩
  · simp only [decide_eq_true_eq]
    split
    next hneg => rw [abs_of_neg hneg, neg_one_mul, neg_neg]
    next hpos => rw [abs_of_nonneg (not_lt.mp hpos), one_mul]
  · rwa [neg_sub]

/-! ## Digits before the point -/

theorem tenTo_natCast (n : ℕ) : tenTo n = Arith.pow (10.0 : Double) n := by
  rw [tenTo, if_neg (by omega), Int.natAbs_natCast]

theorem isSigned_tenTo (e : ℤ) : IsSigned .positive (tenTo e) := by
  have hone : (1.0 : Double).isNegative = false := by decide +kernel
  unfold tenTo
  split
  · exact Double.isSigned_div (Double.isSigned_positive hone) (Double.isSigned_pow_ten _)
  · exact Double.isSigned_pow_ten _

/-- A finite number has fewer digits than the largest powers of ten. -/
theorem abs_toRat_lt_of_le (hv : v.isFinite = true) {n : ℕ} (hn : 308 ≤ n) :
    |v.toRat| < 9 * 10 ^ n := by
  have hrange : 2 ^ 1024 ≤ 9 * 10 ^ 308 := by decide +kernel
  have hpower : ∀ {k : ℕ}, k ≤ n → 9 * 10 ^ k ≤ 9 * 10 ^ n := fun hk =>
    Nat.mul_le_mul_left 9 (Nat.pow_le_pow_right (by decide) hk)
  have hmost := hrange.trans (hpower hn)
  have hcast : (2 : ℚ) ^ (1024 : ℤ) ≤ 9 * 10 ^ n := by exact_mod_cast hmost
  exact (Double.abs_toRat_lt_two_zpow hv).trans_le hcast

/-- What is below a power of ten less a number has one digit more than the power at most. -/
theorem abs_toRat_lt_of_lt_tenTo_sub (hv : v.isFinite = true) {n : ℕ} {y : Double}
    (hy : IsSigned .positive y) (h : v.abs < tenTo n - y) : |v.toRat| < 9 * 10 ^ n := by
  rcases Nat.lt_or_ge 307 n with hlarge | hsmall
  · exact abs_toRat_lt_of_le hv hlarge
  · rw [tenTo_natCast] at h
    have hten := Double.within_pow_ten hsmall
    have hlt := Double.abs_toRat_lt_of_lt_sub hv hten.finite hten.nonneg
      (hten.le.trans_lt (Double.ten_pow_lt hsmall)) hy h
    have hpos : (1 : ℚ) ≤ 10 ^ n := one_le_pow₀ (by norm_num)
    linarith only [hlt, hten.le, hpos]

/-- The power less a half is a number, so a value that is not above it is below it. -/
theorem abs_toRat_lt_of_not_le (hv : v.isFinite = true) {n : ℕ}
    (h : ¬ (tenTo n - 0.5 : Double) ≤ v.abs) : |v.toRat| < 9 * 10 ^ n := by
  rcases Nat.lt_or_ge 307 n with hlarge | hsmall
  · exact abs_toRat_lt_of_le hv hlarge
  have hhalf : (0.5 : Double).isFinite = true ∧ (0.5 : Double).isNegative = false ∧
      (0.5 : Double).exponentBits = 1022 ∧ (0.5 : Double).fractionBits = 0 := by
    decide +kernel
  have hvalue : (0.5 : Double).toRat = 1 / 2 := by
    rw [Double.toRat, hhalf.2.1, hhalf.2.2.1, hhalf.2.2.2]
    norm_num
  have hten := Double.within_pow_ten hsmall
  have hroom := hten.le.trans_lt (Double.ten_pow_lt hsmall)
  refine abs_toRat_lt_of_lt_tenTo_sub hv (Double.isSigned_positive hhalf.2.1) ?_
  rw [tenTo_natCast] at h ⊢
  have hfinite : (Arith.pow (10.0 : Double) n - 0.5 : Double).isFinite = true := by
    refine (Double.sub_rounds hten.finite hhalf.1 ?_).1
    have hlarge : (1 : ℚ) < 2 ^ (1020 : ℤ) := one_lt_zpow₀ one_lt_two (by decide)
    rw [hvalue]
    exact abs_sub_lt_of_nonneg_of_lt hten.nonneg hroom (by norm_num)
      (lt_trans (by norm_num) hlarge)
  have hnumber : v.abs.isNaN = false := by
    rw [Double.isNaN, Double.magnitude_abs]
    exact Double.isNaN_of_isFinite hv
  have hminuend := Double.isNaN_of_isFinite hfinite
  rw [Double.le_iff, not_and, not_and] at h
  exact Double.lt_iff.mpr ⟨hnumber, hminuend, not_le.mp (h hminuend hnumber)⟩

theorem narrow_eq (n : Nat) : narrow n =
    if (n : ℤ) % 2 ^ 32 < 2 ^ 31 then (n : ℤ) % 2 ^ 32 else (n : ℤ) % 2 ^ 32 - 2 ^ 32 := by
  have hword : ((Nat.pow 2 32 : ℕ) : ℤ) = 2 ^ 32 := by norm_num
  have hcount : narrow n = _ := Int.bmod_def n (Nat.pow 2 32)
  rwa [hword] at hcount

theorem narrow_le (n : Nat) : narrow n ≤ n ∧ (narrow n < 0 → 2 ^ 31 ≤ n) := by
  rw [narrow_eq]
  split <;> omega

theorem narrow_eq_least_iff (n : Nat) : narrow n = -Nat.pow 2 31 ↔ n % 2 ^ 32 = 2 ^ 31 := by
  have hleast : ((Nat.pow 2 31 : ℕ) : ℤ) = 2 ^ 31 := by norm_num
  rw [hleast, narrow_eq]
  split <;> omega

/-- A general form has an exponent, or it is in fixed notation and has one digit more than counted at
most. -/
theorem editGeneral_cases (hv : v.isFinite = true) (hne : v.toRat ≠ 0) (width decimals : Nat)
    (scale : ℤ) : editGeneral v width decimals scale = editExponent v width decimals scale ∨
      ∃ places ≤ decimals, |v.toRat| * 10 ^ places < 9 * 10 ^ decimals ∧
        editGeneral v width decimals scale =
          fit (Decimal.fixed places v) (width - 4) ++ "    " := by
  obtain ⟨hcount, hnegative⟩ := narrow_le decimals
  unfold editGeneral
  generalize narrow decimals = count at *
  simp only [Double.beq_zero_of_ne hv hne, hv, Bool.false_eq_true, if_false, Bool.not_true,
    Bool.false_or]
  split
  next => exact .inl rfl
  next hmoderate =>
    simp only [Bool.or_eq_true, decide_eq_true_eq, not_or] at hmoderate
    refine .inr ?_
    have hpower : ∀ {k : ℕ}, k ≤ decimals → (9 * 10 ^ k : ℚ) ≤ 9 * 10 ^ decimals := fun hk =>
      mul_le_mul_of_nonneg_left (pow_le_pow_right₀ (by norm_num) hk) (by norm_num)
    cases hfind : (List.range (count + 1).toNat).find? fun (s : Nat) =>
        decide (v.abs < tenTo s - 0.5 * tenTo ((s : Int) - count)) with
    | none =>
      -- A negative count leaves no power to compare with, but comes from more digits than any
      -- finite value has; otherwise the value is below the last power.
      refine ⟨0, Nat.zero_le _, ?_, by rw [Option.elim_none, Int.sub_self]; rfl⟩
      rw [pow_zero, mul_one]
      rcases Int.lt_or_le count 0 with hneg | hpos
      · have hlarge := hnegative hneg
        exact abs_toRat_lt_of_le hv (by omega)
      · obtain ⟨c, rfl⟩ := Int.eq_ofNat_of_zero_le hpos
        exact (abs_toRat_lt_of_not_le hv hmoderate.2).trans_le (hpower (by omega))
    | some before =>
      obtain ⟨hlt, hmem, -⟩ := List.find?_range_eq_some.mp hfind
      obtain ⟨c, rfl⟩ := Int.eq_ofNat_of_zero_le (show 0 ≤ count by simp at hmem; omega)
      have hle : before ≤ c := by simpa [Nat.lt_succ_iff] using hmem
      have hplaces : ((c : ℤ) - Int.ofNat before).toNat = c - before := by
        rw [Int.ofNat_eq_natCast]
        omega
      refine ⟨c - before, by omega, ?_, by rw [Option.elim_some, hplaces]⟩
      -- The digits before the point and the places are counted together.
      have hhalf : (0.5 : Double).isNegative = false := by decide +kernel
      have hbefore := abs_toRat_lt_of_lt_tenTo_sub hv
        (Double.isSigned_mul (Double.isSigned_positive hhalf) (isSigned_tenTo _))
        (of_decide_eq_true hlt)
      calc |v.toRat| * 10 ^ (c - before)
          < 9 * 10 ^ before * 10 ^ (c - before) := by gcongr
        _ = 9 * 10 ^ c := by rw [mul_assoc, ← pow_add, Nat.add_sub_cancel' hle]
        _ ≤ 9 * 10 ^ decimals := hpower (by omega)

/-! ## General forms -/

/-- Seven columns more than digits are enough for the sign, the point, a digit that is not told and
the four blanks. -/
theorem fills_fixed (hv : v.isFinite = true) (hwidth : decimals + 7 ≤ width) {places : ℕ}
    (hplaces : places ≤ decimals) (hsmall : |v.toRat| * 10 ^ places < 9 * 10 ^ decimals) :
    Fills width v (fit (Decimal.fixed places v) (width - 4) ++ "    ") := by
  have hnear := nearest_fixed v places
  rw [fixed_eq hv]
  generalize (Decimal.Exact.ofDouble v).unitsAt places .toEven = units at hnear
  refine fills_pointed (by omega) ?_ v.toRat_eq_abs hnear
  have hunits : units < 10 ^ (decimals + 1) := by
    refine hnear.lt_of_lt (hsmall.trans_le ?_)
    have hten : (1 : ℚ) ≤ 10 ^ decimals := one_le_pow₀ (by norm_num)
    push_cast
    rw [pow_succ]
    linarith only [hten]
  have hdigits : (Nat.toDigits 10 units).length ≤ decimals + 1 :=
    (Nat.length_toDigits_le_iff (by decide) (by omega)).mpr hunits
  have hone : (if v.isNegative then 1 else 0) ≤ 1 := by split <;> decide
  rw [length_signed, Decimal.length_pointed]
  split <;> omega

theorem fills_editGeneral (hv : v.isFinite = true) (hdecimals : 1 ≤ decimals)
    (hwidth : decimals + 7 ≤ width) (scale : ℤ) :
    Fills width v (editGeneral v width decimals scale) := by
  by_cases hzero : v.toRat = 0
  · rw [editGeneral_zero hv hzero]
    refine fills_pointed (by omega) ?_ (by simp [hzero]) (Nearest.of_lt (by simp [hzero]))
    have hdigits : (Nat.toDigits 10 0).length = 1 := rfl
    rw [length_signed, Decimal.length_pointed, hdigits]
    split <;> simp <;> omega
  · rcases editGeneral_cases hv hzero width decimals scale with hform | ⟨places, hle, hsmall, hform⟩
    · rw [hform]
      refine fills_editExponent hv hzero hdecimals ?_
      unfold exponentFigures
      split <;> omega
    · rw [hform]
      exact fills_fixed hv hwidth hle hsmall

/-- A general form of any finite number fills its columns, if there are seven more than digits; but
where the digits cannot be counted, there is a form of zero only. -/
theorem general_fills (hv : v.isFinite = true) (hdecimals : 1 ≤ decimals)
    (hwidth : decimals + 7 ≤ width) (scale : ℤ) :
    (decimals % 2 ^ 32 ≠ 2 ^ 31 ∨ v.toRat = 0 →
      ∃ text, general v width decimals scale = .ok text ∧ Fills width v text) ∧
    (decimals % 2 ^ 32 = 2 ^ 31 → v.toRat ≠ 0 →
      general v width decimals scale = .error .outOfRange) := by
  have hcondition : (narrow decimals = -Nat.pow 2 31 ∧ v.isFinite && v != 0.0) ↔
      decimals % 2 ^ 32 = 2 ^ 31 ∧ v.toRat ≠ 0 := by
    rw [narrow_eq_least_iff, hv, Bool.true_and, bne, Bool.not_eq_true', ← Bool.not_eq_true,
      Double.beq_zero_iff hv]
  constructor
  · intro h
    refine ⟨_, if_neg fun hfails => ?_, fills_editGeneral hv hdecimals hwidth scale⟩
    obtain ⟨hleast, hne⟩ := hcondition.mp hfails
    exact h.elim (absurd hleast) hne
  · exact fun hleast hne => if_pos (hcondition.mpr ⟨hleast, hne⟩)

/-- Thirteen columns are just enough for a sign, a zero before the point and six digits behind it. -/
theorem general_fills_thirteen :
    ∃ text, general (-0.123456) 13 6 1 = .ok text ∧ Fills 13 (-0.123456) text :=
  (general_fills (by decide +kernel) (by decide) (by decide) 1).1 (.inl (by decide))

/-- The value one has no form with 2147483648 digits. -/
theorem general_of_least : (1.0 : Double).isFinite = true ∧ 2147483648 + 7 ≤ 2147483655 ∧
    general 1.0 2147483655 2147483648 0 = .error .outOfRange :=
  ⟨by decide +kernel, by decide, if_pos (by decide +kernel)⟩

end Hydroseries.Record
