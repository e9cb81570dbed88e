import Hydroseries.Proofs.Record.Edit

/-!
# The general form, read again

The general form of a value of moderate size is in fixed notation, and the digits before the point
are told by comparing the value with bounds that are themselves computed in floats. Nothing is lost
by that: for the numbers of digits in use each bound parts the floats below it, which round to at
most so many digits, from the others, which round to a leading digit (`separates_bound`). So the
columns of a general form show the value rounded to its digits (`editGeneral_shows`). A value that is
crowded out is the exception: the zero before its point is kept, and there is no column left for its
sign.
-/

namespace Hydroseries.Record

open Double (grid)
open Decimal (Nearest)
open Text (trimChars)

/-! ## Floats between numbers -/

theorem cast_double_sub {N k : ℕ} (h : k ≤ 2 * N) : ((2 * N - k : ℕ) : ℚ) / 2 = N - k / 2 := by
  rw [Nat.cast_sub h]
  push_cast
  ring

theorem div_mul_lt_half_iff {K : ℕ} (hK : 0 < K) (n places high : ℕ) :
    (n / K * 10 ^ places : ℚ) < high / 2 ↔ 2 * n * 10 ^ places < high * K := by
  rw [div_mul_eq_mul_div, div_lt_div_iff₀ (Nat.cast_pos.mpr hK) two_pos]
  norm_cast
  rw [Nat.mul_comm _ 2, Nat.mul_assoc]

theorem abs_toRat_mul_lt_iff (x : Double) (places high : ℕ) :
    |x.toRat| * 10 ^ places < high / 2 ↔
      2 * grid x.magnitude.toNat * 10 ^ places < high * 2 ^ 1074 := by
  have hcast : (2 : ℚ) ^ 1074 = (2 ^ 1074 : ℕ) := by rw [Nat.cast_pow, Nat.cast_two]
  have hpos : 0 < 2 ^ 1074 := by positivity
  rw [Double.abs_toRat, hcast]
  generalize 2 ^ 1074 = K at hpos ⊢
  exact div_mul_lt_half_iff hpos _ places high

/-- A float between numbers, counted in halves of `10 ^ (-places)`: what is below the float is below
`high`, and what is not below the float is not below `low`. -/
def separates (b : Double) (places low high : Nat) : Bool :=
  b.isFinite && !b.isNegative &&
    decide (2 * grid (b.magnitude.toNat - 1) * 10 ^ places < high * 2 ^ 1074) &&
    decide (low * 2 ^ 1074 ≤ 2 * grid b.magnitude.toNat * 10 ^ places)

variable {v b : Double} {places low high : Nat}

theorem lt_of_separates (h : separates b places low high = true) (hv : v.isFinite = true)
    (hlt : v.abs < b) : |v.toRat| * 10 ^ places < high / 2 := by
  simp only [separates, Bool.and_eq_true, Bool.not_eq_true', decide_eq_true_eq] at h
  obtain ⟨⟨⟨hfinite, hpos⟩, hhigh⟩, -⟩ := h
  have hbits := (Double.abs_lt_iff hv hfinite hpos).mp hlt
  have hgrid : grid v.magnitude.toNat ≤ grid (b.magnitude.toNat - 1) :=
    Double.grid_strictMono.monotone (by omega)
  rw [abs_toRat_mul_lt_iff]
  exact lt_of_le_of_lt (Nat.mul_le_mul_right _ (Nat.mul_le_mul_left _ hgrid)) hhigh

theorem le_of_separates (h : separates b places low high = true) (hv : v.isFinite = true)
    (hle : ¬ v.abs < b) : (low : ℚ) / 2 ≤ |v.toRat| * 10 ^ places := by
  simp only [separates, Bool.and_eq_true, Bool.not_eq_true', decide_eq_true_eq] at h
  obtain ⟨⟨⟨hfinite, hpos⟩, -⟩, hlow⟩ := h
  rw [Double.abs_lt_iff hv hfinite hpos, Nat.not_lt, ← Double.grid_strictMono.le_iff_le] at hle
  rw [← not_lt, abs_toRat_mul_lt_iff, Nat.not_lt]
  exact hlow.trans (Nat.mul_le_mul_right _ (Nat.mul_le_mul_left _ hle))

theorem not_lt_iff_of_separates (h : separates b places low high = true) (hv : v.isFinite = true) :
    ¬ v.abs < b ↔ b ≤ v.abs := by
  simp only [separates, Bool.and_eq_true, Bool.not_eq_true'] at h
  obtain ⟨⟨⟨hfinite, hpos⟩, -⟩, -⟩ := h
  rw [Double.abs_lt_iff hv hfinite hpos, Double.le_abs_iff hv hfinite hpos, Nat.not_lt]

/-! ## The bounds of the general form -/

/-- What is below this bound has at most `before` digits before the point. -/
def bound (decimals before : Nat) : Double :=
  tenTo before - 0.5 * tenTo ((before : Int) - decimals)

/-- What is below this bound is written with an exponent. -/
def leastFixed (decimals : Nat) : Double := 0.1 - 0.5 * tenTo (-decimals - 1)

/-- The digits of the general forms of a report. -/
def reportDigits : List Nat := [7, 9, 12]

theorem two_le_of_mem_reportDigits : ∀ decimals ∈ reportDigits, 2 ≤ decimals := by decide

theorem narrow_of_mem_reportDigits : ∀ decimals ∈ reportDigits, narrow decimals = decimals := by
  decide

theorem separates_bound : ∀ decimals ∈ reportDigits, ∀ before ∈ List.range (decimals + 1),
    separates (bound decimals before) (decimals - before) (2 * 10 ^ decimals - 10)
      (2 * 10 ^ decimals - 1) = true := by
  decide +kernel

theorem separates_leastFixed : ∀ decimals ∈ reportDigits,
    separates (leastFixed decimals) decimals (2 * 10 ^ (decimals - 1) - 1)
      (2 * 10 ^ (decimals - 1)) = true := by
  decide +kernel

/-- The bound of all digits is the one that is written out. -/
theorem bound_self : ∀ decimals ∈ reportDigits,
    (tenTo (decimals : Nat) - 0.5 : Double).bits = (bound decimals decimals).bits := by
  decide +kernel

/-- Values that are large are told by the bound of all digits. -/
theorem tenTo_sub_half_le_iff {decimals : Nat} (hdecimals : decimals ∈ reportDigits)
    (hv : v.isFinite = true) :
    (tenTo (decimals : Nat) - 0.5 : Double) ≤ v.abs ↔ ¬ v.abs < bound decimals decimals := by
  have hbound : (tenTo (decimals : Nat) - 0.5 : Double) = bound decimals decimals :=
    congrArg Double.mk (bound_self decimals hdecimals)
  rw [hbound, not_lt_iff_of_separates (separates_bound decimals hdecimals decimals (by simp)) hv]

/-! ## Fixed notation -/

theorem fixed_eq (hv : v.isFinite = true) (places : Nat) : Decimal.fixed places v =
    Decimal.signed v.isNegative
      (Decimal.pointed ((Decimal.Exact.ofDouble v).unitsAt places .toEven) places) := by
  have hspecial : Decimal.special? v = none := by
    rw [Decimal.special?, Double.isNaN_of_isFinite hv, Double.isInf_of_isFinite hv]
    rfl
  rw [Decimal.fixed, hspecial]
  rfl

theorem nearest_fixed (v : Double) (places : Nat) :
    Nearest ((Decimal.Exact.ofDouble v).unitsAt places .toEven) (|v.toRat| * 10 ^ places) := by
  have hnear := Decimal.Exact.nearest_unitsAt (Decimal.Exact.den_pos v) places
  rwa [Decimal.Exact.num_div_den, zpow_natCast] at hnear

/-! ## Choosing the form -/

/-- Values of moderate size are written without an exponent. -/
def IsModerate (decimals : Nat) (v : Double) : Prop :=
  ¬ v.abs < leastFixed decimals ∧ v.abs < bound decimals decimals

instance (decimals : Nat) (v : Double) : Decidable (IsModerate decimals v) :=
  inferInstanceAs (Decidable (_ ∧ _))

/-- The number of digits before the point is the least that the value is below the bound of. -/
theorem find?_bound {decimals : Nat} (h : v.abs < bound decimals decimals) :
    ∃ before ≤ decimals, v.abs < bound decimals before ∧
      (∀ n < before, ¬ v.abs < bound decimals n) ∧
      (List.range (decimals + 1)).find? (fun n => decide (v.abs < bound decimals n)) =
        some before := by
  have hsome : (List.range (decimals + 1)).find? (fun n => decide (v.abs < bound decimals n)) ≠
      none := fun hnone => List.find?_eq_none.mp hnone decimals (by simp) (by simpa using h)
  obtain ⟨before, hbefore⟩ := Option.ne_none_iff_exists'.mp hsome
  obtain ⟨hlt, hmem, hleast⟩ := List.find?_range_eq_some.mp hbefore
  exact ⟨before, by simpa [Nat.lt_succ_iff] using hmem, by simpa using hlt,
    fun n hn => by simpa using hleast n hn, hbefore⟩

/-- A value of moderate size has as many digits as it should, also after rounding. -/
theorem units_bounds {decimals before units : Nat} (hdecimals : decimals ∈ reportDigits)
    (hv : v.isFinite = true) (hbefore : before ≤ decimals) (hlow : ¬ v.abs < leastFixed decimals)
    (hlt : v.abs < bound decimals before) (hleast : ∀ n < before, ¬ v.abs < bound decimals n)
    (hnear : Nearest units (|v.toRat| * 10 ^ (decimals - before))) :
    10 ^ (decimals - 1) ≤ units ∧ units < 10 ^ decimals := by
  have htwo := two_le_of_mem_reportDigits decimals hdecimals
  constructor
  · have heven : Even (10 ^ (decimals - 1)) := Even.pow_of_ne_zero (by decide) (by omega)
    have hten : 0 < 10 ^ (decimals - 1) := Nat.pow_pos (by decide)
    refine hnear.le_of_le heven ?_
    cases before with
    | zero =>
      have hleast := le_of_separates (separates_leastFixed decimals hdecimals) hv hlow
      rwa [cast_double_sub (by omega), Nat.cast_one] at hleast
    | succ n =>
      -- What is not below the bound with one digit less has one digit more.
      have hbelow := le_of_separates (separates_bound decimals hdecimals n (by simp; omega)) hv
        (hleast n (Nat.lt_succ_self n))
      have hdigits : 10 ^ decimals = 10 ^ (decimals - 1) * 10 := by
        rw [← Nat.pow_succ, Nat.succ_eq_add_one, Nat.sub_add_cancel (by omega)]
      have hplaces : decimals - n = decimals - (n + 1) + 1 := by omega
      rw [cast_double_sub (by omega), hdigits, hplaces, pow_succ] at hbelow
      push_cast at hbelow ⊢
      linarith
  · have hten : 0 < 10 ^ decimals := Nat.pow_pos (by decide)
    refine hnear.lt_of_lt ?_
    have habove := lt_of_separates
      (separates_bound decimals hdecimals before (by simp; omega)) hv hlt
    rwa [cast_double_sub (by omega), Nat.cast_one] at habove

/-- The form of a value of moderate size. -/
theorem editGeneral_of_isModerate {decimals : Nat} (hdecimals : decimals ∈ reportDigits)
    (hv : v.isFinite = true) (hne : v.toRat ≠ 0) (h : IsModerate decimals v) (width : Nat)
    (scale : ℤ) : ∃ before ≤ decimals, ∃ units, 10 ^ (decimals - 1) ≤ units ∧
      units < 10 ^ decimals ∧ Nearest units (|v.toRat| * 10 ^ (decimals - before)) ∧
      (before = 0 ↔ v.abs < bound decimals 0) ∧
      editGeneral v width decimals scale =
        fit (Decimal.signed v.isNegative (Decimal.pointed units (decimals - before))) (width - 4) ++
          "    " := by
  obtain ⟨before, hle, hlt, hleast, hfind⟩ := find?_bound h.2
  have hnear := nearest_fixed v (decimals - before)
  obtain ⟨hlow, hhigh⟩ := units_bounds hdecimals hv hle h.1 hlt hleast hnear
  refine ⟨before, hle, _, hlow, hhigh, hnear, ⟨?small, fun hsmall => ?least⟩, ?form⟩
  case small =>
    rintro rfl
    exact hlt
  case least =>
    by_contra hne
    exact hleast 0 (Nat.pos_of_ne_zero hne) hsmall
  case form =>
    have hmost : decide (tenTo (decimals : Nat) - 0.5 ≤ v.abs) = false := by
      rw [decide_eq_false_iff_not, tenTo_sub_half_le_iff hdecimals hv, not_not]
      exact h.2
    have hleast : decide (v.abs < 0.1 - 0.5 * tenTo (-decimals - 1)) = false :=
      decide_eq_false h.1
    have hbefore : ((List.range (decimals + 1)).find? fun (n : Nat) =>
        decide (v.abs < tenTo n - 0.5 * tenTo ((n : ℤ) - decimals))) = some before := hfind
    have hrange : ((decimals : ℤ) + 1).toNat = decimals + 1 := by omega
    have hplaces : ((decimals : ℤ) - before).toNat = decimals - before := by omega
    simp only [editGeneral, narrow_of_mem_reportDigits decimals hdecimals, hrange, hplaces,
      Double.beq_zero_of_ne hv hne, hv, hmost, hleast, hbefore, ge_iff_le, Bool.false_eq_true,
      if_false, Bool.not_true, Bool.or_false, Option.elim_some, Int.ofNat_eq_natCast, fixed_eq hv]

/-- Other values have the exponent form. -/
theorem editGeneral_of_not_isModerate {decimals : Nat} (hdecimals : decimals ∈ reportDigits)
    (hv : v.isFinite = true) (hne : v.toRat ≠ 0) (h : ¬ IsModerate decimals v) (width : Nat)
    (scale : ℤ) : editGeneral v width decimals scale = editExponent v width decimals scale := by
  have hextreme : v.abs < 0.1 - 0.5 * tenTo (-decimals - 1) ∨
      (tenTo (decimals : Nat) - 0.5 : Double) ≤ v.abs := by
    rw [tenTo_sub_half_le_iff hdecimals hv]
    exact (not_and_or.mp h).imp_left not_not.mp
  simp [editGeneral, narrow_of_mem_reportDigits decimals hdecimals, Double.beq_zero_of_ne hv hne, hv,
    hextreme]

/-- The digits of a report are counted without leaving the range. -/
theorem general_eq {decimals : Nat} (hdecimals : decimals ∈ reportDigits) (v : Double) (width : Nat)
    (scale : ℤ) : general v width decimals scale = .ok (editGeneral v width decimals scale) := by
  refine if_neg fun h => ?_
  have hcount := (narrow_of_mem_reportDigits decimals hdecimals).symm.trans h.1
  rw [Nat.pow_eq] at hcount
  omega

/-! ## What is shown -/

/-- The number of significant digits of the form that a value has. -/
def figures (decimals : Nat) (scale : ℤ) (v : Double) : Nat :=
  if IsModerate decimals v then decimals else exponentFigures decimals scale

/-- There is no column for the sign of a value whose digits all stand behind the point. -/
def Crowded (width decimals : Nat) (v : Double) : Prop :=
  width < decimals + 7 ∧ v.toRat < 0 ∧ IsModerate decimals v ∧ v.abs < bound decimals 0

/-- What a reader finds in the columns of a general form. -/
inductive Shows (width decimals : Nat) (scale : ℤ) (v : Double) (cell : List Char) : Prop
  /-- A number, which is the value rounded to the digits of the form. -/
  | number (r : ℚ) (hroom : ¬ Crowded width decimals v) (hread : readReal? cell = some r)
    (hrounds : RoundsTo (figures decimals scale v) v.toRat r)
  /-- Asterisks in the place of digits. -/
  | asterisks (hcrowded : Crowded width decimals v)
    (hcell : trimChars cell = List.replicate (width - 4) '*')

/-- Blanks around a number do not matter. -/
theorem Shows.congr {width decimals : Nat} {scale : ℤ} {cell cell' : List Char}
    (h : Shows width decimals scale v cell) (hcell : trimChars cell' = trimChars cell) :
    Shows width decimals scale v cell' := by
  have hread : readReal? cell' = readReal? cell := by rw [readReal?, hcell, readReal?]
  cases h with
  | number r hroom hr hrounds => exact .number r hroom (hread.trans hr) hrounds
  | asterisks hcrowded hstars => exact .asterisks hcrowded (hcell.trans hstars)

/-- Zero has no digit but zeros. -/
theorem editGeneral_zero (hv : v.isFinite = true) (h : v.toRat = 0) (width decimals : Nat)
    (scale : ℤ) : editGeneral v width decimals scale =
      fit (Decimal.signed false (Decimal.pointed 0 (decimals - 1))) (width - 4) ++ "    " := by
  have hzero : (v == 0.0) = true := (Double.beq_zero_iff hv).mpr h
  have hliteral : (0.0 : Double).isFinite = true ∧ (0.0 : Double).isNegative = false ∧
      (0.0 : Double).magnitude.toNat = 0 := by decide +kernel
  have hvalue : (0.0 : Double).toRat = 0 := Double.toRat_eq_zero_iff.mpr hliteral.2.2
  have hunits := (nearest_fixed 0.0 (decimals - 1)).lt_of_lt (N := 1) (by rw [hvalue]; norm_num)
  simp only [editGeneral, hzero, if_true, fixed_eq hliteral.1, hliteral.2.1,
    Nat.lt_one_iff.mp hunits]

/-- Four columns of a general form in fixed notation are blanks. -/
theorem length_inner {width : Nat} (hwidth : 4 ≤ width) (text : String) :
    (fit text (width - 4) ++ "    ").length = width := by
  rw [String.length_append, length_fit]
  exact Nat.sub_add_cancel hwidth

theorem length_editGeneral {width : Nat} (hwidth : 4 ≤ width) (v : Double) (decimals : Nat)
    (scale : ℤ) : (editGeneral v width decimals scale).length = width := by
  have hexponent : (editExponent v width decimals scale).length = width := by
    simp only [editExponent, apply_ite String.length, length_fit, ite_self]
  simp only [editGeneral, apply_ite String.length, length_inner hwidth, hexponent, ite_self]

theorem trimChars_append_spaces (cell : List Char) :
    trimChars (cell ++ "    ".toList) = trimChars cell := by
  have hspaces : "    ".toList = List.replicate 4 ' ' := rfl
  rw [hspaces]
  exact Text.trimChars_append_blanks (fun _ hc => isBlank_of_mem_replicate hc) cell

/-- A number in fixed notation is read from the columns of a general form if it fits them. -/
theorem readParts?_inner (negative : Bool) (units places : Nat) {inner : Nat}
    (hfits : (Decimal.signed negative (Decimal.pointed units places)).length ≤ inner) :
    readParts? (fit (Decimal.signed negative (Decimal.pointed units places)) inner ++
      "    ").toList = some (negative, units, -(places : ℤ)) := by
  refine readParts?_pointed negative units places ?_
  rw [String.toList_append, trimChars_append_spaces]
  exact trimChars_fit hfits fun c hc => isBlank_of_isNumeral (isNumeral_of_mem_signed hc)

theorem trimChars_stars {text : String} {inner : Nat} (h : inner < text.length) :
    trimChars (fit text inner ++ "    ").toList = List.replicate inner '*' := by
  rw [String.toList_append, trimChars_append_spaces, toList_fit_of_lt h]
  have hstars : ∀ c ∈ List.replicate inner '*', Text.isBlank c = false := by
    intro c hc
    rw [List.eq_of_mem_replicate hc]
    decide
  have hpadded : trimChars ([] ++ List.replicate inner '*' ++ []) = List.replicate inner '*' :=
    Text.trimChars_padded nofun nofun hstars
  simpa using hpadded

/-- Fixed notation is too long for its columns just for a value that is crowded. -/
theorem crowded_iff (width : Nat) {decimals before units : Nat} (hpos : 2 ≤ decimals)
    (hwidth : decimals + 6 ≤ width) (hzero : v.toRat ≠ 0) (hmoderate : IsModerate decimals v)
    (hbefore : before ≤ decimals) (hsmall : before = 0 ↔ v.abs < bound decimals 0)
    (hlow : 10 ^ (decimals - 1) ≤ units) (hhigh : units < 10 ^ decimals) :
    Crowded width decimals v ↔ width - 4 <
      (Decimal.signed v.isNegative (Decimal.pointed units (decimals - before))).length := by
  have hdigits : (Nat.toDigits 10 units).length = decimals := by
    obtain ⟨k, rfl⟩ := Nat.exists_eq_add_of_le' (Nat.one_le_of_lt hpos)
    exact Text.length_toDigits_eq hlow hhigh
  rw [Crowded, Double.toRat_neg_iff, and_iff_left hzero, ← hsmall, and_iff_right hmoderate,
    length_signed, Decimal.length_pointed, hdigits]
  cases v.isNegative with
  | true =>
    rw [if_pos rfl, and_iff_right rfl]
    split <;> omega
  | false =>
    refine iff_of_false (fun h => Bool.false_ne_true h.2.1) ?_
    rw [if_neg Bool.false_ne_true]
    split <;> omega

/-- The columns of a general form show the value, but for the sign that has no room. -/
theorem editGeneral_shows {width decimals : Nat} {scale : ℤ} (hdecimals : decimals ∈ reportDigits)
    (hwidth : exponentFigures decimals scale + 6 ≤ width) (hv : v.isFinite = true) :
    Shows width decimals scale v (editGeneral v width decimals scale).toList := by
  have hpos := two_le_of_mem_reportDigits decimals hdecimals
  have hfigures : decimals ≤ exponentFigures decimals scale := by
    unfold exponentFigures
    split <;> omega
  by_cases hzero : v.toRat = 0
  · -- Zero
    rw [editGeneral_zero hv hzero]
    refine .number _ (fun h => h.2.1.ne hzero)
      (readReal?_of_parts (readParts?_inner _ _ _ ?_)) (.inl ⟨hzero, by simp⟩)
    rw [length_signed, Decimal.length_pointed]
    have hdigits : (Nat.toDigits 10 0).length = 1 := rfl
    simp only [hdigits, Bool.false_eq_true, if_false]
    split <;> omega
  by_cases hmoderate : IsModerate decimals v
  · -- In fixed notation
    obtain ⟨before, hbefore, units, hlow, hhigh, hnear, hsmall, hform⟩ :=
      editGeneral_of_isModerate hdecimals hv hzero hmoderate width scale
    have hcrowded := crowded_iff width hpos (by omega) hzero hmoderate hbefore hsmall hlow
      hhigh
    rw [hform]
    by_cases h : Crowded width decimals v
    · exact .asterisks h (trimChars_stars (hcrowded.mp h))
    · have hfits := Nat.not_lt.mp fun hlt => h (hcrowded.mpr hlt)
      refine .number _ h (readReal?_of_parts (readParts?_inner _ _ _ hfits))
        (.inr ⟨units, (decimals - before : ℕ), ?_⟩)
      rw [figures, if_pos hmoderate, zpow_natCast]
      refine ⟨hlow, hhigh, hnear, ?_⟩
      simp only [Double.toRat_neg_iff, and_iff_left hzero]
  · -- With an exponent
    obtain ⟨r, hread, hrounds⟩ := editExponent_spec hv hzero (by omega) hwidth
    rw [editGeneral_of_not_isModerate hdecimals hv hzero hmoderate]
    refine .number r (fun h => hmoderate h.2.2.1) hread ?_
    rwa [figures, if_neg hmoderate]

end Hydroseries.Record
