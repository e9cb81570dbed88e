import Hydroseries.Proofs.Decimal.Value

/-!
# Floats in parts

Arithmetic takes a float apart into a sign, a mantissa and an exponent. A finite float has parts of
the same value (`valueOf_unpacked`), and parts that fit the bits are the parts of a finite float
(`unpacked_ofUnpacked`). Where the parts do not fit, they still have the sign of the float
(`isSigned_lift₂`).
-/

namespace Hydroseries.Double

open Float.Model Float.Model.UnpackedFloat

variable {x y : Double} {u : UnpackedFloat}

def unpacked (x : Double) : UnpackedFloat := UnpackedFloat.unpack .binary64 x.bits.toBitVec

def ofUnpacked (u : UnpackedFloat) : Double := ⟨(Float.Model.pack u).toBits⟩

def sign (x : Double) : Sign := if x.isNegative then .negative else .positive

/-- The value of a float in parts. -/
def valueOf : UnpackedFloat → ℚ
  | .finite s m e _ => (s.apply m : ℤ) * 2 ^ e
  | _ => 0

@[simp] theorem valueOf_zero (s : Sign) : valueOf (.zero s) = 0 := rfl

theorem valueOf_finite (s : Sign) (m : ℕ) (e : ℤ) (h : 0 < m) :
    valueOf (.finite s m e h) = (s.apply m : ℤ) * 2 ^ e := rfl

/-- The parts are those of a finite float: the mantissa has fifty-three bits, or fewer if the
exponent is the least. -/
def Fits : UnpackedFloat → Prop
  | .zero _ => True
  | .finite _ m e _ => m < 2 ^ 53 ∧ -1074 ≤ e ∧ e ≤ 971 ∧ (2 ^ 52 ≤ m ∨ e = -1074)
  | _ => False

/-! ## Taking apart -/

theorem toNat_unpackMantissa (b : BitVec 64) :
    (@unpackMantissa .binary64 b).toNat = b.toNat % 2 ^ 52 := by
  simp [unpackMantissa, BitVec.extractLsb_toNat]

theorem toNat_unpackExponent (b : BitVec 64) :
    (@unpackExponent .binary64 b).toNat = b.toNat / 2 ^ 52 % 2 ^ 11 := by
  simp [unpackExponent, BitVec.extractLsb_toNat, Nat.shiftRight_eq_div_pow]

theorem unpackSign_eq (x : Double) :
    Sign.ofBitVec (@unpackSign .binary64 x.bits.toBitVec) = x.sign := by
  have hsign : (@unpackSign .binary64 x.bits.toBitVec).toNat = (x.bits >>> 63).toNat := by
    have hbits : x.bits.toNat < 2 ^ 64 := x.bits.toNat_lt
    show (x.bits.toBitVec.extractLsb 63 63).toNat = _
    rw [BitVec.extractLsb_toNat]
    simp [Nat.shiftRight_eq_div_pow]
    omega
  have hone : (x.bits >>> 63).toNat < 2 := by
    rw [← hsign]
    exact BitVec.isLt _
  have hzero : @unpackSign .binary64 x.bits.toBitVec = 0#1 ↔ (x.bits >>> 63).toNat = 0 := by
    rw [← hsign]
    exact BitVec.toNat_inj.symm
  have hnegative : x.isNegative = true ↔ (x.bits >>> 63).toNat = 1 := by
    rw [isNegative, beq_iff_eq]
    exact UInt64.toNat_inj.symm
  rw [Sign.ofBitVec, sign, if_congr hzero rfl rfl, if_congr hnegative rfl rfl]
  split <;> split <;> first | rfl | omega

theorem fractionBits_lt (x : Double) : x.fractionBits < 2 ^ 52 := by
  rw [fractionBits_eq]
  exact Nat.mod_lt _ (by decide)

theorem exponentBits_lt (x : Double) : x.exponentBits < 2 ^ 11 := by
  have hbits := x.toNat_magnitude
  rw [exponentBits_eq]
  omega

theorem isFinite_iff : x.isFinite = true ↔ x.exponentBits < 2047 := by
  rw [isFinite, decide_eq_true_eq, UInt64.lt_iff_toNat_lt, exponentBits_eq]
  show x.magnitude.toNat < 2047 * 2 ^ 52 ↔ _
  omega

theorem finite_congr {s s' : Sign} {m m' : ℕ} {e e' : ℤ} {h : 0 < m} {h' : 0 < m'} (hs : s = s')
    (hm : m = m') (he : e = e') : UnpackedFloat.finite s m e h = .finite s' m' e' h' := by
  subst hs hm he
  rfl

/-- The parts of a float, from its bits. -/
theorem unpacked_eq (x : Double) :
    x.unpacked =
      if x.exponentBits = 2047 then
        if x.fractionBits = 0 then .infinity x.sign else .notANumber
      else if x.exponentBits = 0 then
        if h : x.fractionBits = 0 then .zero x.sign
        else .finite x.sign x.fractionBits (-1074) (Nat.pos_of_ne_zero h)
      else .finite x.sign (2 ^ 52 + x.fractionBits) (x.exponentBits - 1075) (by omega) := by
  have hmantissa : (@unpackMantissa .binary64 x.bits.toBitVec).toNat = x.fractionBits := by
    have hbits := x.toNat_magnitude
    rw [toNat_unpackMantissa, fractionBits_eq]
    show x.bits.toNat % 2 ^ 52 = _
    omega
  have hexponent :
      (@unpackExponent .binary64 x.bits.toBitVec).toNat = x.exponentBits := by
    have hbits := x.toNat_magnitude
    rw [toNat_unpackExponent, exponentBits_eq]
    show x.bits.toNat / 2 ^ 52 % 2 ^ 11 = _
    omega
  have hinfinite : @unpackExponent .binary64 x.bits.toBitVec = -1#_ ↔
      x.exponentBits = 2047 := by
    rw [← hexponent]
    exact BitVec.toNat_inj.symm
  have hleast : @unpackExponent .binary64 x.bits.toBitVec = 0#_ ↔
      x.exponentBits = 0 := by
    rw [← hexponent]
    exact BitVec.toNat_inj.symm
  have hempty : @unpackMantissa .binary64 x.bits.toBitVec = 0#_ ↔
      x.fractionBits = 0 := by
    rw [← hmantissa]
    exact BitVec.toNat_inj.symm
  have himplicit : (1#1 ++ @unpackMantissa .binary64 x.bits.toBitVec).toNat =
      2 ^ 52 + x.fractionBits := by
    rw [BitVec.toNat_append, ← Nat.shiftLeft_add_eq_or_of_lt (BitVec.isLt _), hmantissa]
    rfl
  have hbias : ((@unpackExponent .binary64 x.bits.toBitVec).toNat -
      ((Format.exponentBias .binary64 : ℕ) + (Format.mantissaBitsWithoutImplicit .binary64 : ℕ)) : ℤ) =
        x.exponentBits - 1075 := by
    rw [hexponent]
    rfl
  have hsign := unpackSign_eq x
  unfold unpacked UnpackedFloat.unpack
  refine ite_congr (propext hinfinite) (fun _ => ?_) fun _ => ?_
  · rw [← hsign]
    exact if_congr hempty rfl rfl
  refine ite_congr (propext hleast) (fun hzero => ?_) fun _ => ?_
  · refine dite_congr (propext hempty) (fun _ => congrArg zero hsign) fun _ => ?_
    exact finite_congr hsign hmantissa (by rw [hbias, hzero]; rfl)
  · exact finite_congr hsign himplicit hbias

/-- A finite float is zero, or has the least exponent, or has a mantissa with its leading bit. -/
theorem unpacked_cases (hx : x.isFinite = true) :
    (x.exponentBits = 0 ∧ x.fractionBits = 0 ∧ x.unpacked = .zero x.sign) ∨
    (x.exponentBits = 0 ∧ ∃ h, x.unpacked = .finite x.sign x.fractionBits (-1074) h) ∨
    (x.exponentBits ≠ 0 ∧
      ∃ h, x.unpacked = .finite x.sign (2 ^ 52 + x.fractionBits) (x.exponentBits - 1075) h) := by
  rw [isFinite_iff] at hx
  rw [unpacked_eq, if_neg (by omega)]
  by_cases hleast : x.exponentBits = 0
  · rw [if_pos hleast]
    by_cases hempty : x.fractionBits = 0
    · exact .inl ⟨hleast, hempty, dif_pos hempty⟩
    · exact .inr (.inl ⟨hleast, _, dif_neg hempty⟩)
  · exact .inr (.inr ⟨hleast, _, if_neg hleast⟩)

theorem isFinite_unpacked (x : Double) : x.unpacked.isFinite = x.isFinite := by
  by_cases hx : x.isFinite = true
  · rcases unpacked_cases hx with ⟨-, -, hu⟩ | ⟨-, _, hu⟩ | ⟨-, _, hu⟩
    all_goals
      rw [hu, hx]
      rfl
  · have hlt := x.exponentBits_lt
    rw [isFinite_iff, not_lt] at hx
    have hlimit : x.exponentBits = 2047 := by omega
    rw [unpacked_eq, if_pos hlimit, Bool.eq_iff_iff, isFinite_iff]
    by_cases hempty : x.fractionBits = 0
    · rw [if_pos hempty]
      exact iff_of_false Bool.false_ne_true (by omega)
    · rw [if_neg hempty]
      exact iff_of_false Bool.false_ne_true (by omega)

theorem fits_unpacked (hx : x.isFinite = true) : Fits x.unpacked := by
  have hfraction := x.fractionBits_lt
  have hexponent := isFinite_iff.mp hx
  rcases unpacked_cases hx with ⟨-, -, hu⟩ | ⟨-, _, hu⟩ | ⟨hnormal, _, hu⟩
  · rw [hu]
    trivial
  · rw [hu]
    exact ⟨by omega, by omega, by omega, .inr rfl⟩
  · rw [hu]
    exact ⟨by omega, by omega, by omega, .inl (by omega)⟩

theorem apply_sign (x : Double) (n : ℕ) :
    ((x.sign.apply n : ℤ) : ℚ) = (if x.isNegative then -1 else 1) * n := by
  unfold sign
  split <;> simp [Sign.apply]

/-- The parts of a finite float have its value. -/
theorem valueOf_unpacked (hx : x.isFinite = true) : valueOf x.unpacked = x.toRat := by
  rcases unpacked_cases hx with ⟨hleast, hempty, hu⟩ | ⟨hleast, _, hu⟩ | ⟨hnormal, _, hu⟩
  · rw [hu, toRat, if_pos hleast, hempty]
    simp
  · rw [hu, toRat, if_pos hleast, valueOf_finite, apply_sign, mul_assoc]
  · rw [hu, toRat, if_neg hnormal, valueOf_finite, apply_sign, mul_assoc, Nat.cast_add, Nat.cast_pow,
      Nat.cast_ofNat]

/-! ## Putting together -/

theorem toNat_packComponents (s : Sign) (e : BitVec 11) (m : BitVec 52) :
    (packComponents .binary64 s e m).toNat =
      s.toBitVec.toNat * 2 ^ 63 + e.toNat * 2 ^ 52 + m.toNat := by
  have hhead : (s.toBitVec ++ e).toNat = s.toBitVec.toNat * 2 ^ 11 + e.toNat := by
    rw [BitVec.toNat_append, ← Nat.shiftLeft_add_eq_or_of_lt e.isLt, Nat.shiftLeft_eq]
  show ((s.toBitVec ++ e) ++ m).toNat = _
  rw [BitVec.toNat_append, ← Nat.shiftLeft_add_eq_or_of_lt m.isLt, Nat.shiftLeft_eq, hhead]
  omega

/-- A float with given components has their sign, exponent and fraction. -/
theorem fields_of_components {s : Sign} {e : BitVec 11} {m : BitVec 52}
    (hbits : x.bits.toBitVec = packComponents .binary64 s e m) :
    x.sign = s ∧ x.exponentBits = e.toNat ∧ x.fractionBits = m.toNat := by
  have hnat : x.bits.toNat = s.toBitVec.toNat * 2 ^ 63 + e.toNat * 2 ^ 52 + m.toNat := by
    rw [← toNat_packComponents, ← hbits]
    rfl
  have hmagnitude := x.toNat_magnitude
  have he := e.isLt
  have hm := m.isLt
  have hs := s.toBitVec.isLt
  have hshift : (x.bits >>> 63).toNat = x.bits.toNat / 2 ^ 63 := by
    rw [UInt64.toNat_shiftRight, Nat.shiftRight_eq_div_pow]
    rfl
  have hnegative : x.isNegative = true ↔ s.toBitVec.toNat = 1 := by
    rw [isNegative, beq_iff_eq, ← UInt64.toNat_inj, hshift]
    show _ = 1 ↔ _
    omega
  refine ⟨?_, by rw [exponentBits_eq]; omega, by rw [fractionBits_eq]; omega⟩
  rw [sign, if_congr hnegative rfl rfl]
  cases s <;> rfl

theorem toBits_ofUnpacked (u : UnpackedFloat) :
    (ofUnpacked u).bits.toBitVec = UnpackedFloat.pack .binary64 u := rfl

theorem pack_finite {s : Sign} {m : ℕ} {e : ℤ} {hpos : 0 < m} (hmost : e ≤ 971) :
    UnpackedFloat.pack .binary64 (.finite s m e hpos) =
      if m.log2 = 52 then
        packComponents .binary64 s (BitVec.ofNat 11 (e + 1075).toNat) (BitVec.ofNat 52 m)
      else packComponents .binary64 s 0#11 (BitVec.ofNat 52 m) := by
  have hroom : ¬ 2 ^ 11 ≤ (e + 1075).toNat + 1 := by omega
  have hnormal : m.log2 + 1 = Format.binary64.mantissaBits ↔ m.log2 = 52 := by
    show m.log2 + 1 = 53 ↔ _
    omega
  have hexponent : e + (Format.binary64.exponentBias : ℕ) +
      (Format.binary64.mantissaBitsWithoutImplicit : ℕ) = e + 1075 := add_assoc e 1023 52
  show (if 2 ^ 11 ≤ (e + (Format.binary64.exponentBias : ℕ) +
      (Format.binary64.mantissaBitsWithoutImplicit : ℕ)).toNat + 1 then
        packedInfinity .binary64 s else ite (m.log2 + 1 = Format.binary64.mantissaBits) _ _) = _
  rw [hexponent, if_neg hroom, if_congr hnormal rfl rfl]

/-- What fits the bits is taken apart into itself. -/
theorem unpacked_ofUnpacked (hu : Fits u) : (ofUnpacked u).unpacked = u := by
  cases u with
  | infinity s => exact hu.elim
  | notANumber => exact hu.elim
  | zero s =>
    have hpack : (ofUnpacked (.zero s)).bits.toBitVec = packComponents .binary64 s 0#11 0#52 := rfl
    obtain ⟨hs, he, hf⟩ := fields_of_components hpack
    rw [BitVec.toNat_zero] at he hf
    rw [unpacked_eq, if_neg (by omega), if_pos he, dif_pos hf, hs]
  | finite s m e hpos =>
    obtain ⟨hm, hleast, hmost, hfull⟩ := hu
    have hpack := (toBits_ofUnpacked (.finite s m e hpos)).trans (pack_finite hmost)
    by_cases hlog : m.log2 = 52
    · rw [if_pos hlog] at hpack
      have hlow := (Nat.log2_eq_iff hpos.ne').mp hlog
      obtain ⟨hs, he, hf⟩ := fields_of_components hpack
      rw [BitVec.toNat_ofNat, Nat.mod_eq_of_lt (by omega)] at he
      rw [BitVec.toNat_ofNat] at hf
      rw [unpacked_eq, if_neg (by omega), if_neg (by omega)]
      exact finite_congr hs (by omega) (by omega)
    · rw [if_neg hlog] at hpack
      -- The mantissa has fewer bits, so the exponent is the least.
      have hlow : m < 2 ^ 52 := by
        by_contra hge
        exact hlog ((Nat.log2_eq_iff hpos.ne').mpr ⟨not_lt.mp hge, hm⟩)
      obtain rfl := hfull.resolve_left (not_le.mpr hlow)
      obtain ⟨hs, he, hf⟩ := fields_of_components hpack
      rw [BitVec.toNat_zero] at he
      rw [BitVec.toNat_ofNat, Nat.mod_eq_of_lt hlow] at hf
      rw [unpacked_eq, if_neg (by omega), if_pos he, dif_neg (by omega)]
      exact finite_congr hs hf rfl

theorem isFinite_ofUnpacked (hu : Fits u) : (ofUnpacked u).isFinite = true := by
  rw [← isFinite_unpacked, unpacked_ofUnpacked hu]
  cases u with
  | infinity s => exact hu.elim
  | notANumber => exact hu.elim
  | zero s => rfl
  | finite s m e hpos => rfl

/-- What fits the bits has the value of its parts. -/
theorem toRat_ofUnpacked (hu : Fits u) : (ofUnpacked u).toRat = valueOf u := by
  rw [← valueOf_unpacked (isFinite_ofUnpacked hu), unpacked_ofUnpacked hu]

/-! ## Floats of the machine -/

/-- A float has the same parts in the machine. -/
theorem unpack_toModel (x : Double) : x.toFloat.toModel.unpack = x.unpacked := by
  show (ofUnpacked x.unpacked).unpacked = x.unpacked
  by_cases hx : x.isFinite = true
  · exact unpacked_ofUnpacked (fits_unpacked hx)
  · rw [isFinite_iff, not_lt] at hx
    have hlimit : x.exponentBits = 2047 := Nat.le_antisymm (Nat.le_of_lt_succ x.exponentBits_lt) hx
    rw [unpacked_eq x, if_pos hlimit]
    by_cases hempty : x.fractionBits = 0
    · rw [if_pos hempty]
      cases x.sign <;> rfl
    · rw [if_neg hempty]
      rfl

theorem toFloat_ofUnpacked (hu : Fits u) :
    (ofUnpacked u).toFloat = .ofModel (Float.Model.pack u) :=
  congrArg (fun u => Float.ofModel (Float.Model.pack u)) (unpacked_ofUnpacked hu)

theorem isNaN_pack (hu : Fits u) : (Float.ofModel (Float.Model.pack u)).isNaN = false := by
  show ((ofUnpacked u).unpacked).isNaN = false
  rw [unpacked_ofUnpacked hu]
  cases u with
  | infinity s => exact hu.elim
  | notANumber => exact hu.elim
  | zero s => rfl
  | finite s m e hpos => rfl

/-- An operation of the machine whose result fits the bits gives it as it is. -/
theorem lift₂_eq {f : Float → Float → Float}
    (hf : f x.toFloat y.toFloat = .ofModel (Float.Model.pack u)) (hu : Fits u) :
    lift₂ f x y = ofUnpacked u := by
  rw [lift₂, hf, isNaN_pack hu]
  rfl

theorem ofFloat_eq (hu : Fits u) : ofFloat (.ofModel (Float.Model.pack u)) = ofUnpacked u := by
  rw [ofFloat, isNaN_pack hu]
  rfl

/-! ## Signs -/

/-- The sign of a float in parts, if it is a number. -/
def HasSign (s : Sign) : UnpackedFloat → Prop
  | .notANumber => True
  | .infinity s' => s' = s
  | .zero s' => s' = s
  | .finite s' _ _ _ => s' = s

/-- The sign of a float, if it is a number. -/
def IsSigned (s : Sign) (x : Double) : Prop := x.isNaN = true ∨ x.sign = s

theorem IsSigned.sign_eq {s : Sign} (h : IsSigned s x) (hnumber : x.isNaN = false) : x.sign = s :=
  h.resolve_left (Bool.eq_false_iff.mp hnumber)

theorem sign_eq_negative_iff : x.sign = .negative ↔ x.isNegative = true := by
  unfold sign
  split
  next h => exact iff_of_true rfl h
  next h => exact iff_of_false nofun h

theorem isSigned_positive (h : x.isNegative = false) : IsSigned .positive x :=
  .inr (if_neg (Bool.eq_false_iff.mp h))

theorem sign_ofUnpacked {s : Sign} (hs : HasSign s u) (hnumber : u ≠ .notANumber) :
    (ofUnpacked u).sign = s := by
  have hpack : ∃ e m, UnpackedFloat.pack .binary64 u = packComponents .binary64 s e m := by
    cases u with
    | notANumber => exact absurd rfl hnumber
    | infinity s' =>
      obtain rfl : s' = s := hs
      exact ⟨_, _, rfl⟩
    | zero s' =>
      obtain rfl : s' = s := hs
      exact ⟨_, _, rfl⟩
    | finite s' m e hpos =>
      obtain rfl : s' = s := hs
      unfold UnpackedFloat.pack
      dsimp only
      split
      · exact ⟨_, _, rfl⟩
      · split <;> exact ⟨_, _, rfl⟩
  obtain ⟨e, m, hpack⟩ := hpack
  exact (fields_of_components ((toBits_ofUnpacked u).trans hpack)).1

/-- An operation of the machine keeps the sign of its result, also if that does not fit the bits. -/
theorem isSigned_lift₂ {s : Sign} {f : Float → Float → Float}
    (hf : f x.toFloat y.toFloat = .ofModel (Float.Model.pack u)) (hs : HasSign s u) :
    IsSigned s (lift₂ f x y) := by
  unfold lift₂
  rw [hf]
  dsimp only
  split
  next =>
    left
    split
    next hx => exact hx
    next =>
      split
      next hy => exact hy
      next => decide
  next hnumber =>
    refine .inr (sign_ofUnpacked hs ?_)
    rintro rfl
    exact hnumber rfl

theorem hasSign_unpacked {s : Sign} (hx : IsSigned s x) : HasSign s x.unpacked := by
  have hbits := x.toNat_magnitude
  rcases hx with hnan | rfl
  · have hlimit : x.exponentBits = 2047 ∧ x.fractionBits ≠ 0 := by
      have hlt := x.exponentBits_lt
      rw [isNaN, decide_eq_true_eq, UInt64.lt_iff_toNat_lt] at hnan
      change 2047 * 2 ^ 52 < x.magnitude.toNat at hnan
      rw [exponentBits_eq] at hlt ⊢
      rw [fractionBits_eq]
      omega
    rw [unpacked_eq, if_pos hlimit.1, if_neg hlimit.2]
    trivial
  · by_cases hlimit : x.exponentBits = 2047
    · rw [unpacked_eq, if_pos hlimit]
      split <;> trivial
    · have hlt := x.exponentBits_lt
      have hfinite : x.isFinite = true := isFinite_iff.mpr (by omega)
      rcases unpacked_cases hfinite with ⟨-, -, hu⟩ | ⟨-, _, hu⟩ | ⟨-, _, hu⟩
      all_goals
        rw [hu]
        rfl

end Hydroseries.Double
