import Hydroseries.Proofs.Decimal.Digits
import Hydroseries.Proofs.Decimal.Rounding
import Hydroseries.Proofs.Record.Real
import Hydroseries.Record.Edit

/-!
# Numbers in fixed columns, read again

A number that fits its columns is read from them as it was rounded: in fixed notation
(`readReal?_pointed`) and in exponent form (`editExponent_eq`). The exponent form of every finite
number fits if there are six columns more than digits, or seven with a digit before the point.
-/

namespace Hydroseries.Record

open Decimal (Nearest pointed digitsOf)
open Text (isDigit digitsValue trimChars isBlank paddedDigits readDigits?)

/-- The number is the value rounded to significant digits: a multiple of some power of ten with so
many digits, the nearest to the value, and even between two. -/
def RoundsTo (digits : ℕ) (value shown : ℚ) : Prop :=
  value = 0 ∧ shown = 0 ∨ ∃ (n : ℕ) (places : ℤ), 10 ^ (digits - 1) ≤ n ∧ n < 10 ^ digits ∧
    Nearest n (|value| * 10 ^ places) ∧
    shown = (if value < 0 then -1 else 1) * n * 10 ^ (-places)

/-! ## Columns -/

theorem toList_fit {text : String} {width : Nat} (h : text.length ≤ width) :
    (fit text width).toList = List.replicate (width - text.length) ' ' ++ text.toList := by
  rw [fit, if_neg (Nat.not_lt.mpr h), Text.padLeft, String.toList_append, String.toList_ofList]

theorem toList_fit_of_lt {text : String} {width : Nat} (h : width < text.length) :
    (fit text width).toList = List.replicate width '*' := by
  rw [fit, if_pos h, String.toList_ofList]

@[simp] theorem length_fit (text : String) (width : Nat) : (fit text width).length = width := by
  rw [← String.length_toList]
  rcases Nat.lt_or_ge width text.length with h | h
  · rw [toList_fit_of_lt h, List.length_replicate]
  · rw [toList_fit h, List.length_append, List.length_replicate, String.length_toList]
    omega

theorem isBlank_of_mem_replicate {n : Nat} {c : Char} (h : c ∈ List.replicate n ' ') :
    isBlank c = true := by
  rw [List.eq_of_mem_replicate h]
  decide

/-- What fits its columns is what stands there. -/
theorem trimChars_fit {text : String} {width : Nat} (h : text.length ≤ width)
    (hchars : ∀ c ∈ text.toList, isBlank c = false) :
    trimChars (fit text width).toList = text.toList := by
  rw [toList_fit h, ← List.append_nil (_ ++ _)]
  exact Text.trimChars_padded (fun _ hc => isBlank_of_mem_replicate hc) nofun hchars

theorem not_mem_fit {text : String} {width : Nat} (h : text.length ≤ width)
    (hchars : ∀ c ∈ text.toList, isNumeral c = true) : '*' ∉ (fit text width).toList := by
  rw [toList_fit h, List.mem_append, not_or]
  refine ⟨fun hstar => ?_, fun hstar => ?_⟩
  · exact absurd (List.eq_of_mem_replicate hstar) (by decide)
  · exact absurd (hchars _ hstar) (by decide)

/-! ## Fixed notation -/

theorem toList_signed (negative : Bool) (text : String) :
    (Decimal.signed negative text).toList = signChars negative ++ text.toList := by
  cases negative with
  | true => rw [Decimal.signed, if_pos rfl, String.toList_append]; rfl
  | false => rfl

theorem length_signed (negative : Bool) (text : String) :
    (Decimal.signed negative text).length = text.length + if negative then 1 else 0 := by
  rw [← String.length_toList, toList_signed, List.length_append, String.length_toList, Nat.add_comm]
  cases negative <;> rfl

/-- Digits with a point and a sign are read as they stand. -/
theorem readParts?_pointed {field : List Char} (negative : Bool) (units places : Nat)
    (hfield : trimChars field = (Decimal.signed negative (pointed units places)).toList) :
    readParts? field = some (negative, units, -(places : ℤ)) := by
  obtain ⟨whole, fraction, hfraction, hwhole, hdigits, hchars⟩ :=
    Decimal.toList_pointed units places
  have hall : ∀ c ∈ whole ++ fraction, isDigit c = true := fun c hc =>
    Text.isDigit_of_mem_paddedDigits (hdigits ▸ hc)
  have hvalue : digitsValue (whole ++ fraction) = units := by
    rw [hdigits, Text.digitsValue_paddedDigits]
  rw [toList_signed, hchars] at hfield
  by_cases hplaces : places = 0
  · obtain rfl : fraction = [] := List.eq_nil_of_length_eq_zero (hfraction.trans hplaces)
    rw [if_pos hplaces] at hfield
    rw [List.append_nil] at hfield hvalue hall
    rw [readParts?_of_digits hall hwhole hfield, hvalue, hplaces]
    rfl
  · rw [if_neg hplaces] at hfield
    have hexponent : readExponent? [] = some 0 := rfl
    rw [readParts?_eq (fun c hc => hall c (List.mem_append_left _ hc))
      (fun c hc => hall c (List.mem_append_right _ hc)) (by simp [hwhole]) hexponent
      (by rw [hfield, List.append_nil]), hvalue, hfraction, zero_sub]

theorem isNumeral_of_mem_signChars {negative : Bool} {c : Char} (h : c ∈ signChars negative) :
    isNumeral c = true := by
  cases negative with
  | true => rw [List.mem_singleton.mp h]; decide
  | false => cases h

theorem isNumeral_of_mem_signed {negative : Bool} {units places : Nat} {c : Char}
    (h : c ∈ (Decimal.signed negative (pointed units places)).toList) : isNumeral c = true := by
  obtain ⟨whole, fraction, -, -, hdigits, hchars⟩ := Decimal.toList_pointed units places
  have hall : ∀ c ∈ whole ++ fraction, isNumeral c = true := fun c hc =>
    isNumeral_of_isDigit (Text.isDigit_of_mem_paddedDigits (hdigits ▸ hc))
  rw [toList_signed, hchars, List.mem_append, List.mem_append] at h
  rcases h with h | h | h
  · exact isNumeral_of_mem_signChars h
  · exact hall c (List.mem_append_left _ h)
  · split at h
    · cases h
    · rcases List.mem_cons.mp h with rfl | h
      · decide
      · exact hall c (List.mem_append_right _ h)

/-! ## Exponent form -/

theorem toList_padZero (width n : Nat) :
    (Text.padZero width (toString n)).toList =
      paddedDigits (width - (Nat.toDigits 10 n).length) n := by
  rw [Text.padZero, String.toList_append, String.toList_ofList, Nat.toString_eq_ofList_toDigits,
    String.toList_ofList, paddedDigits, String.length_ofList]

theorem readDigits?_paddedDigits (zeros n : Nat) :
    readDigits? (paddedDigits zeros n) = some n := by
  have hne : paddedDigits zeros n ≠ [] := by simp [paddedDigits, Nat.toDigits_ne_nil]
  have hall : (paddedDigits zeros n).all isDigit = true :=
    List.all_eq_true.mpr fun c hc => Text.isDigit_of_mem_paddedDigits hc
  rw [readDigits?, hall, Text.digitsValue_paddedDigits, List.isEmpty_eq_false_iff.mpr hne]
  rfl

/-- The sign of an exponent, which is always written. -/
def exponentSign (e : ℤ) : Char := if e < 0 then '-' else '+'

theorem readInteger?_exponentSign (e : ℤ) (zeros : Nat) :
    readInteger? (exponentSign e :: paddedDigits zeros e.natAbs) = some e := by
  by_cases he : e < 0
  · rw [exponentSign, if_pos he]
    show (readDigits? (paddedDigits zeros e.natAbs)).map (fun n : ℕ => -(n : ℤ)) = some e
    rw [readDigits?_paddedDigits, Option.map_some, Option.some.injEq]
    omega
  · rw [exponentSign, if_neg he]
    show (readDigits? (paddedDigits zeros e.natAbs)).map (fun n : ℕ => (n : ℤ)) = some e
    rw [readDigits?_paddedDigits, Option.map_some, Option.some.injEq]
    omega

theorem toList_exponentText (e : ℤ) : (exponentText e).toList =
    if e.natAbs ≤ 99 then
      'E' :: exponentSign e :: paddedDigits (2 - (Nat.toDigits 10 e.natAbs).length) e.natAbs
    else exponentSign e :: paddedDigits (3 - (Nat.toDigits 10 e.natAbs).length) e.natAbs := by
  have hsign : (if e < 0 then "-" else "+").toList = [exponentSign e] := by
    rw [exponentSign]
    split <;> rfl
  rw [exponentText]
  split
  next => rw [String.toList_append, String.toList_append, hsign, toList_padZero]; rfl
  next => rw [String.toList_append, hsign, toList_padZero]; rfl

/-- An exponent of up to three digits takes four columns. -/
theorem length_exponentText {e : ℤ} (he : e.natAbs ≤ 999) : (exponentText e).length = 4 := by
  rw [← String.length_toList, toList_exponentText]
  split
  next hsmall =>
    have hdigits : (Nat.toDigits 10 e.natAbs).length ≤ 2 :=
      (Nat.length_toDigits_le_iff (by decide) (by decide)).mpr (by omega)
    simp only [List.length_cons, paddedDigits, List.length_append, List.length_replicate]
    omega
  next hlarge =>
    have hdigits : (Nat.toDigits 10 e.natAbs).length ≤ 3 :=
      (Nat.length_toDigits_le_iff (by decide) (by decide)).mpr (by omega)
    simp only [List.length_cons, paddedDigits, List.length_append, List.length_replicate]
    omega

theorem readExponent?_exponentText (e : ℤ) : readExponent? (exponentText e).toList = some e := by
  rw [toList_exponentText]
  split
  next => rw [readExponent?, if_pos rfl, readInteger?_exponentSign]
  next =>
    have hletter : exponentSign e ≠ 'E' := by
      rw [exponentSign]
      split <;> decide
    have hsign : exponentSign e = '+' ∨ exponentSign e = '-' := by
      rw [exponentSign]
      split <;> simp
    rw [readExponent?, if_neg hletter, if_pos hsign, readInteger?_exponentSign]

theorem isNumeral_of_mem_exponentText {e : ℤ} {c : Char} (h : c ∈ (exponentText e).toList) :
    isNumeral c = true := by
  have hdigit : ∀ {zeros : Nat}, c ∈ paddedDigits zeros e.natAbs → isNumeral c = true := fun hc =>
    isNumeral_of_isDigit (Text.isDigit_of_mem_paddedDigits hc)
  have hsign : isNumeral (exponentSign e) = true := by
    rw [exponentSign]
    split <;> decide
  rw [toList_exponentText] at h
  split at h
  next =>
    rcases List.mem_cons.mp h with rfl | h
    · decide
    rcases List.mem_cons.mp h with rfl | h
    · exact hsign
    · exact hdigit h
  next =>
    rcases List.mem_cons.mp h with rfl | h
    · exact hsign
    · exact hdigit h

/-- The text of an exponent form. -/
def exponentForm (negative : Bool) (whole fraction : List Char) (e : ℤ) : String :=
  (if negative then "-" else "") ++ String.ofList whole ++ "." ++ String.ofList fraction ++
    exponentText e

theorem toList_exponentForm (negative : Bool) (whole fraction : List Char) (e : ℤ) :
    (exponentForm negative whole fraction e).toList =
      signChars negative ++ (whole ++ '.' :: (fraction ++ (exponentText e).toList)) := by
  rw [exponentForm]
  cases negative <;> simp [signChars]

theorem length_exponentForm (negative : Bool) (whole fraction : List Char) {e : ℤ}
    (he : e.natAbs ≤ 999) : (exponentForm negative whole fraction e).length =
      (if negative then 1 else 0) + whole.length + fraction.length + 5 := by
  rw [← String.length_toList, toList_exponentForm]
  simp only [List.length_append, List.length_cons, String.length_toList, length_exponentText he]
  have hsign : (signChars negative).length = if negative then 1 else 0 := by
    cases negative <;> rfl
  omega

theorem isNumeral_of_mem_exponentForm {negative : Bool} {whole fraction : List Char} {e : ℤ}
    (hall : ∀ c ∈ whole ++ fraction, isDigit c = true) {c : Char}
    (h : c ∈ (exponentForm negative whole fraction e).toList) : isNumeral c = true := by
  rw [toList_exponentForm, List.mem_append, List.mem_append, List.mem_cons, List.mem_append] at h
  rcases h with h | h | rfl | h | h
  · exact isNumeral_of_mem_signChars h
  · exact isNumeral_of_isDigit (hall c (List.mem_append_left _ h))
  · decide
  · exact isNumeral_of_isDigit (hall c (List.mem_append_right _ h))
  · exact isNumeral_of_mem_exponentText h

/-- An exponent form that fits its columns is read as it stands. -/
theorem readParts?_exponentForm {negative : Bool} {whole fraction : List Char} {e : ℤ} {width : Nat}
    (hall : ∀ c ∈ whole ++ fraction, isDigit c = true) (hsome : whole ++ fraction ≠ [])
    (hfits : (exponentForm negative whole fraction e).length ≤ width) :
    readParts? (fit (exponentForm negative whole fraction e) width).toList =
      some (negative, digitsValue (whole ++ fraction), e - fraction.length) := by
  refine readParts?_eq (fun c hc => hall c (List.mem_append_left _ hc))
    (fun c hc => hall c (List.mem_append_right _ hc)) hsome (readExponent?_exponentText e) ?_
  rw [← toList_exponentForm]
  exact trimChars_fit hfits fun c hc =>
    isBlank_of_isNumeral (isNumeral_of_mem_exponentForm hall hc)

/-- The number of significant digits of an exponent form. -/
def exponentFigures (decimals : Nat) (scale : ℤ) : Nat :=
  if 1 ≤ scale then decimals + 1 else decimals

/-- The exponent form with a digit before the point, or with a zero there that is given up first. -/
theorem editExponent_eq {v : Double} (hv : v.isFinite = true) (hne : v.toRat ≠ 0)
    (width decimals : Nat) (scale : ℤ) :
    let digits := (significantDigits v (exponentFigures decimals scale)).1
    let e := (significantDigits v (exponentFigures decimals scale)).2
    let negative := decide (v.toRat < 0)
    editExponent v width decimals scale =
      if 1 ≤ scale then fit (exponentForm negative (digits.take 1) (digits.drop 1) e) width
      else if width < (exponentForm negative ['0'] digits (e + 1)).length then
        fit (exponentForm negative [] digits (e + 1)) width
      else fit (exponentForm negative ['0'] digits (e + 1)) width := by
  have hzero := Double.beq_zero_of_ne hv hne
  have hsign : (if v < 0.0 then "-" else "") = if decide (v.toRat < 0) = true then "-" else "" := by
    simp only [Double.lt_zero_iff hv, decide_eq_true_eq]
  have hdropped : ∀ negative fraction e, exponentForm negative [] fraction e =
      (if negative then "-" else "") ++ "." ++ String.ofList fraction ++ exponentText e := by
    intro negative fraction e
    rw [exponentForm, String.ofList_nil, String.append_empty]
  have hkept : ∀ negative fraction e, exponentForm negative ['0'] fraction e =
      (if negative then "-" else "") ++ "0" ++ "." ++ String.ofList fraction ++ exponentText e := by
    intro negative fraction e
    rw [exponentForm, show String.ofList ['0'] = "0" from rfl]
  dsimp only
  unfold editExponent exponentFigures
  by_cases hscale : 1 ≤ scale
  · simp only [hv, hzero, hscale, hsign, Bool.not_true, Bool.false_eq_true, if_false, decide_true,
      Bool.and_false, if_true]
    rfl
  · simp only [hv, hzero, hscale, hsign, Bool.not_true, Bool.false_eq_true, if_false,
      decide_false, Bool.not_false, Bool.and_true, gt_iff_lt, decide_eq_true_eq, hdropped,
      hkept]

theorem significantDigits_eq (v : Double) (figures : Nat) :
    significantDigits v (figures + 1) =
      (Nat.toDigits 10 ((Decimal.Exact.ofDouble v).significant figures).1,
        ((Decimal.Exact.ofDouble v).significant figures).2) := by
  rw [significantDigits, Nat.add_sub_cancel, ← Decimal.toList_digitsOf]

/-- The exponent form of a number other than zero fits its columns, with the digits of the number
rounded to them. Wherever the point stands among the digits, the exponent makes up for it. -/
theorem editExponent_eq_fit {v : Double} (hv : v.isFinite = true) (hne : v.toRat ≠ 0)
    {width decimals : Nat} {scale : ℤ} (hpos : 0 < decimals)
    (hwidth : exponentFigures decimals scale + 6 ≤ width) :
    ∃ (whole fraction : List Char) (n : ℕ) (e : ℤ),
      (∀ c ∈ whole ++ fraction, isDigit c = true) ∧ whole ++ fraction ≠ [] ∧
      digitsValue (whole ++ fraction) = n ∧
      10 ^ (exponentFigures decimals scale - 1) ≤ n ∧ n < 10 ^ exponentFigures decimals scale ∧
      Nearest n (|v.toRat| * 10 ^ (fraction.length - e)) ∧
      (exponentForm (decide (v.toRat < 0)) whole fraction e).length ≤ width ∧
      editExponent v width decimals scale =
        fit (exponentForm (decide (v.toRat < 0)) whole fraction e) width := by
  obtain ⟨figures, hfigures⟩ : ∃ k, exponentFigures decimals scale = k + 1 :=
    Nat.exists_eq_succ_of_ne_zero (by unfold exponentFigures; split <;> omega)
  obtain ⟨hlow, hhigh, hnear⟩ := Decimal.Exact.significant_ofDouble hne figures
  have hexponent := Decimal.Exact.natAbs_exponent_le v figures
  have hform := editExponent_eq hv hne width decimals scale
  rw [hfigures, significantDigits_eq] at hform
  rw [hfigures] at hwidth ⊢
  generalize (Decimal.Exact.ofDouble v).significant figures = found at *
  obtain ⟨n, e⟩ := found
  dsimp only at hform hlow hhigh hnear hexponent
  have hsign : (if decide (v.toRat < 0) = true then 1 else 0) ≤ 1 := by split <;> decide
  have hlength := Text.length_toDigits_eq hlow hhigh
  have hall : ∀ c ∈ Nat.toDigits 10 n, isDigit c = true := fun c => Text.isDigit_of_mem_toDigits
  have hvalue : digitsValue (Nat.toDigits 10 n) = n := Text.digitsValue_paddedDigits 0 n
  rw [hform]
  split
  next hscale =>
    have hparts := List.take_append_drop 1 (Nat.toDigits 10 n)
    refine ⟨_, _, n, e, by rwa [hparts], by rw [hparts]; exact Nat.toDigits_ne_nil, by rwa [hparts],
      hlow, hhigh, ?_, ?_, rfl⟩
    · rwa [List.length_drop, hlength, Nat.add_sub_cancel]
    · rw [length_exponentForm _ _ _ (by omega), List.length_take, List.length_drop, hlength]
      omega
  next hscale =>
    have hplaces : ((Nat.toDigits 10 n).length : ℤ) - (e + 1) = figures - e := by
      rw [hlength]
      push_cast
      ring
    split
    next hdropped =>
      refine ⟨[], Nat.toDigits 10 n, n, e + 1, hall, Nat.toDigits_ne_nil, hvalue, hlow, hhigh,
        by rwa [hplaces], ?_, rfl⟩
      rw [length_exponentForm _ _ _ (by omega), List.length_nil, hlength]
      omega
    next hkept =>
      have hzero : ∀ c ∈ paddedDigits 1 n, isDigit c = true := fun c =>
        Text.isDigit_of_mem_paddedDigits
      exact ⟨['0'], Nat.toDigits 10 n, n, e + 1, hzero, List.cons_ne_nil _ _,
        Text.digitsValue_paddedDigits 1 n, hlow, hhigh, by rwa [hplaces], Nat.not_lt.mp hkept, rfl⟩

/-- The exponent form of a number other than zero is read as the number rounded to its digits. -/
theorem editExponent_spec {v : Double} (hv : v.isFinite = true) (hne : v.toRat ≠ 0)
    {width decimals : Nat} {scale : ℤ} (hpos : 0 < decimals)
    (hwidth : exponentFigures decimals scale + 6 ≤ width) :
    ∃ r, readReal? (editExponent v width decimals scale).toList = some r ∧
      RoundsTo (exponentFigures decimals scale) v.toRat r := by
  obtain ⟨whole, fraction, n, e, hall, hsome, rfl, hlow, hhigh, hnear, hfits, hform⟩ :=
    editExponent_eq_fit hv hne hpos hwidth
  rw [hform, readReal?_of_parts (readParts?_exponentForm hall hsome hfits)]
  refine ⟨_, rfl, .inr ⟨_, fraction.length - e, hlow, hhigh, hnear, ?_⟩⟩
  simp only [decide_eq_true_eq, neg_sub]

end Hydroseries.Record
