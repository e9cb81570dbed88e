import Hydroseries.Decimal.Exact
import Hydroseries.Text.Numeral
import Mathlib.Data.Nat.Digits.Lemmas

/-!
# Digits laid out

The digits of a natural, with zeros in front of them or a point among them, still stand for it.
-/

namespace Hydroseries

namespace Text

theorem isDigit_iff {c : Char} : isDigit c = true ↔ 48 ≤ c.toNat ∧ c.toNat ≤ 57 := by
  rw [isDigit, Bool.and_eq_true, decide_eq_true_eq, decide_eq_true_eq]
  exact Iff.rfl

theorem isBlank_of_isDigit {c : Char} (h : isDigit c = true) : isBlank c = false := by
  obtain ⟨hlow, hhigh⟩ := isDigit_iff.mp h
  simp [isBlank, inRanges, blankRanges]
  omega

theorem toLower_of_isDigit {c : Char} (h : isDigit c = true) : c.toLower = c := by
  obtain ⟨-, hhigh⟩ := isDigit_iff.mp h
  refine dif_neg ?_
  rintro ⟨hcapital, -⟩
  have hlow := UInt32.le_iff_toNat_le.mp hcapital
  simp at hlow
  omega

/-- What begins with a digit or a point has no sign. -/
theorem splitSign_unsigned {c : Char} {cs : List Char} (hc : isDigit c = true ∨ c = '.') :
    splitSign (c :: cs) = (false, c :: cs) := by
  have hminus : c ≠ '-' := by
    rintro rfl
    revert hc
    decide
  have hplus : c ≠ '+' := by
    rintro rfl
    revert hc
    decide
  rw [splitSign]
  · exact fun _ h => hminus (List.cons.inj h).1
  · exact fun _ h => hplus (List.cons.inj h).1

theorem isDigit_of_mem_toDigits {n : Nat} {c : Char} (h : c ∈ Nat.toDigits 10 n) :
    isDigit c = true := by
  have hdigit := Nat.isDigit_of_mem_toDigits (by decide) (by decide) h
  rw [Char.isDigit, Bool.and_eq_true, decide_eq_true_eq, decide_eq_true_eq] at hdigit
  exact isDigit_iff.mpr hdigit

/-- Digits with zeros in front of them. -/
def paddedDigits (zeros n : Nat) : List Char := List.replicate zeros '0' ++ Nat.toDigits 10 n

theorem isDigit_of_mem_paddedDigits {zeros n : Nat} {c : Char} (h : c ∈ paddedDigits zeros n) :
    isDigit c = true := by
  rcases List.mem_append.mp h with h | h
  · rw [List.eq_of_mem_replicate h]
    decide
  · exact isDigit_of_mem_toDigits h

@[simp] theorem digitsValue_paddedDigits (zeros n : Nat) :
    digitsValue (paddedDigits zeros n) = n := by
  show Nat.ofDigitChars 10 (List.replicate zeros '0' ++ Nat.toDigits 10 n) 0 = n
  rw [Nat.ofDigitChars_append, Nat.ofDigitChars_replicate_zero, Nat.mul_zero,
    Nat.ofDigitChars_ten_toDigits]

theorem length_toDigits_eq {k n : Nat} (hlow : 10 ^ k ≤ n) (hhigh : n < 10 ^ (k + 1)) :
    (Nat.toDigits 10 n).length = k + 1 := by
  have hle := (Nat.length_toDigits_le_iff (k := k + 1) (by decide) (Nat.succ_pos k)).mpr hhigh
  have hgt : ¬ (Nat.toDigits 10 n).length ≤ k := by
    cases k with
    | zero => exact Nat.not_le.mpr Nat.length_toDigits_pos
    | succ k =>
      rw [Nat.length_toDigits_le_iff (by decide) (Nat.succ_pos k)]
      exact Nat.not_lt.mpr hlow
  omega

theorem readWord64?_of_digits {s : String} (hne : s.toList ≠ [])
    (hdigits : ∀ c ∈ s.toList, isDigit c = true) :
    readWord64? s = (some (digitsValue s.toList)).filter fun n => decide (n < 2 ^ 64) := by
  have hread : readDigits? s.toList = some (digitsValue s.toList) := by
    rw [readDigits?, List.all_eq_true.mpr hdigits, List.isEmpty_eq_false_iff.mpr hne]
    rfl
  unfold readWord64? readNat?
  split
  next cs hplus =>
    have hsign := hdigits '+' (by rw [hplus]; exact List.mem_cons_self)
    exact absurd hsign (by decide)
  next =>
    dsimp only
    rw [hread]
    rfl

theorem toList_toString (n : ℕ) : (toString n).toList = Nat.toDigits 10 n := by
  rw [Nat.toString_eq_ofList_toDigits, String.toList_ofList]

theorem digitsValue_toString (n : ℕ) : digitsValue (toString n).toList = n := by
  rw [toList_toString]
  exact digitsValue_paddedDigits 0 n

/-- A word of the machine is read as it is written. -/
theorem readWord64?_toString {n : ℕ} (hn : n < 2 ^ 64) : readWord64? (toString n) = some n := by
  have hne : (toString n).toList ≠ [] := by
    rw [toList_toString]
    exact Nat.toDigits_ne_nil
  have hdigits : ∀ c ∈ (toString n).toList, isDigit c = true := by
    rw [toList_toString]
    exact fun c => isDigit_of_mem_toDigits
  rw [readWord64?_of_digits hne hdigits, digitsValue_toString]
  exact Option.filter_some.trans (if_pos (decide_eq_true hn))

end Text

namespace Decimal

open Text (paddedDigits)

theorem toList_digitsOf (n : Nat) : (digitsOf n).toList = Nat.toDigits 10 n := by
  rw [digitsOf, Nat.toString_eq_ofList_toDigits, String.toList_ofList]

theorem length_digitsOf (n : Nat) : (digitsOf n).length = (Nat.toDigits 10 n).length := by
  rw [← String.length_toList, toList_digitsOf]

/-- Digits with a point before the last `places` of them, and zeros in front as needed. -/
theorem toList_pointed (units places : Nat) :
    ∃ whole fraction, fraction.length = places ∧ whole ≠ [] ∧
      whole ++ fraction = paddedDigits (places + 1 - (Nat.toDigits 10 units).length) units ∧
      (pointed units places).toList = whole ++ if places = 0 then [] else '.' :: fraction := by
  generalize hcs : paddedDigits (places + 1 - (Nat.toDigits 10 units).length) units = cs
  have hpadded : String.ofList (List.replicate (places + 1 - (digitsOf units).length) '0') ++
      digitsOf units = String.ofList cs := by
    apply String.toList_inj.mp
    rw [String.toList_append, String.toList_ofList, String.toList_ofList, length_digitsOf,
      toList_digitsOf, ← hcs, paddedDigits]
  have hlength : places + 1 ≤ cs.length := by
    rw [← hcs, paddedDigits, List.length_append, List.length_replicate]
    omega
  refine ⟨cs.take (cs.length - places), cs.drop (cs.length - places), ?_, ?_,
    List.take_append_drop .., ?_⟩
  · rw [List.length_drop]
    omega
  · refine List.ne_nil_of_length_pos ?_
    rw [List.length_take]
    omega
  · simp only [pointed, hpadded, beq_iff_eq]
    split
    next hzero => simp [hzero]
    next => simp

theorem length_pointed (units places : Nat) : (pointed units places).length =
    max (Nat.toDigits 10 units).length (places + 1) + if places = 0 then 0 else 1 := by
  obtain ⟨whole, fraction, hfraction, -, hdigits, hchars⟩ := toList_pointed units places
  have hlength := congrArg List.length hdigits
  rw [List.length_append, paddedDigits, List.length_append, List.length_replicate] at hlength
  rw [← String.length_toList, hchars, List.length_append]
  split
  next hzero =>
    rw [List.length_nil]
    omega
  next =>
    rw [List.length_cons]
    omega

end Decimal

end Hydroseries
