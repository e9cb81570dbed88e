import Hydroseries.Proofs.Series.Alignment
import Hydroseries.Series.Shape
import Mathlib.Algebra.Order.Ring.Int

/-!
# Values moved along the index

A series with its values moved keeps its moments. Every position has the value that stands the lag
before it, or the filling where no position is there, as long as the positions that are looked up are
machine words; otherwise nothing is moved (`displace_cases`).
-/

namespace Hydroseries.TimeSeries

variable {α : Type} {s : TimeSeries α} {values : List (Option α)} {fill : Option α} {lag : ℤ} {i : ℕ}

/-! ## Other values -/

/-- A series keeps its moments when it gets as many other values. -/
theorem withValues_eq_ok (hs : Increasing s.index) (h : values.length = s.length) :
    s.withValues values = .ok ⟨s.index.zip values⟩ := by
  have hindex : (s.index.zip values).map Prod.fst = s.index := by
    rw [List.map_fst_zip]
    simp [index, h, length]
  rw [withValues, if_pos h]
  exact ofOrdered_eq_ok.mpr ⟨hindex.symm ▸ hs, rfl⟩

theorem index_zip (h : values.length = s.length) :
    (⟨s.index.zip values⟩ : TimeSeries α).index = s.index := by
  rw [index, List.map_fst_zip]
  simp [index, h, length]

theorem values_zip (h : values.length = s.length) :
    (⟨s.index.zip values⟩ : TimeSeries α).values = values := by
  rw [TimeSeries.values, List.map_snd_zip]
  simp [index, h, length]

/-! ## Moved values -/

/-- The positions that are looked up are signed words of 64 bits. -/
def LagFits (length : ℕ) (lag : ℤ) : Prop :=
  ∀ i : ℕ, i < length → -2 ^ 63 ≤ (i : ℤ) - lag ∧ (i : ℤ) - lag < 2 ^ 63

/-- The values of a series stand the lag later, and the filling where none comes from. -/
structure IsMoved (s new : TimeSeries α) (fill : Option α) (lag : ℤ) : Prop where
  index : new.index = s.index
  moved : ∀ i j : ℕ, i < s.length → j < s.length → (i : ℤ) - lag = j →
    new.values[i]? = s.values[j]?
  filled : ∀ i : ℕ, i < s.length → (∀ j : ℕ, j < s.length → (i : ℤ) - lag ≠ j) →
    new.values[i]? = some fill

/-- Only large lags to the front lead out of the words. -/
theorem lagFits_iff {length : ℕ} (hlag : lag < 2 ^ 63) :
    LagFits length lag ↔ length = 0 ∨ (length : ℤ) - 1 - lag < 2 ^ 63 := by
  constructor
  · intro h
    rcases Nat.eq_zero_or_pos length with hzero | hpos
    · exact .inl hzero
    · have hlast := (h (length - 1) (by omega)).2
      right
      omega
  · intro h i hi
    omega

/-- Values are moved if the last position that is looked up is a word. -/
theorem displaceValues_eq (values : List (Option α)) (fill : Option α) (hlag : lag < 2 ^ 63) :
    (LagFits values.length lag ∧ displaceValues values fill lag =
      .ok ((List.range values.length).map (displacedAt values.toArray fill lag))) ∨
    (¬ LagFits values.length lag ∧ displaceValues values fill lag = .error .outOfRange) := by
  have hbound : ((Nat.pow 2 63 : ℕ) : ℤ) = 2 ^ 63 := rfl
  rw [lagFits_iff hlag, displaceValues, List.size_toArray, hbound]
  by_cases h : 0 < values.length ∧ (values.length : ℤ) - 1 - lag ≥ 2 ^ 63
  · exact .inr ⟨by omega, if_pos h⟩
  · exact .inl ⟨by omega, if_neg h⟩

theorem displacedAt_of_eq (fill : Option α) {j : ℕ} (hj : j < values.length) (h : (i : ℤ) - lag = j) :
    some (displacedAt values.toArray fill lag i) = values[j]? := by
  simp [displacedAt, h, hj]

theorem displacedAt_of_ne (fill : Option α) (h : ∀ j : ℕ, j < values.length → (i : ℤ) - lag ≠ j) :
    displacedAt values.toArray fill lag i = fill := by
  unfold displacedAt
  dsimp only
  split
  next hpos =>
    have hbeyond : values.length ≤ ((i : ℤ) - lag).toNat := by
      by_contra hlt
      exact h _ (not_le.mp hlt) (Int.toNat_of_nonneg hpos).symm
    simp [hbeyond]
  next => rfl

/-- Moved values make up a series. -/
theorem isMoved_of_displacedAt (s : TimeSeries α) (fill : Option α) (lag : ℤ) :
    IsMoved s ⟨s.index.zip ((List.range s.length).map (displacedAt s.values.toArray fill lag))⟩
      fill lag := by
  have hlength : s.values.length = s.length := by simp [TimeSeries.values, length]
  have hmoved : ((List.range s.length).map (displacedAt s.values.toArray fill lag)).length =
      s.length := by simp
  refine ⟨index_zip hmoved, fun i j hi hj hsource => ?_, fun i hi hnone => ?_⟩
  · rw [values_zip hmoved, ← displacedAt_of_eq fill (hlength.symm ▸ hj) hsource]
    simp [hi]
  · have hfill := displacedAt_of_ne fill (hlength.symm ▸ hnone)
    rw [values_zip hmoved]
    simp [hi, hfill]

/-- A series is moved unless a position that is looked up is no word. -/
theorem displace_cases (hs : Increasing s.index) (fill : Option α) (hlag : lag < 2 ^ 63) :
    (LagFits s.length lag ∧ ∃ new, (displaceValues s.values fill lag >>= s.withValues) = .ok new ∧
      IsMoved s new fill lag) ∨
    (¬ LagFits s.length lag ∧
      (displaceValues s.values fill lag >>= s.withValues) = .error .outOfRange) := by
  have hlength : s.values.length = s.length := by simp [TimeSeries.values, length]
  obtain ⟨hfits, hmoved⟩ | ⟨hleaves, hstop⟩ := displaceValues_eq s.values fill hlag
  · refine .inl ⟨hlength ▸ hfits, _, ?_, isMoved_of_displacedAt s fill lag⟩
    rw [hmoved, hlength]
    exact withValues_eq_ok hs (by simp)
  · refine .inr ⟨hlength ▸ hleaves, ?_⟩
    rw [hstop]
    rfl

end Hydroseries.TimeSeries
