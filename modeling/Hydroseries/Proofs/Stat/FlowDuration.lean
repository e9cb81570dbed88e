import Hydroseries.Proofs.Arith.Rational
import Hydroseries.Proofs.Outcome
import Hydroseries.Stat.FlowDuration
import Mathlib.Algebra.Order.Field.Basic
import Mathlib.Data.List.GetD
import Mathlib.Order.Bounds.Basic
import Mathlib.Order.Interval.Set.Defs
import Mathlib.Tactic.Linarith

/-!
# Flow duration curves fall

A quantile lies on the broken line through the ranked values (`onLine`). The line rises with the
position if the ranked values do (`onLine_mono`), so that over the rationals a flow duration curve falls
from the largest value to the smallest one (`curve_falls`).
-/

namespace Hydroseries

namespace Stat

/-! ## Between neighbours -/

/-- The value at a position, on the line between those of its two neighbours. -/
def onLine (f : ℕ → ℚ) (x : ℚ) : ℚ := f ⌊x⌋₊ + (f ⌈x⌉₊ - f ⌊x⌋₊) * (x - ⌊x⌋₊)

section OnLine

variable {f : ℕ → ℚ} {x y : ℚ}

theorem ceil_of_floor_lt (h : (⌊x⌋₊ : ℚ) < x) : ⌈x⌉₊ = ⌊x⌋₊ + 1 :=
  le_antisymm (Nat.ceil_le_floor_add_one x) (Nat.lt_ceil.mpr h)

@[simp] theorem onLine_natCast (f : ℕ → ℚ) (k : ℕ) : onLine f k = f k := by
  rw [onLine, Nat.floor_natCast, Nat.ceil_natCast, sub_self, zero_mul, add_zero]

theorem le_onLine (hf : Monotone f) (hx : 0 ≤ x) : f ⌊x⌋₊ ≤ onLine f x := by
  have hrise : 0 ≤ f ⌈x⌉₊ - f ⌊x⌋₊ := sub_nonneg.mpr (hf (Nat.floor_le_ceil x))
  have hshare : 0 ≤ x - ⌊x⌋₊ := sub_nonneg.mpr (Nat.floor_le hx)
  exact le_add_of_nonneg_right (mul_nonneg hrise hshare)

theorem onLine_le (hf : Monotone f) (x : ℚ) : onLine f x ≤ f ⌈x⌉₊ := by
  have hrise : 0 ≤ f ⌈x⌉₊ - f ⌊x⌋₊ := sub_nonneg.mpr (hf (Nat.floor_le_ceil x))
  have hshare : x - ⌊x⌋₊ ≤ 1 := sub_le_iff_le_add'.mpr (Nat.lt_floor_add_one x).le
  have hle := mul_le_of_le_one_right hrise hshare
  rw [onLine]
  linarith

/-- Positions with the same lower neighbour lie on one line, unless the first of them is that
neighbour; else there is a neighbour between them. -/
theorem onLine_mono (hf : Monotone f) (hx : 0 ≤ x) (hxy : x ≤ y) : onLine f x ≤ onLine f y := by
  have hy := hx.trans hxy
  have hfloor := Nat.floor_le hx
  rcases (Nat.floor_mono hxy).lt_or_eq with hlt | heq
  · have hceil : ⌈x⌉₊ ≤ ⌊y⌋₊ := (Nat.ceil_le_floor_add_one x).trans hlt
    calc onLine f x ≤ f ⌈x⌉₊ := onLine_le hf x
      _ ≤ f ⌊y⌋₊ := hf hceil
      _ ≤ onLine f y := le_onLine hf hy
  · rcases hfloor.lt_or_eq with hbeyond | hon
    · have hceil : ⌈x⌉₊ = ⌈y⌉₊ := by
        rw [ceil_of_floor_lt hbeyond, ceil_of_floor_lt (heq ▸ hbeyond.trans_le hxy), heq]
      have hrise : 0 ≤ f ⌈y⌉₊ - f ⌊y⌋₊ := sub_nonneg.mpr (hf (Nat.floor_le_ceil y))
      rw [onLine, onLine, hceil, heq]
      gcongr
    · rw [← hon, onLine_natCast, heq]
      exact le_onLine hf hy

end OnLine

/-! ## Ranked values -/

variable {values : List ℚ} {k : ℕ} {v q : ℚ}

/-- The value with a rank, from the smallest on; the largest for higher ranks. -/
def ranked (values : List ℚ) (k : ℕ) : ℚ := (Arith.sort values).getD (min k (values.length - 1)) 0

theorem length_sort (values : List ℚ) : (Arith.sort values).length = values.length :=
  List.length_mergeSort values

theorem getElem?_sort (hk : k < values.length) :
    (Arith.sort values)[k]? = some (ranked values k) := by
  have hmin : min k (values.length - 1) = k := by omega
  rw [ranked, hmin, List.getD_eq_getElem _ _ ((length_sort values).symm ▸ hk), List.getElem?_eq_getElem]

theorem ranked_mono (values : List ℚ) : Monotone (ranked values) := by
  intro j k hjk
  have hsorted := List.pairwise_iff_getElem.mp (Arith.pairwise_sort values)
  have hle : min j (values.length - 1) ≤ min k (values.length - 1) := min_le_min_right _ hjk
  unfold ranked
  rcases hle.eq_or_lt with heq | hlt
  · rw [heq]
  · have hlast : min k (values.length - 1) < (Arith.sort values).length := by
      rw [length_sort]
      omega
    rw [List.getD_eq_getElem _ _ (hlt.trans hlast), List.getD_eq_getElem _ _ hlast]
    exact hsorted _ _ _ _ hlt

theorem mem_iff_ranked : v ∈ values ↔ ∃ k < values.length, ranked values k = v := by
  have hperm : (Arith.sort values).Perm values := List.mergeSort_perm _ _
  rw [← hperm.mem_iff, List.mem_iff_getElem?]
  constructor
  · rintro ⟨k, hk⟩
    have hlt := (List.getElem?_eq_some_iff.mp hk).1
    rw [length_sort] at hlt
    exact ⟨k, hlt, Option.some.inj ((getElem?_sort hlt).symm.trans hk)⟩
  · rintro ⟨k, hk, rfl⟩
    exact ⟨k, getElem?_sort hk⟩

theorem isLeast_ranked (hne : values ≠ []) : IsLeast {v | v ∈ values} (ranked values 0) := by
  refine ⟨mem_iff_ranked.mpr ⟨0, List.length_pos_iff.mpr hne, rfl⟩, fun v hv => ?_⟩
  obtain ⟨k, -, rfl⟩ := mem_iff_ranked.mp hv
  exact ranked_mono values (Nat.zero_le k)

theorem isGreatest_ranked (hne : values ≠ []) :
    IsGreatest {v | v ∈ values} (ranked values (values.length - 1)) := by
  have hpos := List.length_pos_iff.mpr hne
  refine ⟨mem_iff_ranked.mpr ⟨values.length - 1, by omega, rfl⟩, fun v hv => ?_⟩
  obtain ⟨k, hk, rfl⟩ := mem_iff_ranked.mp hv
  exact ranked_mono values (by omega)

/-- A quantile is the value at its share of the way through the ranks. -/
theorem quantile?_eq (hne : values ≠ []) (h0 : 0 ≤ q) (h1 : q ≤ 1) :
    quantile? values q = some (onLine (ranked values) (q * (values.length - 1 : ℕ))) := by
  have hpos := List.length_pos_iff.mpr hne
  have hsize : (Arith.sort values).toArray.size = values.length := length_sort values
  have hnonneg : (0 : ℚ) ≤ (values.length - 1 : ℕ) := Nat.cast_nonneg _
  have hposition : Arith.clamp Arith.zero Arith.one q * Arith.ofNat (values.length - 1) =
      q * (values.length - 1 : ℕ) := by
    rw [Arith.clamp_rational (Arith.zero_rational.trans_le h0) (h1.trans_eq Arith.one_rational.symm),
      Arith.ofNat_rational]
  -- Neither neighbour is past the last rank.
  have hceil : ⌈q * (values.length - 1 : ℕ)⌉₊ < values.length := by
    have hle : ⌈q * (values.length - 1 : ℕ)⌉₊ ≤ values.length - 1 :=
      Nat.ceil_le.mpr (mul_le_of_le_one_left hnonneg h1)
    omega
  have hfloor := (Nat.floor_le_ceil (q * (values.length - 1 : ℕ))).trans_lt hceil
  unfold quantile?
  dsimp only
  rw [hsize, hposition, Arith.floorNat_rational, Arith.ceilNat_rational, List.getElem?_toArray,
    List.getElem?_toArray, getElem?_sort hfloor, getElem?_sort hceil]
  dsimp only
  rw [Arith.ofNat_rational]
  rfl

end Stat

namespace FlowDuration

open Stat (onLine ranked onLine_natCast onLine_mono ranked_mono isLeast_ranked isGreatest_ranked)

variable {values : List ℚ} {p : ℚ}

/-! ## The curve -/

/-- The flow that is exceeded a percentage of the time, on the line through the ranked values. -/
def exactFlow (values : List ℚ) (p : ℚ) : ℚ :=
  onLine (ranked values) ((1 - p / 100) * (values.length - 1 : ℕ))

theorem flowAt?_eq (hne : values ≠ []) (h0 : 0 ≤ p) (h1 : p ≤ 100) :
    flowAt? values p = some (exactFlow values p) := by
  have hhundred : Arith.one - p / Arith.ofNat 100 = 1 - p / 100 := by
    rw [Arith.one_rational, Arith.ofNat_rational]
    rfl
  have hshare : 0 ≤ p / 100 := div_nonneg h0 (by norm_num)
  have hwhole : p / 100 ≤ 1 := (div_le_one (by norm_num)).mpr h1
  rw [flowAt?, hhundred, Stat.quantile?_eq hne (by linarith) (by linarith), exactFlow]

theorem exactFlow_antitone (values : List ℚ) : AntitoneOn (exactFlow values) (Set.Icc 0 100) := by
  intro p hp p' hp' hle
  have hwhole : p' / 100 ≤ 1 := (div_le_one (by norm_num)).mpr hp'.2
  have hnonneg : (0 : ℚ) ≤ (values.length - 1 : ℕ) := Nat.cast_nonneg _
  refine onLine_mono (ranked_mono values) (mul_nonneg (by linarith) hnonneg) ?_
  gcongr

theorem exactFlow_zero (values : List ℚ) : exactFlow values 0 = ranked values (values.length - 1) := by
  rw [exactFlow, zero_div, sub_zero, one_mul, onLine_natCast]

theorem exactFlow_hundred (values : List ℚ) : exactFlow values 100 = ranked values 0 := by
  rw [exactFlow, div_self (by norm_num), sub_self, zero_mul]
  exact onLine_natCast _ 0

theorem curveWith_eq (write : ℚ → String) (hne : values ≠ []) {percents : List ℚ}
    (hpercents : ∀ p ∈ percents, 0 ≤ p ∧ p ≤ 100) :
    curveWith write values percents = .ok (percents.map fun p => (p, exactFlow values p)) := by
  have hempty : values.isEmpty = false := by simpa using hne
  rw [curveWith, hempty]
  refine mapM_eq_ok.mpr (List.forall₂_map_right_iff.mpr (List.forall₂_same.mpr fun p hp => ?_))
  obtain ⟨h0, h1⟩ := hpercents p hp
  rw [if_pos ⟨h0, h1.trans_eq (Arith.ofNat_rational 100).symm⟩, flowAt?_eq hne h0 h1]
  rfl

/-- Whatever the values, there is a flow for every percentage. From zero to a hundred percent the flows
fall, and they begin with the largest value and end with the smallest. -/
theorem curve_falls (write : ℚ → String) (hne : values ≠ []) : ∃ flow : ℚ → ℚ,
    (∀ percents : List ℚ, (∀ p ∈ percents, 0 ≤ p ∧ p ≤ 100) →
      curveWith write values percents = .ok (percents.map fun p => (p, flow p))) ∧
    (∀ p p', 0 ≤ p → p ≤ p' → p' ≤ 100 → flow p' ≤ flow p) ∧
    (∀ p, 0 ≤ p → p ≤ 100 → flow 100 ≤ flow p ∧ flow p ≤ flow 0) ∧
    IsGreatest {v | v ∈ values} (flow 0) ∧ IsLeast {v | v ∈ values} (flow 100) := by
  have hfalls : ∀ p p', 0 ≤ p → p ≤ p' → p' ≤ 100 → exactFlow values p' ≤ exactFlow values p :=
    fun p p' h0 hle h1 => exactFlow_antitone values ⟨h0, hle.trans h1⟩ ⟨h0.trans hle, h1⟩ hle
  refine ⟨exactFlow values, fun percents => curveWith_eq write hne, hfalls, fun p h0 h1 => ?_, ?_, ?_⟩
  · exact ⟨hfalls p 100 h0 h1 le_rfl, hfalls 0 p le_rfl h0 h1⟩
  · exact exactFlow_zero values ▸ isGreatest_ranked hne
  · exact exactFlow_hundred values ▸ isLeast_ranked hne

/-- Between the second and the third of four flows, two of which are equal. -/
theorem curve_falls_of_four : [4, 1, 4, 2] ≠ ([] : List ℚ) ∧ ∃ flow : ℚ → ℚ,
    curveWith (fun _ => "") [4, 1, 4, 2] [0, 50, 100] = .ok [(0, flow 0), (50, flow 50), (100, flow 100)] ∧
    flow 0 = 4 ∧ flow 50 = 3 ∧ flow 100 = 1 ∧ ∀ p, 0 ≤ p → p ≤ 50 → flow 50 ≤ flow p := by
  have hne : [4, 1, 4, 2] ≠ ([] : List ℚ) := List.cons_ne_nil _ _
  obtain ⟨flow, hcurve, hfalls, -⟩ := curve_falls (fun _ => "") hne
  have hpercents : ∀ p ∈ ([0, 50, 100] : List ℚ), 0 ≤ p ∧ p ≤ 100 := by decide +kernel
  have hrows := hcurve [0, 50, 100] hpercents
  have hperm : (Arith.sort [4, 1, 4, 2]).Perm ([1, 2, 4, 4] : List ℚ) :=
    (List.mergeSort_perm _ _).trans (by decide +kernel)
  have hsorted : Arith.sort [4, 1, 4, 2] = ([1, 2, 4, 4] : List ℚ) :=
    hperm.eq_of_pairwise (fun a b _ _ => le_antisymm) (Arith.pairwise_sort _) (by decide +kernel)
  have hexact : ([0, 50, 100] : List ℚ).map (exactFlow [4, 1, 4, 2]) = [4, 3, 1] := by
    unfold exactFlow ranked
    rw [hsorted]
    decide +kernel
  have heq := Except.ok.inj (hrows.symm.trans (curveWith_eq _ hne hpercents))
  have hflow : ([0, 50, 100] : List ℚ).map flow = [4, 3, 1] := by
    rw [← hexact]
    simpa using heq
  obtain ⟨hzero, hfifty, hhundred⟩ : flow 0 = 4 ∧ flow 50 = 3 ∧ flow 100 = 1 := by simpa using hflow
  exact ⟨hne, flow, hrows, hzero, hfifty, hhundred, fun p h0 h1 => hfalls p 50 h0 h1 (by norm_num)⟩

end FlowDuration

end Hydroseries
