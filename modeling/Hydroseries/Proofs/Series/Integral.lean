import Hydroseries.Proofs.Arith.Rational
import Hydroseries.Proofs.Series.Alignment
import Hydroseries.Proofs.Time.Timestamp
import Hydroseries.Series.Interpolate
import Mathlib.Tactic.NormNum
import Mathlib.Tactic.Ring

/-!
# Integrals add up

Over the rationals, an integral is the area up to its end less the area up to its start
(`integrate_eq`): from one moment to another with no sample between them the value follows one line, so
the trapezoid on the two is a difference of areas (`trapezoid_eq`), and over all samples between start
and end the areas telescope (`sum_trapezoids`). Hence the integrals over two adjoining stretches of time
are that over both (`integrate_add`).
-/

namespace Hydroseries.TimeSeries

open Timestamp (elapsed elapsed_self elapsed_add elapsed_pos IsWholeMilli)

variable {p q r : Timestamp × ℚ} {points rest : List (Timestamp × ℚ)} {t x y : Timestamp}

/-- Samples in the order of time, at whole milliseconds. -/
structure WellTimed (points : List (Timestamp × ℚ)) : Prop where
  increasing : Increasing (points.map Prod.fst)
  whole : ∀ p ∈ points, p.1.IsWholeMilli

theorem WellTimed.tail (h : WellTimed (p :: points)) : WellTimed points :=
  ⟨h.increasing.of_cons, fun q hq => h.whole q (List.mem_cons_of_mem _ hq)⟩

theorem WellTimed.lt (h : WellTimed (p :: points)) (hq : q ∈ points) : p.1 < q.1 :=
  List.rel_of_pairwise_cons h.increasing (List.mem_map_of_mem hq)

theorem WellTimed.head (h : WellTimed (p :: points)) : p.1.IsWholeMilli := h.whole p List.mem_cons_self

/-! ## Lines and trapezoids -/

theorem trapezoid_of_whole (hp : p.1.IsWholeMilli) (hq : q.1.IsWholeMilli) :
    trapezoid p q = (p.2 + q.2) / 2 * elapsed p.1 q.1 := by
  show (p.2 + q.2) / ((2 : ℤ) : ℚ) * (((q.1.millisSince p.1 : ℤ) : ℚ) / ((1000 : ℤ) : ℚ)) = _
  rw [Timestamp.millisSince_of_whole hp hq]
  push_cast
  ring

theorem lineThrough_of_whole (hp : p.1.IsWholeMilli) (hq : q.1.IsWholeMilli) (ht : t.IsWholeMilli) :
    lineThrough p q t = p.2 + (q.2 - p.2) * (elapsed p.1 t / elapsed p.1 q.1) := by
  show p.2 + (q.2 - p.2) * (((t.millisSince p.1 : ℤ) : ℚ) / ((q.1.millisSince p.1 : ℤ) : ℚ)) = _
  rw [Timestamp.millisSince_of_whole hp hq, Timestamp.millisSince_of_whole hp ht,
    mul_div_mul_left _ _ (by norm_num)]

section AfterSample

variable (h : WellTimed (p :: q :: rest))

include h

theorem lineThrough_left : lineThrough p q p.1 = p.2 := by
  rw [lineThrough_of_whole h.head h.tail.head h.head, elapsed_self, zero_div, mul_zero, add_zero]

theorem lineThrough_right : lineThrough p q q.1 = q.2 := by
  have hne : elapsed p.1 q.1 ≠ 0 := (elapsed_pos (h.lt List.mem_cons_self)).ne'
  rw [lineThrough_of_whole h.head h.tail.head h.tail.head, div_self hne]
  ring

end AfterSample

theorem valueAfter_self (h : WellTimed (p :: points)) : valueAfter p p.1 points = p.2 := by
  cases points with
  | nil => rfl
  | cons q rest => rw [valueAfter, if_pos (h.lt List.mem_cons_self), lineThrough_left h]

/-- Up to the next sample the value follows the line to it. -/
theorem valueAfter_of_le (h : WellTimed (p :: q :: rest)) (ht : t ≤ q.1) :
    valueAfter p t (q :: rest) = lineThrough p q t := by
  rw [valueAfter]
  rcases ht.lt_or_eq with hlt | rfl
  · rw [if_pos hlt]
  · rw [if_neg (lt_irrefl _), if_pos rfl, lineThrough_right h]

/-- From the next sample on the value is that after it. -/
theorem valueAfter_of_ge (h : WellTimed (p :: q :: rest)) (ht : q.1 ≤ t) :
    valueAfter p t (q :: rest) = valueAfter q t rest := by
  rw [valueAfter, if_neg ht.not_gt]
  split
  next heq => rw [heq, valueAfter_self h.tail]
  next => rfl

/-! ## Areas -/

/-- The area from the sample `p` to a later moment, under the lines through the samples. -/
def areaAfter (p : Timestamp × ℚ) (t : Timestamp) : List (Timestamp × ℚ) → ℚ
  | [] => p.2 * elapsed p.1 t
  | q :: rest =>
    if t ≤ q.1 then (p.2 + lineThrough p q t) / 2 * elapsed p.1 t
    else (p.2 + q.2) / 2 * elapsed p.1 q.1 + areaAfter q t rest

theorem areaAfter_self (h : WellTimed (p :: points)) : areaAfter p p.1 points = 0 := by
  cases points with
  | nil => rw [areaAfter, elapsed_self, mul_zero]
  | cons q rest => rw [areaAfter, if_pos (h.lt List.mem_cons_self).le, elapsed_self, mul_zero]

theorem areaAfter_of_ge (h : WellTimed (p :: q :: rest)) (ht : q.1 ≤ t) :
    areaAfter p t (q :: rest) = (p.2 + q.2) / 2 * elapsed p.1 q.1 + areaAfter q t rest := by
  rw [areaAfter]
  split
  next hle =>
    obtain rfl := le_antisymm hle ht
    rw [lineThrough_right h, areaAfter_self h.tail, add_zero]
  next => rfl

/-- Between two moments after a sample, with no other sample between them, the area is that of the
trapezoid on the two. -/
theorem trapezoid_after (h : WellTimed (p :: points)) (hx : x.IsWholeMilli) (hy : y.IsWholeMilli)
    (hpx : p.1 ≤ x) (hxy : x ≤ y) (hnone : ∀ q ∈ points, x < q.1 → y ≤ q.1) :
    (valueAfter p x points + valueAfter p y points) / 2 * elapsed x y =
      areaAfter p y points - areaAfter p x points := by
  have helapsed : elapsed x y = elapsed p.1 y - elapsed p.1 x := by
    rw [← elapsed_add p.1 x y, add_sub_cancel_left]
  induction points generalizing p with
  | nil =>
    rw [valueAfter, valueAfter, areaAfter, areaAfter, helapsed]
    ring
  | cons q rest ih =>
    rcases le_or_gt y q.1 with hyq | hqy
    · -- Both lie on the line from `p` to `q`.
      have hxq := hxy.trans hyq
      rw [valueAfter_of_le h hxq, valueAfter_of_le h hyq, areaAfter, if_pos hyq, areaAfter, if_pos hxq,
        lineThrough_of_whole h.head h.tail.head hx, lineThrough_of_whole h.head h.tail.head hy, helapsed]
      ring
    · have hqx : q.1 ≤ x := not_lt.mp fun hlt => (hnone q List.mem_cons_self hlt).not_gt hqy
      rw [valueAfter_of_ge h hqx, valueAfter_of_ge h hqy.le, areaAfter_of_ge h hqx,
        areaAfter_of_ge h hqy.le, add_sub_add_left_eq_sub]
      refine ih h.tail hqx (fun r hr => hnone r (List.mem_cons_of_mem _ hr)) ?_
      rw [← elapsed_add q.1 x y, add_sub_cancel_left]

/-! ## Before the first sample -/

/-- The value at a moment, for samples of which `p` is the first. -/
def valueFrom (p : Timestamp × ℚ) (points : List (Timestamp × ℚ)) (t : Timestamp) : ℚ :=
  if t ≤ p.1 then p.2 else valueAfter p t points

/-- The area from the first sample to a moment; negative for earlier ones. -/
def areaFrom (p : Timestamp × ℚ) (points : List (Timestamp × ℚ)) (t : Timestamp) : ℚ :=
  if t ≤ p.1 then p.2 * elapsed p.1 t else areaAfter p t points

theorem valueFrom_of_ge (h : WellTimed (p :: points)) (ht : p.1 ≤ t) :
    valueFrom p points t = valueAfter p t points := by
  rw [valueFrom]
  split
  next hle =>
    obtain rfl := le_antisymm hle ht
    rw [valueAfter_self h]
  next => rfl

theorem areaFrom_of_ge (h : WellTimed (p :: points)) (ht : p.1 ≤ t) :
    areaFrom p points t = areaAfter p t points := by
  rw [areaFrom]
  split
  next hle =>
    obtain rfl := le_antisymm hle ht
    rw [elapsed_self, mul_zero, areaAfter_self h]
  next => rfl

theorem valueFrom_of_mem (h : WellTimed (p :: points)) (hq : q ∈ p :: points) :
    valueFrom p points q.1 = q.2 := by
  induction points generalizing p with
  | nil =>
    obtain rfl := List.mem_singleton.mp hq
    exact if_pos le_rfl
  | cons r rest ih =>
    rcases List.mem_cons.mp hq with rfl | hq
    · exact if_pos le_rfl
    · have hrq : r.1 ≤ q.1 := by
        rcases List.mem_cons.mp hq with rfl | hq'
        · exact le_rfl
        · exact (h.tail.lt hq').le
      rw [valueFrom_of_ge h (h.lt hq).le, valueAfter_of_ge h hrq, ← valueFrom_of_ge h.tail hrq]
      exact ih h.tail hq

/-- Between two moments with no sample between them, the area is that of the trapezoid on the two. -/
theorem trapezoid_eq (h : WellTimed (p :: points)) (hx : x.IsWholeMilli) (hy : y.IsWholeMilli)
    (hxy : x ≤ y) (hnone : ∀ q ∈ p :: points, x < q.1 → y ≤ q.1) :
    trapezoid (x, valueFrom p points x) (y, valueFrom p points y) =
      areaFrom p points y - areaFrom p points x := by
  rw [trapezoid_of_whole hx hy]
  rcases le_or_gt p.1 x with hpx | hxp
  · rw [valueFrom_of_ge h hpx, valueFrom_of_ge h (hpx.trans hxy), areaFrom_of_ge h hpx,
      areaFrom_of_ge h (hpx.trans hxy)]
    exact trapezoid_after h hx hy hpx hxy fun q hq => hnone q (List.mem_cons_of_mem _ hq)
  · have hyp := hnone p List.mem_cons_self hxp
    rw [valueFrom, if_pos hxp.le, valueFrom, if_pos hyp, areaFrom, if_pos hyp, areaFrom, if_pos hxp.le,
      ← elapsed_add p.1 x y]
    ring

/-! ## Integrals -/

/-- The trapezoids on some samples and on the values before and behind them add up to an area. The
samples `within` are all that lie between. -/
theorem sum_trapezoids {within : List (Timestamp × ℚ)} (h : WellTimed (p :: points))
    (hwithin : ∀ q, q ∈ within ↔ q ∈ p :: points ∧ x < q.1 ∧ q.1 < y)
    (hincreasing : Increasing (within.map Prod.fst)) (hx : x.IsWholeMilli) (hy : y.IsWholeMilli)
    (hxy : x ≤ y) :
    (trapezoids ((x, valueFrom p points x) :: (within ++ [(y, valueFrom p points y)]))).sum =
      areaFrom p points y - areaFrom p points x := by
  induction within generalizing x with
  | nil =>
    have hnone : ∀ q ∈ p :: points, x < q.1 → y ≤ q.1 := fun q hq hlow => not_lt.mp fun hhigh =>
      List.not_mem_nil ((hwithin q).mpr ⟨hq, hlow, hhigh⟩)
    exact List.sum_singleton.trans (trapezoid_eq h hx hy hxy hnone)
  | cons r rest ih =>
    obtain ⟨hr, hxr, hry⟩ := (hwithin r).mp List.mem_cons_self
    have hlater : ∀ q ∈ rest, r.1 < q.1 := fun q hq =>
      List.rel_of_pairwise_cons hincreasing (List.mem_map_of_mem hq)
    have hnone : ∀ q ∈ p :: points, x < q.1 → r.1 ≤ q.1 := by
      intro q hq hxq
      rcases lt_or_ge q.1 y with hqy | hyq
      · rcases List.mem_cons.mp ((hwithin q).mpr ⟨hq, hxq, hqy⟩) with rfl | hrest
        · exact le_rfl
        · exact (hlater q hrest).le
      · exact hry.le.trans hyq
    have hstep := trapezoid_eq h hx (h.whole r hr) hxr.le hnone
    have hafter := ih (x := r.1) (fun q => ?_) hincreasing.of_cons (h.whole r hr) hry.le
    · rw [valueFrom_of_mem h hr] at hstep hafter
      rw [List.cons_append, trapezoids, List.sum_cons, hstep, hafter]
      ring
    · constructor
      · intro hq
        obtain ⟨hmem, -, hqy⟩ := (hwithin q).mp (List.mem_cons_of_mem _ hq)
        exact ⟨hmem, hlater q hq, hqy⟩
      · rintro ⟨hmem, hrq, hqy⟩
        rcases List.mem_cons.mp ((hwithin q).mpr ⟨hmem, hxr.trans hrq, hqy⟩) with rfl | hrest
        · exact absurd hrq (lt_irrefl _)
        · exact hrest

variable {s : TimeSeries ℚ} {a b c : Timestamp}

/-- An integral is a difference of areas. -/
theorem integrate_eq (hs : s.valid = p :: points) (h : WellTimed (p :: points)) (ha : a.IsWholeMilli)
    (hb : b.IsWholeMilli) (hab : a ≤ b) :
    s.integrate a b = areaFrom p points b - areaFrom p points a := by
  have hsample (t : Timestamp) : s.sampleAt t = [(t, valueFrom p points t)] := by
    rw [sampleAt, hs]
    rfl
  rw [integrate, Arith.sum_rational, samplesBetween, hsample, hsample, hs, List.append_assoc,
    List.singleton_append]
  refine sum_trapezoids h (fun q => ?_) ?_ ha hb hab
  · rw [List.mem_filter, Bool.and_eq_true, decide_eq_true_eq, decide_eq_true_eq]
  · exact h.increasing.sublist (List.filter_sublist.map Prod.fst)

/-- The integral over a stretch of time is the sum of those over its two parts, wherever it is
parted. -/
theorem integrate_add (hs : Increasing s.index) (hwhole : ∀ p ∈ s.valid, p.1.IsWholeMilli)
    (ha : a.IsWholeMilli) (hb : b.IsWholeMilli) (hc : c.IsWholeMilli) (hab : a ≤ b) (hbc : b ≤ c) :
    s.integrate a c = s.integrate a b + s.integrate b c := by
  have hincreasing := increasing_valid hs
  cases hvalid : s.valid with
  | nil =>
    have hzero (t u : Timestamp) : s.integrate t u = 0 := by
      rw [integrate, samplesBetween, sampleAt, sampleAt, hvalid]
      rfl
    rw [hzero, hzero, hzero, add_zero]
  | cons p points =>
    rw [hvalid] at hincreasing hwhole
    have h : WellTimed (p :: points) := ⟨hincreasing, hwhole⟩
    rw [integrate_eq hvalid h ha hc (hab.trans hbc), integrate_eq hvalid h ha hb hab,
      integrate_eq hvalid h hb hc hbc]
    ring

/-- A series that rises for two seconds, misses a value and falls for three. -/
def gable : TimeSeries ℚ :=
  ⟨[(⟨0⟩, some 1), (⟨2000000000⟩, some 5), (⟨3000000000⟩, none), (⟨5000000000⟩, some 2)]⟩

/-- Parted inside a step, from before the first sample to behind the last. -/
theorem integrate_add_of_gable : Increasing gable.index ∧ (∀ p ∈ gable.valid, p.1.IsWholeMilli) ∧
    gable.integrate ⟨-1000000000⟩ ⟨6000000000⟩ =
      gable.integrate ⟨-1000000000⟩ ⟨1500000000⟩ + gable.integrate ⟨1500000000⟩ ⟨6000000000⟩ ∧
    gable.integrate ⟨-1000000000⟩ ⟨1500000000⟩ = 19 / 4 ∧
    gable.integrate ⟨1500000000⟩ ⟨6000000000⟩ = 59 / 4 := by
  have hs : Increasing gable.index := by
    show List.Pairwise _ _
    decide +kernel
  have hwhole : ∀ p ∈ gable.valid, p.1.IsWholeMilli := by decide +kernel
  exact ⟨hs, hwhole, integrate_add hs hwhole (by decide) (by decide) (by decide) (by decide) (by decide),
    by decide +kernel, by decide +kernel⟩

end Hydroseries.TimeSeries
