import Hydroseries.Proofs.Stat.Excursion

/-!
# Bounds of exceedance times

Over the rationals, what counts of the excursions beyond a threshold is never negative. If no delay is
taken off it is their length, and a delay that is not negative only takes away from it, so that it is no
more than the time from the first value to the last (`seconds_le`), and its share of this time is at most
one (`rows_bounds`).
-/

namespace Hydroseries

namespace Excursion

open Timestamp (elapsed)

variable {threshold delay : ℚ} {direction : Direction} {step : Step}
  {points : List (Timestamp × ℚ)} {current : ℚ}

/-! ## Time in milliseconds -/

theorem secondsBetween_eq (s t : Timestamp) :
    (secondsBetween s t : ℚ) = (t.millisSince s : ℤ) / 1000 := rfl

theorem secondsBetween_nonneg {s t : Timestamp} (h : s ≤ t) : (0 : ℚ) ≤ secondsBetween s t := by
  have hmillis : 0 ≤ t.millisSince s := by
    rw [Timestamp.millisSince_of_le h]
    exact Int.ediv_nonneg (Int.sub_nonneg.mpr h) (by decide)
  rw [secondsBetween_eq]
  exact div_nonneg (Int.cast_nonneg hmillis) (by norm_num)

theorem secondsBetween_add_le {s t u : Timestamp} (hst : s ≤ t) (htu : t ≤ u) :
    (secondsBetween s t + secondsBetween t u : ℚ) ≤ secondsBetween s u := by
  rw [secondsBetween_eq, secondsBetween_eq, secondsBetween_eq, ← add_div]
  have hmillis : ((t.millisSince s : ℤ) : ℚ) + (u.millisSince t : ℤ) ≤ (u.millisSince s : ℤ) := by
    exact_mod_cast Timestamp.millisSince_add_le hst htu
  gcongr

/-- Milliseconds that are cut off only make a time shorter. -/
theorem secondsBetween_le_elapsed {s t : Timestamp} (h : s ≤ t) :
    secondsBetween s t ≤ elapsed s t := by
  have hcut : t.since s / 1000000 * 1000000 ≤ t.since s := Int.ediv_mul_le _ (by decide)
  have hcut' : ((t.since s / 1000000 : ℤ) : ℚ) * 1000000 ≤ (t.since s : ℤ) := by exact_mod_cast hcut
  rw [secondsBetween_eq, Timestamp.millisSince_of_le h, elapsed, Timestamp.secondNanos]
  push_cast
  linarith

/-- The steps between increasing samples take no more time than there is from the first sample to the
last. -/
theorem sum_span_le {first last : Timestamp × ℚ} (hincreasing : Increasing (points.map Prod.fst))
    (hfirst : points.head? = some first) (hlast : points.getLast? = some last) :
    first.1 ≤ last.1 ∧ ((steps points).map Step.span).sum ≤ secondsBetween first.1 last.1 := by
  induction points generalizing first with
  | nil => cases hfirst
  | cons p rest ih =>
    obtain rfl := Option.some.inj hfirst
    cases rest with
    | nil =>
      obtain rfl := Option.some.inj hlast
      exact ⟨le_rfl, secondsBetween_nonneg le_rfl⟩
    | cons q rest =>
      rw [List.getLast?_cons_cons] at hlast
      obtain ⟨hle, hsum⟩ := ih hincreasing.of_cons rfl hlast
      have hlt : p.1 < q.1 := List.rel_of_pairwise_cons hincreasing List.mem_cons_self
      rw [steps_cons_cons, List.map_cons, List.sum_cons]
      refine ⟨hlt.le.trans hle, le_trans ?_ (secondsBetween_add_le hlt.le hle)⟩
      exact add_le_add_right hsum _

/-! ## What counts -/

/-- A crossing lies within its step, be the step as short as can be. -/
theorem crossing_mem {span v w : ℚ} (hspan : 0 ≤ span)
    (hcross : isBeyond threshold direction v ≠ isBeyond threshold direction w) :
    0 ≤ crossing threshold span v w ∧ crossing threshold span v w ≤ span := by
  rcases hspan.eq_or_lt with rfl | hpos
  · rw [crossing_eq, mul_zero]
    exact ⟨le_rfl, le_rfl⟩
  · cases hv : isBeyond threshold direction v with
    | true =>
      have hw : isBeyond threshold direction w = false := by simpa [hv] using hcross.symm
      have hbounds := crossing_bounds hpos hv hw
      exact ⟨hbounds.1.le, hbounds.2.1⟩
    | false =>
      have hw : isBeyond threshold direction w = true := by simpa [hv] using hcross.symm
      have hbounds := crossing_bounds hpos hw hv
      rw [hbounds.2.2]
      exact ⟨sub_nonneg.mpr hbounds.2.1, sub_le_self _ hbounds.1.le⟩

/-- What counts of an excursion after a delay. -/
def counted (delay d : ℚ) : ℚ := max (d - delay) 0

theorem counted_le {d : ℚ} (hdelay : 0 ≤ delay) (hd : 0 ≤ d) : counted delay d ≤ d :=
  max_le (sub_le_self d hdelay) hd

theorem sum_counted_end_le (hdelay : 0 ≤ delay) (hcurrent : 0 ≤ current) {underWay : Bool} :
    ((if underWay = true then [current] else []).map (counted delay)).sum ≤ current := by
  split
  · exact List.sum_singleton.trans_le (counted_le hdelay hcurrent)
  · exact hcurrent

/-- What counts of the excursions from some samples on is no more than the excursion so far and the
steps. -/
theorem sum_counted_le (hdelay : 0 ≤ delay) (hcurrent : 0 ≤ current) (underWay : Bool)
    (hspan : ∀ step ∈ steps points, 0 ≤ step.span) :
    ((lengthsFrom threshold direction current underWay points).map (counted delay)).sum ≤
      current + ((steps points).map Step.span).sum := by
  induction points generalizing current underWay with
  | nil => exact (sum_counted_end_le hdelay hcurrent).trans_eq (add_zero _).symm
  | cons p rest ih =>
    cases rest with
    | nil => exact (sum_counted_end_le hdelay hcurrent).trans_eq (add_zero _).symm
    | cons q rest =>
      obtain ⟨s, v⟩ := p
      obtain ⟨t, w⟩ := q
      rw [steps_cons_cons, List.forall_mem_cons] at hspan
      have hstep : (0 : ℚ) ≤ secondsBetween s t := hspan.1
      rw [steps_cons_cons, List.map_cons, List.sum_cons, Step.span, lengthsFrom]
      cases hv : isBeyond threshold direction v <;> cases hw : isBeyond threshold direction w <;>
        dsimp only
      case false.false =>
        have hrest := ih hcurrent underWay hspan.2
        linarith
      case false.true =>
        have hne : isBeyond threshold direction v ≠ isBeyond threshold direction w := by
          rw [hv, hw]
          decide
        have hcross := crossing_mem hstep hne
        have hrest := ih (sub_nonneg.mpr hcross.2) true hspan.2
        linarith
      case true.false =>
        have hne : isBeyond threshold direction v ≠ isBeyond threshold direction w := by
          rw [hv, hw]
          decide
        have hcross := crossing_mem hstep hne
        have hrest := ih le_rfl false hspan.2
        have hover := counted_le hdelay (add_nonneg hcurrent hcross.1)
        rw [Arith.zero_rational, List.map_cons, List.sum_cons]
        linarith
      case true.true =>
        have hrest := ih (add_nonneg hcurrent hstep) true hspan.2
        linarith

/-! ## A series -/

section Series

variable {s : TimeSeries ℚ} {first last : Timestamp}

theorem seconds_eq (s : TimeSeries ℚ) (threshold delay : ℚ) (direction : Direction) :
    seconds s threshold delay direction = ((lengths s threshold direction).map (counted delay)).sum := by
  rw [seconds, Arith.sum_rational]
  exact congrArg List.sum (List.map_congr_left fun d _ => Arith.max_rational (d - delay) 0)

theorem seconds_nonneg (s : TimeSeries ℚ) (threshold delay : ℚ) (direction : Direction) :
    0 ≤ seconds s threshold delay direction := by
  rw [seconds_eq]
  refine List.sum_nonneg fun x hx => ?_
  obtain ⟨d, -, rfl⟩ := List.mem_map.mp hx
  exact le_max_right _ _

variable (hs : Increasing s.index) (hfirst : s.firstValid? = some first)
  (hlast : s.lastValid? = some last)

include hs hfirst hlast

/-- With a delay that is not negative, no more time is beyond a threshold than there is. -/
theorem seconds_le (threshold : ℚ) (direction : Direction) (hdelay : 0 ≤ delay) :
    first ≤ last ∧ seconds s threshold delay direction ≤ secondsBetween first last := by
  obtain ⟨p, hp, rfl⟩ := Option.map_eq_some_iff.mp hfirst
  obtain ⟨q, hq, rfl⟩ := Option.map_eq_some_iff.mp hlast
  have hincreasing := TimeSeries.increasing_valid hs
  obtain ⟨hle, hsum⟩ := sum_span_le hincreasing hp hq
  have hspan : ∀ step ∈ steps s.valid, 0 ≤ step.span := fun step hstep =>
    secondsBetween_nonneg (step_lt hincreasing step hstep).le
  have hcounted : seconds s threshold delay direction ≤ 0 + ((steps s.valid).map Step.span).sum := by
    rw [seconds_eq]
    exact sum_counted_le hdelay le_rfl false hspan
  rw [zero_add] at hcounted
  exact ⟨hle, hcounted.trans hsum⟩

end Series

end Excursion

theorem TimeUnit.seconds_pos (unit : TimeUnit) : (0 : ℚ) < unit.seconds := by
  cases unit <;> decide +kernel

namespace Excursion

open Timestamp (elapsed)

/-- The share that a time has of all of the time, if there is any. -/
def share (duration total : ℚ) : ℚ := if 0 < total then duration / total else 0

theorem share_nonneg {duration total : ℚ} (h : 0 ≤ duration) : 0 ≤ share duration total := by
  unfold share
  split
  next htotal => exact div_nonneg h htotal.le
  next => exact le_rfl

theorem share_le_one {duration total : ℚ} (h : duration ≤ total) : share duration total ≤ 1 := by
  unfold share
  split
  next htotal => exact (div_le_one htotal).mpr h
  next => exact zero_le_one

/-- The time of a row and its share are those of a part of the time from `first` to `last`. -/
structure Within (first last : Timestamp) (unit : TimeUnit) (r : ExceedanceRow ℚ) : Prop where
  duration_nonneg : 0 ≤ r.duration
  duration_le : r.duration ≤ elapsed first last / unit.seconds
  fraction_nonneg : 0 ≤ r.fraction
  fraction_le : r.fraction ≤ 1

/-- Times and shares are never negative, and where the delay is not negative either, they are no more
than all of the time. -/
theorem rows_bounds {s : TimeSeries ℚ} {first last : Timestamp} (hs : Increasing s.index)
    (hfirst : s.firstValid? = some first) (hlast : s.lastValid? = some last) (unit : TimeUnit)
    (direction : Direction) {thresholds : List (ℚ × ℚ)} {r : ExceedanceRow ℚ}
    (hr : r ∈ rows s first last unit direction thresholds) :
    0 ≤ r.duration ∧ 0 ≤ r.fraction ∧ (0 ≤ r.delay → Within first last unit r) := by
  obtain ⟨⟨threshold, delay⟩, -, rfl⟩ := List.mem_map.mp hr
  have hunit : (0 : ℚ) < unit.seconds := unit.seconds_pos
  have hduration : 0 ≤ seconds s threshold (delay * unit.seconds) direction / unit.seconds :=
    div_nonneg (seconds_nonneg _ _ _ _) hunit.le
  refine ⟨hduration, share_nonneg hduration, fun hdelay => ?_⟩
  obtain ⟨hle, hseconds⟩ := seconds_le hs hfirst hlast threshold direction
    (mul_nonneg hdelay hunit.le)
  have htotal : seconds s threshold (delay * unit.seconds) direction / unit.seconds ≤
      secondsBetween first last / unit.seconds := div_le_div_of_nonneg_right hseconds hunit.le
  have hcut : (secondsBetween first last / unit.seconds : ℚ) ≤ elapsed first last / unit.seconds :=
    div_le_div_of_nonneg_right (secondsBetween_le_elapsed hle) hunit.le
  exact ⟨hduration, htotal.trans hcut, share_nonneg hduration, share_le_one htotal⟩

end Excursion

end Hydroseries
