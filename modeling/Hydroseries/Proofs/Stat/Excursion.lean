import Hydroseries.Proofs.Arith.Rational
import Hydroseries.Proofs.Series.Regular
import Hydroseries.Proofs.Time.Timestamp
import Hydroseries.Stat.Excursion
import Mathlib.Tactic.FieldSimp
import Mathlib.Tactic.Linarith
import Mathlib.Tactic.Positivity

/-!
# Time above, below and on a threshold

Over the rationals, each step from one sample to the next is spent above the threshold, below it, or,
if both of its samples are on the threshold, on it (`above_add_below_add_level`). The excursions of a
series are what its steps spend on their side of the threshold, put together as long as the samples
stay beyond it (`sum_lengthsFrom`), so no time is lost and none is counted twice.
-/

namespace Hydroseries

namespace Excursion

open Timestamp (elapsed IsWholeMilli)

theorem secondsBetween_of_whole {s t : Timestamp} (hs : s.IsWholeMilli) (ht : t.IsWholeMilli) :
    secondsBetween s t = elapsed s t := by
  show ((t.millisSince s : ℤ) : ℚ) / ((1000 : ℤ) : ℚ) = elapsed s t
  rw [Timestamp.millisSince_of_whole hs ht, Int.cast_ofNat, mul_div_cancel_left₀ _ (by norm_num)]

/-! ## One step -/

/-- A sample and the next one. -/
abbrev Step := (Timestamp × ℚ) × (Timestamp × ℚ)

variable {threshold : ℚ} {direction : Direction} {step : Step}

/-- The seconds of a step. -/
def Step.span (step : Step) : ℚ := secondsBetween step.1.1 step.2.1

/-- The seconds of a step in which the line from one sample to the next is beyond the threshold. -/
def Step.beyond (threshold : ℚ) (direction : Direction) (step : Step) : ℚ :=
  match isBeyond threshold direction step.1.2, isBeyond threshold direction step.2.2 with
  | true, true => step.span
  | true, false => crossing threshold step.span step.1.2 step.2.2
  | false, true => step.span - crossing threshold step.span step.1.2 step.2.2
  | false, false => 0

/-- Both samples are on the threshold. -/
def Step.IsLevel (threshold : ℚ) (step : Step) : Prop :=
  step.1.2 = threshold ∧ step.2.2 = threshold

instance (threshold : ℚ) (step : Step) : Decidable (step.IsLevel threshold) :=
  inferInstanceAs (Decidable (_ ∧ _))

theorem isBeyond_above {v : ℚ} : isBeyond threshold .above v = true ↔ threshold < v :=
  decide_eq_true_iff

theorem isBeyond_below {v : ℚ} : isBeyond threshold .below v = true ↔ v < threshold :=
  decide_eq_true_iff

theorem crossing_eq (threshold span v w : ℚ) :
    crossing threshold span v w = (threshold - v) / (w - v) * span := rfl

/-- A value that is not beyond the threshold differs from one that is, and the line between them
crosses the threshold after a part of the step. -/
theorem crossing_bounds {span v w : ℚ} (hspan : 0 < span)
    (hv : isBeyond threshold direction v = true) (hw : isBeyond threshold direction w = false) :
    0 < crossing threshold span v w ∧ crossing threshold span v w ≤ span ∧
      crossing threshold span w v = span - crossing threshold span v w := by
  have hne : w - v ≠ 0 := sub_ne_zero.mpr fun heq => by simp [heq, hv] at hw
  have hne' : v - w ≠ 0 := sub_ne_zero.mpr fun heq => by simp [heq, hw] at hv
  have hshare : 0 < (threshold - v) / (w - v) ∧ (threshold - v) / (w - v) ≤ 1 := by
    cases direction with
    | above =>
      rw [isBeyond_above] at hv
      rw [← Bool.not_eq_true, isBeyond_above, not_lt] at hw
      rw [← neg_div_neg_eq, neg_sub, neg_sub]
      exact ⟨div_pos (by linarith) (by linarith), (div_le_one (by linarith)).mpr (by linarith)⟩
    | below =>
      rw [isBeyond_below] at hv
      rw [← Bool.not_eq_true, isBeyond_below, not_lt] at hw
      exact ⟨div_pos (by linarith) (by linarith), (div_le_one (by linarith)).mpr (by linarith)⟩
  refine ⟨mul_pos hshare.1 hspan, mul_le_of_le_one_left hspan.le hshare.2, ?_⟩
  rw [crossing_eq, crossing_eq]
  field_simp
  ring

/-- A step with a sample beyond the threshold spends time there. -/
theorem Step.beyond_pos (hspan : 0 < step.span)
    (h : isBeyond threshold direction step.1.2 = true ∨
      isBeyond threshold direction step.2.2 = true) :
    0 < step.beyond threshold direction := by
  unfold Step.beyond
  split
  next => exact hspan
  next hv hw => exact (crossing_bounds hspan hv hw).1
  next hv hw =>
    have hback := crossing_bounds hspan hw hv
    rw [hback.2.2, sub_sub_cancel]
    exact hback.1
  next hv hw => simp [hv, hw] at h

/-- A value is above the threshold, below it or on it. -/
theorem sides (threshold v : ℚ) :
    (isBeyond threshold .above v = true ∧ isBeyond threshold .below v = false ∧ v ≠ threshold) ∨
    (isBeyond threshold .above v = false ∧ isBeyond threshold .below v = true ∧ v ≠ threshold) ∨
    (isBeyond threshold .above v = false ∧ isBeyond threshold .below v = false ∧ v = threshold) := by
  simp only [← Bool.not_eq_true, isBeyond_above, isBeyond_below]
  rcases lt_trichotomy v threshold with hv | hv | hv
  · exact .inr (.inl ⟨hv.not_gt, hv, hv.ne⟩)
  · exact .inr (.inr ⟨hv.le.not_gt, hv.ge.not_gt, hv⟩)
  · exact .inl ⟨hv, hv.not_gt, hv.ne'⟩

/-- All of a step is spent above the threshold, below it or, if it is level, on it. -/
theorem Step.above_add_below (threshold : ℚ) (step : Step) :
    step.beyond threshold .above + step.beyond threshold .below +
      (if step.IsLevel threshold then step.span else 0) = step.span := by
  have hstart (span w : ℚ) : crossing threshold span threshold w = 0 := by
    rw [crossing_eq, sub_self, zero_div, zero_mul]
  have hend (span : ℚ) {v : ℚ} (hv : v ≠ threshold) : crossing threshold span v threshold = span := by
    rw [crossing_eq, div_self (sub_ne_zero.mpr hv.symm), one_mul]
  have hon (direction : Direction) : isBeyond threshold direction threshold = false := by
    cases direction <;> simp [isBeyond]
  obtain ⟨⟨s, v⟩, ⟨t, w⟩⟩ := step
  simp only [Step.beyond, Step.IsLevel]
  rcases sides threshold v with ⟨ha, hb, hv⟩ | ⟨ha, hb, hv⟩ | ⟨ha, hb, hv⟩ <;>
    rcases sides threshold w with ⟨ha', hb', hw⟩ | ⟨ha', hb', hw⟩ | ⟨ha', hb', hw⟩ <;>
      simp [*]

/-! ## All steps -/

variable {points : List (Timestamp × ℚ)} {current : ℚ} {underWay : Bool}

/-- The steps from each sample to the next. -/
def steps (points : List (Timestamp × ℚ)) : List Step := points.zip points.tail

@[simp] theorem steps_cons_cons (p q : Timestamp × ℚ) (rest : List (Timestamp × ℚ)) :
    steps (p :: q :: rest) = (p, q) :: steps (q :: rest) := rfl

/-- What is known of the excursion under way when the walk comes to the samples `points`: it has some
length, and the first of the samples belongs to it. -/
structure Begun (threshold : ℚ) (direction : Direction) (current : ℚ) (underWay : Bool)
    (points : List (Timestamp × ℚ)) : Prop where
  pos : underWay = true → 0 < current
  beyond : underWay = true → ∀ p ∈ points.head?, isBeyond threshold direction p.2 = true
  none : underWay = false → current = 0

theorem begun_none (threshold : ℚ) (direction : Direction) (points : List (Timestamp × ℚ)) :
    Begun threshold direction 0 false points :=
  ⟨nofun, nofun, fun _ => rfl⟩

/-- The walk over one step: an excursion grows by what the step spends beyond the threshold. It goes
on if the step ends there, and it is over if the step only begins there. -/
theorem lengthsFrom_cons_cons {p q : Timestamp × ℚ} {rest : List (Timestamp × ℚ)}
    (h : Begun threshold direction current underWay (p :: q :: rest)) :
    lengthsFrom threshold direction current underWay (p :: q :: rest) =
      let grown := current + Step.beyond threshold direction (p, q)
      if isBeyond threshold direction q.2 = true then
        lengthsFrom threshold direction grown true (q :: rest)
      else if isBeyond threshold direction p.2 = true then
        grown :: lengthsFrom threshold direction 0 false (q :: rest)
      else lengthsFrom threshold direction 0 false (q :: rest) := by
  obtain ⟨s, v⟩ := p
  obtain ⟨t, w⟩ := q
  have hidle : isBeyond threshold direction v = false → underWay = false ∧ current = 0 := by
    intro hv
    cases underWay with
    | false => exact ⟨rfl, h.none rfl⟩
    | true =>
      have hbeyond := h.beyond rfl (s, v) rfl
      simp [hv] at hbeyond
  rw [lengthsFrom, Step.beyond]
  cases hv : isBeyond threshold direction v <;> cases hw : isBeyond threshold direction w
  · obtain ⟨rfl, rfl⟩ := hidle hv
    simp
  · obtain ⟨rfl, rfl⟩ := hidle hv
    simp [Step.span]
  · simp [Step.span]
  · simp [Step.span]

theorem Begun.grown_pos {p q : Timestamp × ℚ} {rest : List (Timestamp × ℚ)}
    (h : Begun threshold direction current underWay (p :: q :: rest)) (hspan : 0 < Step.span (p, q))
    (hbeyond : isBeyond threshold direction p.2 = true ∨ isBeyond threshold direction q.2 = true) :
    0 < current + Step.beyond threshold direction (p, q) := by
  have hstep := Step.beyond_pos hspan hbeyond
  cases underWay with
  | false => rwa [h.none rfl, zero_add]
  | true => exact add_pos (h.pos rfl) hstep

/-- At the end of the walk, an excursion under way is over. -/
theorem Begun.ends (h : Begun threshold direction current underWay points) :
    (if underWay = true then [current] else []).sum = current ∧
      ∀ d ∈ (if underWay = true then [current] else []), 0 < d := by
  cases underWay with
  | false => exact ⟨(h.none rfl).symm, nofun⟩
  | true =>
    refine ⟨List.sum_singleton, fun d hd => ?_⟩
    rw [List.mem_singleton.mp hd]
    exact h.pos rfl

/-- The excursions have a length, and together they last as long as the steps are beyond the
threshold. -/
theorem lengthsFrom_spec (h : Begun threshold direction current underWay points)
    (hspan : ∀ step ∈ steps points, 0 < step.span) :
    (lengthsFrom threshold direction current underWay points).sum =
      current + ((steps points).map (Step.beyond threshold direction)).sum ∧
    ∀ d ∈ lengthsFrom threshold direction current underWay points, 0 < d := by
  induction points generalizing current underWay with
  | nil => exact ⟨h.ends.1.trans (add_zero current).symm, h.ends.2⟩
  | cons p rest ih =>
    cases rest with
    | nil => exact ⟨h.ends.1.trans (add_zero current).symm, h.ends.2⟩
    | cons q rest =>
      rw [steps_cons_cons, List.forall_mem_cons] at hspan
      rw [lengthsFrom_cons_cons h, steps_cons_cons, List.map_cons, List.sum_cons, ← add_assoc]
      dsimp only
      split
      next hq =>
        have hgrown := h.grown_pos hspan.1 (.inr hq)
        refine ih ⟨fun _ => hgrown, fun _ p' hp' => ?_, nofun⟩ hspan.2
        rwa [← Option.some.inj hp']
      next hq =>
        have hrest := ih (begun_none threshold direction (q :: rest)) hspan.2
        rw [zero_add] at hrest
        split
        next hp =>
          rw [List.sum_cons, hrest.1, List.forall_mem_cons]
          exact ⟨rfl, h.grown_pos hspan.1 (.inl hp), hrest.2⟩
        next hp =>
          -- No excursion is under way, and the step adds nothing to one.
          have hnone : underWay = false := by
            by_contra hway
            exact hp (h.beyond (Bool.eq_true_of_not_eq_false hway) p rfl)
          have hstep : Step.beyond threshold direction (p, q) = 0 := by
            simp [Step.beyond, hp, hq]
          rw [h.none hnone, hstep, zero_add, zero_add]
          exact hrest

/-- Between whole milliseconds a step has its exact length. -/
theorem span_eq (hwhole : ∀ p ∈ points, p.1.IsWholeMilli) :
    ∀ step ∈ steps points, step.span = elapsed step.1.1 step.2.1 := by
  intro step hstep
  obtain ⟨hp, hq⟩ := List.of_mem_zip hstep
  exact secondsBetween_of_whole (hwhole _ hp) (hwhole _ (List.mem_of_mem_tail hq))

/-- Steps lead from increasing samples to later ones. -/
theorem step_lt (hincreasing : Increasing (points.map Prod.fst)) :
    ∀ step ∈ steps points, step.1.1 < step.2.1 := by
  induction points with
  | nil => nofun
  | cons p rest ih =>
    cases rest with
    | nil => nofun
    | cons q rest =>
      rw [steps_cons_cons, List.forall_mem_cons]
      exact ⟨List.rel_of_pairwise_cons hincreasing List.mem_cons_self,
        ih (List.Pairwise.of_cons hincreasing)⟩

/-- The steps of increasing samples have a length. -/
theorem span_pos (hincreasing : Increasing (points.map Prod.fst))
    (hwhole : ∀ p ∈ points, p.1.IsWholeMilli) : ∀ step ∈ steps points, 0 < step.span := by
  intro step hstep
  rw [span_eq hwhole step hstep]
  exact Timestamp.elapsed_pos (step_lt hincreasing step hstep)

/-- The steps follow each other from the first sample to the last. -/
theorem sum_elapsed {first last : Timestamp × ℚ} (hfirst : points.head? = some first)
    (hlast : points.getLast? = some last) :
    ((steps points).map fun step => elapsed step.1.1 step.2.1).sum = elapsed first.1 last.1 := by
  induction points generalizing first with
  | nil => cases hfirst
  | cons p rest ih =>
    obtain rfl := Option.some.inj hfirst
    cases rest with
    | nil =>
      obtain rfl := Option.some.inj hlast
      exact (Timestamp.elapsed_self _).symm
    | cons q rest =>
      rw [List.getLast?_cons_cons] at hlast
      rw [steps_cons_cons, List.map_cons, List.sum_cons, ih rfl hlast, Timestamp.elapsed_add]

/-! ## A series -/

/-- The seconds between neighbouring values that are both on the threshold. -/
def levelLengths (s : TimeSeries ℚ) (threshold : ℚ) : List ℚ :=
  ((steps s.valid).filter fun step => decide (step.IsLevel threshold)).map fun step =>
    elapsed step.1.1 step.2.1

theorem sum_levelLengths (s : TimeSeries ℚ) (threshold : ℚ) : (levelLengths s threshold).sum =
    ((steps s.valid).map fun step =>
      if step.IsLevel threshold then elapsed step.1.1 step.2.1 else 0).sum := by
  rw [levelLengths]
  induction steps s.valid with
  | nil => rfl
  | cons step rest ih =>
    rw [List.map_cons, List.sum_cons, ← ih, List.filter_cons]
    by_cases hlevel : step.IsLevel threshold
    · rw [if_pos hlevel, if_pos (decide_eq_true hlevel), List.map_cons, List.sum_cons]
    · rw [if_neg hlevel, if_neg (by rwa [decide_eq_true_iff]), zero_add]

/-- The excursions above a threshold, those below it and the times between neighbouring values on it
take up all the time from the first value to the last, and every excursion has a length. -/
theorem above_add_below_add_level {s : TimeSeries ℚ} (threshold : ℚ) (hs : Increasing s.index)
    (hwhole : ∀ p ∈ s.valid, p.1.IsWholeMilli) {first last : Timestamp}
    (hfirst : s.firstValid? = some first) (hlast : s.lastValid? = some last) :
    (lengths s threshold .above).sum + (lengths s threshold .below).sum +
      (levelLengths s threshold).sum = elapsed first last ∧
    ∀ direction, ∀ d ∈ lengths s threshold direction, 0 < d := by
  obtain ⟨p, hp, rfl⟩ := Option.map_eq_some_iff.mp hfirst
  obtain ⟨q, hq, rfl⟩ := Option.map_eq_some_iff.mp hlast
  have hspec (direction : Direction) :=
    lengthsFrom_spec (begun_none threshold direction s.valid)
      (span_pos (TimeSeries.increasing_valid hs) hwhole)
  have hsum (direction : Direction) : (lengths s threshold direction).sum =
      ((steps s.valid).map (Step.beyond threshold direction)).sum :=
    (hspec direction).1.trans (zero_add _)
  refine ⟨?_, fun direction => (hspec direction).2⟩
  rw [hsum, hsum, sum_levelLengths, ← List.sum_map_add, ← List.sum_map_add, ← sum_elapsed hp hq]
  congr 1
  refine List.map_congr_left fun step hstep => ?_
  rw [← span_eq hwhole step hstep]
  exact Step.above_add_below threshold step

/-- A series that rises onto the value 5, stays there, misses a value and falls through it. -/
def touching : TimeSeries ℚ :=
  ⟨[(⟨0⟩, some 1), (⟨1000000000⟩, some 5), (⟨2500000000⟩, some 5), (⟨3000000000⟩, none),
    (⟨4000000000⟩, some 9), (⟨5000000000⟩, some 1)]⟩

theorem above_add_below_of_touching : Increasing touching.index ∧
    (∀ p ∈ touching.valid, p.1.IsWholeMilli) ∧ touching.firstValid? = some ⟨0⟩ ∧
    touching.lastValid? = some ⟨5000000000⟩ ∧
    (lengths touching 5 .above).sum + (lengths touching 5 .below).sum +
      (levelLengths touching 5).sum = elapsed ⟨0⟩ ⟨5000000000⟩ ∧
    ∀ d ∈ lengths touching 5 .above, 0 < d := by
  have hs : Increasing touching.index := by
    show List.Pairwise _ _
    decide +kernel
  have hwhole : ∀ p ∈ touching.valid, p.1.IsWholeMilli := by decide +kernel
  have hfirst : touching.firstValid? = some ⟨0⟩ := rfl
  have hlast : touching.lastValid? = some ⟨5000000000⟩ := rfl
  obtain ⟨hsum, hpos⟩ := above_add_below_add_level 5 hs hwhole hfirst hlast
  exact ⟨hs, hwhole, hfirst, hlast, hsum, hpos .above⟩

/-- Half a second of the last step is above the value 5 and half a second below it. -/
example : lengths touching 5 .above = [2] ∧ lengths touching 5 .below = [1, 1 / 2] ∧
    levelLengths touching 5 = [3 / 2] := by
  decide +kernel

end Excursion

end Hydroseries
