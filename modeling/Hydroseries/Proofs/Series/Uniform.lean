import Hydroseries.Proofs.DataFile.Columns
import Hydroseries.Proofs.Series.Reinference
import Hydroseries.Proofs.Time.Month
import Hydroseries.Series.Uniform
import Mathlib.Data.Nat.Find
import Mathlib.Tactic.Linarith
import Mathlib.Tactic.Ring

/-!
# Uniform series

The points of a uniform series stand at all moments that lie a number of steps after its start and do
not pass its end (`TimeSeries.uniform_eq_ok`). A moment is found by its number alone, and moments with
greater numbers come later by at least the shortest length that a step can have
(`UniformStep.shortest_mul_le`), so the bound on the loop never cuts the series short.
-/

namespace Hydroseries

open Timestamp (secondNanos dayNanos)

namespace UniformStep

variable {step : UniformStep} {start finish t : Timestamp} {k : Nat}

/-! ## Units -/

/-- The units of steps by their words in the singular. -/
def units : List (String × UniformStep) :=
  [("second", seconds 1), ("sec", seconds 1), ("minute", seconds 60), ("min", seconds 60),
    ("hour", seconds 3600), ("day", seconds 86400), ("month", months 1), ("year", months 12)]

/-- A step as long as `n` steps. -/
def times : UniformStep → Nat → UniformStep
  | seconds m, n => seconds (n * m)
  | months m, n => months (n * m)

/-- The step is as long as `n` units, one at least; the word for the unit may be in the plural. -/
structure Counts (step : UniformStep) (word : String) (n : Nat) : Prop where
  one_le : 1 ≤ n
  unit : ∃ unit, (singular (Text.lower (Text.trim word)), unit) ∈ units ∧ step = unit.times n

/-- Steps lead forward. -/
def Proper : UniformStep → Prop
  | seconds n | months n => 1 ≤ n

theorem Counts.proper {word : String} {n : Nat} (h : step.Counts word n) : step.Proper := by
  obtain ⟨hn, unit, hunit, rfl⟩ := h
  have hpos : ∀ u ∈ units, u.2.Proper := by simp [units, Proper]
  have hone := hpos _ hunit
  cases unit <;> exact Nat.mul_pos hn hone

/-- A step that is read is a number of one of the known units. -/
theorem counts_of_read {word : String} {n : Nat} (h : read word n = .ok step) : step.Counts word n := by
  unfold read at h
  split at h
  · cases h
  next hn =>
    refine ⟨Nat.one_le_iff_ne_zero.mpr hn, ?_⟩
    split at h
    case h_8 =>
      -- Years are counted in months, if their number allows it.
      split at h
      · cases h
        simp_all [units, times]
      · cases h
    all_goals cases h
    all_goals simp_all [units, times]

/-- Years are counted in months, whose number is a machine word. -/
def YearsFit (word : String) (n : Nat) : Prop :=
  singular (Text.lower (Text.trim word)) = "year" → n * 12 < countBound

/-- A step is read or refused, unless it has more months than can be counted. -/
theorem read_cases (word : String) (n : Nat) :
    (YearsFit word n ∧ ((∃ step, read word n = .ok step) ∨
      ∃ key text why, read word n = .error (.invalid key text why))) ∨
    (¬ YearsFit word n ∧ read word n = .error .outOfRange) := by
  unfold read YearsFit
  by_cases hn : n = 0
  · subst hn
    exact .inl ⟨fun _ => by decide, .inr ⟨_, _, _, if_pos rfl⟩⟩
  · rw [if_neg hn]
    split
    case h_8 hyear =>
      by_cases hfit : n * 12 < countBound
      · exact .inl ⟨fun _ => hfit, .inl ⟨_, if_pos hfit⟩⟩
      · exact .inr ⟨fun h => hfit (h hyear), if_neg hfit⟩
    case h_9 hother => exact .inl ⟨fun h => absurd h hother, .inr ⟨_, _, _, rfl⟩⟩
    all_goals
      next hunit =>
        refine .inl ⟨fun h => ?_, .inl ⟨_, rfl⟩⟩
        rw [hunit] at h
        exact absurd h (by decide)

/-! ## Moments -/

/-- The moment `t` lies `k` steps after `start`: by as many seconds, or at the same time of day by as
many months. -/
def IsStepsAfter (step : UniformStep) (start : Timestamp) (k : Nat) (t : Timestamp) : Prop :=
  match step with
  | seconds n => t.nanos = start.nanos + n * k * secondNanos
  | months n => start.date.IsMonthsLater (n * k) t.date ∧ t.sinceMidnight = start.sinceMidnight

/-- The moment that lies `k` steps after `start`, whether the calendar has it or not. -/
def moment (step : UniformStep) (start : Timestamp) (k : Nat) : Timestamp :=
  match step with
  | seconds n => ⟨start.nanos + n * k * secondNanos⟩
  | months n =>
    .ofDate (start.date.onMonth (start.date.monthNumber + (n * k : Nat))) start.sinceMidnight

/-- The shortest length that a step can have. -/
def shortest : UniformStep → Int
  | seconds n => n * secondNanos
  | months n => n * 28 * dayNanos

theorem isStepsAfter_iff : step.IsStepsAfter start k t ↔ t = step.moment start k := by
  cases step with
  | seconds n => exact Timestamp.ext_iff.symm
  | months n =>
    rw [moment, Timestamp.eq_ofDate_iff start.sinceMidnight_mem, IsStepsAfter,
      Date.isMonthsLater_iff]

@[simp] theorem moment_zero (step : UniformStep) (start : Timestamp) :
    step.moment start 0 = start := by
  rw [eq_comm, ← isStepsAfter_iff]
  cases step with
  | seconds n => simp [IsStepsAfter]
  | months n =>
    refine ⟨Date.isMonthsLater_iff.mpr ?_, rfl⟩
    simp

theorem shortest_pos (h : step.Proper) : 0 < step.shortest := by
  cases step with
  | seconds n | months n =>
    have hn : 1 ≤ n := h
    simp only [shortest, secondNanos, dayNanos]
    omega

/-- Moments that are a number of steps apart are apart by as many shortest steps at least. -/
theorem shortest_mul_le (step : UniformStep) (start : Timestamp) (k j : Nat) :
    step.shortest * j ≤ (step.moment start (k + j)).since (step.moment start k) := by
  cases step with
  | seconds n =>
    apply le_of_eq
    simp only [shortest, moment, Timestamp.since]
    push_cast
    ring
  | months n =>
    have hweeks := start.date.fourWeeks_mul_le (start.date.monthNumber + (n * k : Nat)) (n * j)
    rw [add_assoc, ← Nat.cast_add, ← Nat.mul_add] at hweeks
    simp only [shortest, moment, Timestamp.since, Timestamp.ofDate, dayNanos]
    push_cast at *
    nlinarith

theorem moment_strictMono (h : step.Proper) : StrictMono (step.moment start) := by
  refine strictMono_nat_of_lt_succ fun k => ?_
  have hle := step.shortest_mul_le start k 1
  have hpos := shortest_pos h
  rw [Timestamp.lt_iff]
  simp only [Timestamp.since, Nat.cast_one, mul_one] at hle
  omega

/-- The moments up to `finish` are those with small numbers, and the loop is run long enough to get
past them. -/
theorem exists_count (h : step.Proper) (start finish : Timestamp) :
    ∃ n, (∀ k, step.moment start k ≤ finish ↔ k < n) ∧ n < step.bound start finish := by
  have hpos := shortest_pos h
  have hbound : step.bound start finish = (finish.since start / step.shortest).toNat + 2 := by
    cases step <;> rfl
  -- One step more than the shortest steps that fit in between leads past the end.
  have hpast : finish < step.moment start ((finish.since start / step.shortest).toNat + 1) := by
    have hle := step.shortest_mul_le start 0 ((finish.since start / step.shortest).toNat + 1)
    have hdiv := Int.lt_mul_ediv_self_add (x := finish.since start) hpos
    have hself := Int.self_le_toNat (finish.since start / step.shortest)
    rw [moment_zero, Nat.zero_add] at hle
    rw [Timestamp.lt_iff]
    simp only [Timestamp.since] at *
    push_cast at hle
    nlinarith
  have hex : ∃ k, finish < step.moment start k := ⟨_, hpast⟩
  refine ⟨Nat.find hex, fun k => ?_, ?_⟩
  · constructor
    · intro hle
      refine not_le.mp fun hk => absurd hle (not_le.mpr ?_)
      exact lt_of_lt_of_le (Nat.find_spec hex) ((moment_strictMono h).monotone hk)
    · intro hk
      exact not_lt.mp (Nat.find_min hex hk)
  · have hmin := Nat.find_min' hex hpast
    omega

/-! ## The loop -/

theorem monthsLater?_eq_some {d e : Date} {n : Nat} : monthsLater? d n = some e ↔
    n < Nat.pow 2 31 ∧ d.onMonth (d.monthNumber + n) = e ∧ e.inCalendar = true := by
  have hmonth := d.civil_month_mem
  have hday := d.civil_day_mem.1
  unfold monthsLater?
  dsimp only
  generalize hyear : d.civil.year + (((d.civil.month - 1 + n) / 12 : Nat) : Int) = year
  generalize hplace : (d.civil.month - 1 + n) % 12 + 1 = month
  have hnumber : d.monthNumber + n = 12 * year + month := by
    rw [Date.monthNumber]
    omega
  have hone : 1 ≤ month := by omega
  have htwelve : month ≤ 12 := by omega
  have hsame : (Date.ofCivil ⟨year, month, min d.civil.day (Calendar.daysInMonth year month)⟩).day =
      (d.onMonth (d.monthNumber + n)).day := by
    rw [Date.ofCivil_day, Date.day_onMonth, hnumber, Date.monthBegin_next year hone htwelve,
      Date.monthBegin_of_month year hone htwelve]
    dsimp only
    omega
  have hclip : Date.ofCivil ⟨year, month, min d.civil.day (Calendar.daysInMonth year month)⟩ =
      d.onMonth (d.monthNumber + n) := congrArg Date.mk hsame
  have hdays := Calendar.one_le_daysInMonth year month
  split
  next hn =>
    rw [Date.ofYmd?_eq_some_iff hone htwelve (le_min hday hdays) (min_le_right _ _), hclip]
    simp [hn]
  next hn => simp [hn]

theorem moment_of_advance? (h : step.advance? start k = some t) : step.moment start k = t := by
  cases step with
  | seconds n =>
    unfold advance? at h
    dsimp only at h
    split at h
    · exact Timestamp.ext (Timestamp.plus?_eq_some h).symm
    · cases h
  | months n =>
    obtain ⟨d, hd, rfl⟩ := Option.map_eq_some_iff.mp h
    obtain ⟨-, rfl, -⟩ := monthsLater?_eq_some.mp hd
    rfl

/-- Moments of the calendar are found, if their number is one that can be counted. -/
theorem advance?_of_inCalendar (hstart : start.date.inCalendar = true) (hk : k < Nat.pow 2 31)
    (hin : (step.moment start k).date.inCalendar = true) :
    step.advance? start k = some (step.moment start k) := by
  cases step with
  | seconds n =>
    unfold advance?
    dsimp only
    rw [if_pos hk]
    exact Timestamp.plus?_eq_some_iff.mpr ⟨rfl, hin⟩
  | months n =>
    have hdate : (moment (months n) start k).date =
        start.date.onMonth (start.date.monthNumber + (n * k : Nat)) :=
      ((Timestamp.eq_ofDate_iff start.sinceMidnight_mem).mp rfl).1
    rw [hdate] at hin
    have hn := Date.months_lt_of_inCalendar hstart hin
    unfold advance?
    dsimp only
    rw [monthsLater?_eq_some.mpr ⟨hn, rfl, hin⟩]
    rfl

/-- The loop collects the moments before the `n`-th, if it finds all of them and is run long enough. -/
theorem momentsGo_eq {n : Nat}
    (hfind : ∀ k < n, step.advance? start k = some (step.moment start k) ∧
      step.moment start k ≤ finish)
    (hend : ∀ t, step.advance? start n = some t → finish < t) :
    ∀ (fuel count : Nat) (acc : List Timestamp), count ≤ n → n < count + fuel →
      step.momentsGo start finish fuel count acc =
        acc.reverse ++ (List.range' count (n - count)).map (step.moment start)
  | 0, count, acc, hle, hfuel => by omega
  | fuel + 1, count, acc, hle, hfuel => by
    unfold momentsGo
    -- The loop goes on before the `n`-th moment and ends there, in the calendar or not.
    rcases Nat.lt_or_eq_of_le hle with hlt | rfl
    · obtain ⟨hadvance, hinside⟩ := hfind count hlt
      obtain ⟨m, hm⟩ : ∃ m, n - count = m + 1 := ⟨n - count - 1, by omega⟩
      rw [hadvance]
      dsimp only
      rw [if_neg (not_lt.mpr hinside), momentsGo_eq hfind hend fuel (count + 1) _ hlt (by omega),
        hm, List.range'_succ, show n - (count + 1) = m by omega]
      simp
    · rw [Nat.sub_self]
      cases hadvance : step.advance? start count with
      | none => simp
      | some t => simp [hend t hadvance]

/-- Whatever the calendar and the counts reach, the loop collects the first moments. -/
theorem exists_moments_eq (h : step.Proper) (start finish : Timestamp) :
    ∃ n, step.moments start finish = (List.range n).map (step.moment start) := by
  obtain ⟨last, hlast, hbound⟩ := exists_count h start finish
  have hpast : ∀ t, step.advance? start last = some t → finish < t := by
    refine fun t ht => not_le.mp fun hle => ?_
    rw [← moment_of_advance? ht, hlast] at hle
    exact lt_irrefl last hle
  -- The loop ends at the first number of steps that is not found or leads past the end.
  have hex : ∃ k, ∀ t, step.advance? start k = some t → finish < t := ⟨last, hpast⟩
  classical
  have hfirst : Nat.find hex ≤ last := Nat.find_min' hex hpast
  refine ⟨Nat.find hex, ?_⟩
  have hfind : ∀ k < Nat.find hex, step.advance? start k = some (step.moment start k) ∧
      step.moment start k ≤ finish := by
    intro k hk
    have hnot := Nat.find_min hex hk
    push Not at hnot
    obtain ⟨t, ht, hle⟩ := hnot
    obtain rfl := moment_of_advance? ht
    exact ⟨ht, hle⟩
  rw [moments, momentsGo_eq hfind (Nat.find_spec hex) _ 0 [] (Nat.zero_le _) (by omega), Nat.sub_zero,
    List.range_eq_range', List.reverse_nil, List.nil_append]

/-! ## Series -/

/-- The series with one value at the first `n` moments. -/
def series {α : Type} (step : UniformStep) (start : Timestamp) (value : α) (n : Nat) :
    TimeSeries α :=
  ⟨(List.range n).map fun k => (step.moment start k, some value)⟩

section Series

variable {α : Type} (value : α) (n : Nat)

theorem index_series : (step.series start value n).index = (List.range n).map (step.moment start) := by
  simp [series, TimeSeries.index]

theorem valid_series : (step.series start value n).valid =
    (List.range n).map fun k => (step.moment start k, value) := by
  simp [series, TimeSeries.valid]

theorem increasing_series (h : step.Proper) : Increasing (step.series start value n).index := by
  rw [index_series]
  exact List.pairwise_map.mpr (List.pairwise_lt_range.imp fun hlt => moment_strictMono h hlt)

/-- The series has no gaps, at its ends or elsewhere. -/
theorem trimmed_series (h : step.Proper) :
    (step.series start value n).trimmed = step.series start value n := by
  refine TimeSeries.trimmed_of_full (increasing_series value n h) ?_
  rw [valid_series, index_series, List.map_map]
  rfl

/-- The moments are whole seconds if the first one is. -/
theorem nanosecond_moment (h : start.nanosecond = 0) (k : Nat) :
    (step.moment start k).nanosecond = 0 := by
  cases step with
  | seconds n =>
    rw [Timestamp.nanosecond_eq_zero_iff] at *
    rw [moment, Int.add_mul_emod_self_right]
    exact h
  | months n =>
    have hclock : (moment (months n) start k).sinceMidnight = start.sinceMidnight :=
      ((Timestamp.eq_ofDate_iff start.sinceMidnight_mem).mp rfl).2
    rw [Timestamp.nanosecond, hclock]
    exact h

/-- A fixed step that is inferred from the moments is not longer than the shortest step. -/
theorem fixed_le_shortest (h : step.Proper) {length : Int}
    (hinfer : (step.series start value n).frequency = .fixed length) :
    length * secondNanos ≤ step.shortest := by
  cases step with
  | seconds m =>
    obtain ⟨_, _, rest, hindex⟩ := Frequency.two_of_infer_fixed hinfer
    have hapart := Frequency.apart_of_infer_fixed hinfer (increasing_series value n h)
    rw [index_series] at hindex hapart
    obtain ⟨n, rfl⟩ : ∃ i, n = i + 2 := by
      have hlength := congrArg List.length hindex
      simp only [List.length_map, List.length_range, List.length_cons] at hlength
      exact ⟨rest.length, hlength⟩
    -- The first two moments are one step apart.
    rw [List.pairwise_map, List.range_succ_eq_map] at hapart
    have hsecond : 1 ∈ (List.range (n + 1)).map Nat.succ := by simp
    have hfirst := List.rel_of_pairwise_cons hapart hsecond
    simpa [moment, shortest, Timestamp.since] using hfirst
  | months m =>
    have hm : 1 ≤ m := h
    have hmonth := (Frequency.fixedStep?_eq_some (Frequency.infer_eq_fixed hinfer)).2.1
    simp only [shortest, Frequency.monthLike, secondNanos, dayNanos] at *
    omega

/-- If the calendar goes on for a step after a moment, it has room for a step of the inferred frequency
after all moments before. -/
theorem hasRoom_series (h : step.Proper) (hstart : start.date.inCalendar = true)
    (hroom : (step.moment finish 1).date.inCalendar = true) (hafter : start ≤ t)
    (hbefore : t ≤ finish) : (step.series start value n).frequency.HasRoom t := by
  cases hinfer : (step.series start value n).frequency with
  | fixed length =>
    have hshort := fixed_le_shortest value n h hinfer
    have hpos := (Frequency.fixedStep?_eq_some (Frequency.infer_eq_fixed hinfer)).1
    have hstep := step.shortest_mul_le finish 0 1
    rw [moment_zero, Nat.zero_add, Nat.cast_one, mul_one] at hstep
    refine Timestamp.plus?_isSome.mpr (Timestamp.inCalendar_of_between hstart hroom ?_ ?_)
    all_goals
      simp only [Timestamp.le_iff, Timestamp.since, secondNanos] at *
      omega
  -- The other grids end with the calendar, without a fault.
  | _ => trivial

end Series

/-- The first `n` moments are those from `start` to `finish`, which the calendar has. -/
structure Fills (step : UniformStep) (start finish : Timestamp) (n : Nat) : Prop where
  proper : step.Proper
  le : start ≤ finish
  start_mem : start.date.inCalendar = true
  finish_mem : finish.date.inCalendar = true
  count : ∀ k, step.moment start k ≤ finish ↔ k < n

namespace Fills

variable {n : Nat}

theorem pos (h : step.Fills start finish n) : 0 < n := (h.count 0).mp (by simpa using h.le)

theorem bounds (h : step.Fills start finish n) (hk : k < n) :
    start ≤ step.moment start k ∧ step.moment start k ≤ finish := by
  have hmono : StrictMono (step.moment start) := moment_strictMono h.proper
  have hfirst := hmono.monotone (Nat.zero_le k)
  exact ⟨by simpa using hfirst, (h.count k).mpr hk⟩

theorem inCalendar (h : step.Fills start finish n) (hk : k < n) :
    (step.moment start k).date.inCalendar = true :=
  Timestamp.inCalendar_of_between h.start_mem h.finish_mem (h.bounds hk).1 (h.bounds hk).2

/-- The loop finds all moments, if they can be counted. -/
theorem moments_eq (h : step.Fills start finish n) (hbound : n < step.bound start finish)
    (hcount : n ≤ Nat.pow 2 31) :
    step.moments start finish = (List.range n).map (step.moment start) := by
  have hfind : ∀ k < n, step.advance? start k = some (step.moment start k) ∧
      step.moment start k ≤ finish := fun k hk =>
    ⟨advance?_of_inCalendar h.start_mem (Nat.lt_of_lt_of_le hk hcount) (h.inCalendar hk),
      (h.bounds hk).2⟩
  have hend : ∀ t, step.advance? start n = some t → finish < t := by
    intro t ht
    rw [← moment_of_advance? ht, ← not_le, h.count]
    exact lt_irrefl n
  rw [moments, momentsGo_eq hfind hend _ 0 [] (Nat.zero_le n) (by omega), Nat.sub_zero,
    List.range_eq_range', List.reverse_nil, List.nil_append]

end Fills

end UniformStep

/-- A uniform series has a point at each moment that lies a number of steps after its start and not
after its end, if the calendar has both and the steps can be counted. -/
theorem TimeSeries.uniform_eq_ok {α : Type} {step : UniformStep} {start finish : Timestamp}
    (value : α) (h : step.Proper) (hle : start ≤ finish) (hstart : start.date.inCalendar = true)
    (hfinish : finish.date.inCalendar = true)
    (hcount : ∀ k, step.moment start k ≤ finish → k < Nat.pow 2 31) :
    ∃ n, step.Fills start finish n ∧
      TimeSeries.uniform step start finish value = .ok (step.series start value n) := by
  obtain ⟨n, hn, hbound⟩ := UniformStep.exists_count h start finish
  have hfills : step.Fills start finish n := ⟨h, hle, hstart, hfinish, hn⟩
  have hlast : n ≤ Nat.pow 2 31 := by
    have hpos := hfills.pos
    have hbelow := hcount (n - 1) ((hn (n - 1)).mpr (by omega))
    omega
  refine ⟨n, hfills, ?_⟩
  rw [TimeSeries.uniform, TimeSeries.ofValues, hfills.moments_eq hbound hlast, List.map_map,
    List.map_map]
  exact TimeSeries.ofPoints_of_increasing (UniformStep.increasing_series value n h)

/-- Steps that lead forward make a series, however far the calendar and the counts reach. -/
theorem TimeSeries.exists_uniform {α : Type} {step : UniformStep} (h : step.Proper)
    (start finish : Timestamp) (value : α) :
    ∃ n, TimeSeries.uniform step start finish value = .ok (step.series start value n) := by
  obtain ⟨n, hmoments⟩ := UniformStep.exists_moments_eq h start finish
  refine ⟨n, ?_⟩
  rw [TimeSeries.uniform, TimeSeries.ofValues, hmoments, List.map_map, List.map_map]
  exact TimeSeries.ofPoints_of_increasing (UniformStep.increasing_series value n h)

end Hydroseries
