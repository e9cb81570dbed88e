import Hydroseries.Command.Shaping
import Hydroseries.Proofs.Command.Effects
import Hydroseries.Proofs.Decimal.Value
import Hydroseries.Proofs.Outcome
import Hydroseries.Proofs.Run.Execution
import Hydroseries.Proofs.Series.Uniform
import Hydroseries.Proofs.Store.ReadBack

/-!
# Uniform series in the store

The command for a uniform series succeeds under every free name, and what is read of the new series are
the points that the block asks for (`grid_of_run`). Its moments are whole seconds of the calendar, and
so nothing is lost on the grid of whatever frequency is inferred from them.
-/

namespace Hydroseries

/-- Whole seconds after a midnight are whole seconds. -/
theorem Timestamp.whole_of_plus? {d : Date} {n : Nat} {t : Timestamp}
    (h : (ofDate d 0).plus? (n * secondNanos) = some t) :
    t.date.inCalendar = true ∧ t.nanosecond = 0 := by
  obtain ⟨rfl, hin⟩ := plus?_eq_some_iff.mp h
  refine ⟨hin, nanosecond_eq_zero_iff.mpr ?_⟩
  simp only [ofDate, dayNanos, secondNanos]
  omega

/-- A date with a time of day is a whole second of the calendar. -/
theorem DateFormat.whole_of_combine {format : DateFormat} {date : String} {time : Option String}
    {t : Timestamp} (h : format.combine date time = .ok t) :
    t.date.inCalendar = true ∧ t.nanosecond = 0 := by
  obtain ⟨day, -, h⟩ := bind_eq_ok.mp h
  dsimp only at h
  -- A time of day that is given may be blank.
  split at h
  on_goal 1 => split at h
  all_goals
    obtain ⟨clock, -, h⟩ := bind_eq_ok.mp h
    split at h
    next hplus => exact Except.ok.inj h ▸ Timestamp.whole_of_plus? hplus
    next => cases h

/-- A uniform series of whole seconds can be joined under a free name if the calendar goes on for a
step after its end, and is then read as it is. -/
theorem Store.Aligned.exists_join_uniform {st : Store} {name : EntityName} {step : UniformStep}
    {start finish : Timestamp} {n : Nat} (hst : st.Aligned) (hfree : st.series.find? name = none)
    (h : step.Fills start finish n) (hwhole : start.nanosecond = 0)
    (hroom : (step.moment finish 1).date.inCalendar = true) (value : Double) :
    ∃ st' a, st.joinSeries name (step.series start value n) = .ok st' ∧
      st'.getSeries name = .ok a ∧ a.valid = (step.series start value n).valid := by
  have hmoment : ∀ t ∈ (step.series start value n).index, ∃ k < n, step.moment start k = t := by
    simp [UniformStep.index_series]
  apply hst.exists_join hfree (UniformStep.increasing_series value n h.proper)
  · simp [UniformStep.valid_series, Nat.ne_of_gt h.pos]
  · intro t ht
    obtain ⟨k, -, rfl⟩ := hmoment t ht
    exact UniformStep.nanosecond_moment hwhole k
  · intro t ht
    obtain ⟨k, hk, rfl⟩ := hmoment t ht
    exact h.inCalendar hk
  · intro t ht
    rw [TimeSeries.getLast?_valid_map] at ht
    have hindex := (step.series start value n).valid_map_fst_sublist.mem (List.mem_of_getLast? ht)
    obtain ⟨k, hk, rfl⟩ := hmoment t hindex
    -- The frequency is inferred from what is left by trimming, which is everything.
    rw [UniformStep.trimmed_series value n h.proper]
    exact UniformStep.hasRoom_series value n h.proper h.start_mem hroom (h.bounds hk).1 (h.bounds hk).2

namespace Command.NewSeriesUniform

open Stateful (exec exec_bind_outcome_eq_ok)

variable {c : NewSeriesUniform} {p : Params} {dates : DateFormat} {ses ses' : Session}

/-- What a block says that is accepted. -/
structure Accepted (c : NewSeriesUniform) (p : Params) : Prop where
  start_le : c.start ≤ c.finish
  start_mem : c.start.date.inCalendar = true
  finish_mem : c.finish.date.inCalendar = true
  start_whole : c.start.nanosecond = 0
  /-- The step has the length that the block gives. -/
  step : ∃ unit n, p.text "time_unit" = .ok unit ∧
    p.number Params.asWord32 "time_interval" = .ok n ∧ c.step.Counts unit n

theorem accepted_of_ofParams (h : ofParams p dates = .ok c) : c.Accepted p := by
  obtain ⟨start, hstart, h⟩ := bind_eq_ok.mp h
  obtain ⟨finish, hfinish, h⟩ := bind_eq_ok.mp h
  obtain ⟨_, -, hstart⟩ := bind_eq_ok.mp hstart
  obtain ⟨_, -, hfinish⟩ := bind_eq_ok.mp hfinish
  dsimp only at h
  split at h
  · cases h
  next hle =>
    obtain ⟨_, -, h⟩ := bind_eq_ok.mp h
    obtain ⟨_, -, h⟩ := bind_eq_ok.mp h
    obtain ⟨unit, hunit, h⟩ := bind_eq_ok.mp h
    obtain ⟨n, hn, h⟩ := bind_eq_ok.mp h
    obtain ⟨step, hstep, h⟩ := bind_eq_ok.mp h
    obtain rfl := Except.ok.inj h
    obtain ⟨hstartin, hwhole⟩ := DateFormat.whole_of_combine hstart
    exact ⟨not_lt.mp hle, hstartin, (DateFormat.whole_of_combine hfinish).1, hwhole, unit, n, hunit, hn,
      UniformStep.counts_of_read hstep⟩

/-- A run makes the uniform series and joins it. -/
theorem exec_run_eq_ok : exec c.run ses = (.ok (), ses') ↔
    ∃ new st, TimeSeries.uniform c.step c.start c.finish c.value = .ok new ∧
      ses.store.joinSeries c.name new = .ok st ∧ { ses with store := st } = ses' := by
  simp only [run, exec_bind_outcome_eq_ok, Action.joinSeries, Action.exec_changeStore]
  refine exists_congr fun new => ?_
  cases ses.store.joinSeries c.name new <;> simp

/-- Whatever the store holds, an accepted block makes its whole series, if its steps can be counted in
31 bits and the calendar goes on for one of them after the end. The command succeeds under every free
name, and the values read of the new series stand, each once, at exactly the moments that lie any number
of steps after the start and do not pass the end. Steps of months and years are counted from the start,
on its day or the last one of a short month, so a short month does not shift later moments. -/
theorem grid_of_run {last : EntityName → Option Series} (hst : Store.History ses.store last)
    (hc : ofParams p dates = .ok c)
    (hcount : ∀ k t, c.step.IsStepsAfter c.start k t → t ≤ c.finish → k < 2 ^ 31)
    (hroom : ∃ t, c.step.IsStepsAfter c.finish 1 t ∧ t.date.inCalendar = true)
    (hfree : ses.store.series.contains c.name = false) :
    (∃ unit n, p.text "time_unit" = .ok unit ∧
      p.number Params.asWord32 "time_interval" = .ok n ∧ c.step.Counts unit n) ∧
    ∃ ses' a, exec c.run ses = (.ok (), ses') ∧ ses'.store.getSeries c.name = .ok a ∧
      Increasing (a.valid.map Prod.fst) ∧
      ∀ t v, (t, v) ∈ a.valid ↔
        (∃ k, c.step.IsStepsAfter c.start k t) ∧ t ≤ c.finish ∧ v = c.value := by
  have hblock := accepted_of_ofParams hc
  obtain ⟨_, _, -, -, hcounts⟩ := hblock.step
  obtain ⟨n, hfills, hseries⟩ := TimeSeries.uniform_eq_ok c.value hcounts.proper hblock.start_le
    hblock.start_mem hblock.finish_mem fun k => hcount k _ (UniformStep.isStepsAfter_iff.mpr rfl)
  obtain ⟨_, hnext, hcalendar⟩ := hroom
  rw [UniformStep.isStepsAfter_iff.mp hnext] at hcalendar
  rw [OrderedMap.contains_eq, Option.isSome_eq_false_iff, Option.isNone_iff_eq_none] at hfree
  obtain ⟨st, a, hjoin, ha, hvalid⟩ :=
    hst.aligned.exists_join_uniform hfree hfills hblock.start_whole hcalendar c.value
  refine ⟨hblock.step, { ses with store := st }, a,
    exec_run_eq_ok.mpr ⟨_, st, hseries, hjoin, rfl⟩, ha, ?_, fun t v => ?_⟩
  · rw [hvalid]
    exact TimeSeries.increasing_valid (UniformStep.increasing_series c.value n hfills.proper)
  · rw [hvalid, UniformStep.valid_series]
    simp only [List.mem_map, List.mem_range, ← hfills.count, Prod.mk.injEq,
      UniformStep.isStepsAfter_iff]
    constructor
    · rintro ⟨k, hk, rfl, rfl⟩
      exact ⟨⟨k, rfl⟩, hk, rfl⟩
    · rintro ⟨⟨k, rfl⟩, hk, rfl⟩
      exact ⟨k, hk, rfl, rfl⟩

/-- A block for one value a month, from the end of January of a leap year on. -/
def leapMonths : Params := .ofPairs "NEW_SERIES_UNIFORM" 1
  [("new_series_name", .scalar "monthly"), ("new_series_value", .scalar "2"),
    ("time_unit", .scalar "months"), ("time_interval", .scalar "1"),
    ("date_1", .scalar "2020-01-31"), ("date_2", .scalar "2020-04-29")]

local instance : DecidableEq Double := Double.sameBits

theorem ofParams_leapMonths : ofParams leapMonths .iso = .ok ⟨⟨"MONTHLY"⟩, 2, .months 1,
    .ofDate (.ofCivil ⟨2020, 1, 31⟩) 0, .ofDate (.ofCivil ⟨2020, 4, 29⟩) 0⟩ := by
  have hsays : (ofParams leapMonths .iso).toOption.map
      (fun c => (c.name, c.value, c.step, c.start, c.finish)) =
    some (⟨"MONTHLY"⟩, 2, .months 1, .ofDate (.ofCivil ⟨2020, 1, 31⟩) 0,
      .ofDate (.ofCivil ⟨2020, 4, 29⟩) 0) := by decide +kernel
  obtain ⟨⟨name, value, step, start, finish⟩, hc, hsays⟩ := ok_of_toOption_map hsays
  rw [hc]
  simpa using hsays

theorem grid_of_leapMonths : ∃ c ses' a, ofParams leapMonths .iso = .ok c ∧
    exec c.run Run.newSession = (.ok (), ses') ∧ ses'.store.getSeries ⟨"MONTHLY"⟩ = .ok a ∧
      (.ofDate (.ofCivil ⟨2020, 2, 29⟩) 0, 2) ∈ a.valid ∧
      (.ofDate (.ofCivil ⟨2020, 3, 31⟩) 0, 2) ∈ a.valid ∧
      (.ofDate (.ofCivil ⟨2020, 4, 30⟩) 0, 2) ∉ a.valid := by
  have hc := ofParams_leapMonths
  have hcount : ∀ k t, UniformStep.IsStepsAfter (.months 1) (.ofDate (.ofCivil ⟨2020, 1, 31⟩) 0) k t →
      t ≤ .ofDate (.ofCivil ⟨2020, 4, 29⟩) 0 → k < 2 ^ 31 := by
    intro k t hk ht
    obtain rfl := UniformStep.isStepsAfter_iff.mp hk
    have hlong := (UniformStep.months 1).shortest_mul_le (.ofDate (.ofCivil ⟨2020, 1, 31⟩) 0) 0 k
    have hdays : (Timestamp.ofDate (.ofCivil ⟨2020, 4, 29⟩) 0).since
      (.ofDate (.ofCivil ⟨2020, 1, 31⟩) 0) = 89 * Timestamp.dayNanos := by decide
    rw [UniformStep.moment_zero, Nat.zero_add] at hlong
    simp only [UniformStep.shortest, Timestamp.since, Timestamp.le_iff, Timestamp.dayNanos] at *
    omega
  have hst : Store.History Run.newSession.store _ := Store.History.empty
  obtain ⟨-, ses', a, hrun, ha, -, hpoints⟩ :=
    grid_of_run hst hc hcount ⟨_, UniformStep.isStepsAfter_iff.mpr rfl, by decide +kernel⟩ rfl
  refine ⟨_, ses', a, hc, hrun, ha, ?_, ?_, ?_⟩
  · rw [hpoints]
    exact ⟨⟨1, UniformStep.isStepsAfter_iff.mpr (by decide +kernel)⟩, by decide +kernel, rfl⟩
  · rw [hpoints]
    exact ⟨⟨2, UniformStep.isStepsAfter_iff.mpr (by decide +kernel)⟩, by decide +kernel, rfl⟩
  · rw [hpoints]
    rintro ⟨-, hlate, -⟩
    exact absurd hlate (by decide +kernel)

end Command.NewSeriesUniform

end Hydroseries
