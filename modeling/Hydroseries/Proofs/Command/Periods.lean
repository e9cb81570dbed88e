import Hydroseries.Command.Statistics
import Hydroseries.Proofs.Command.Effects
import Hydroseries.Proofs.DataFile.Columns
import Hydroseries.Proofs.Decimal.Value
import Hydroseries.Proofs.Run.Execution
import Hydroseries.Proofs.Stat.Period
import Hydroseries.Proofs.Store.ReadBack
import Mathlib.Data.List.Permutation

/-!
# Statistics of periods in the store

The new series of a command for statistics of periods has one point for each period, which is read
again as it was made: moments at midnight are whole seconds, and nothing is lost on the way into the
store and back (`points_of_run`).
-/

namespace Hydroseries.Command.PeriodStatistics

open Stateful (exec exec_bind exec_bind_outcome exec_bind_outcome_eq_ok)

variable {c : PeriodStatistics} {p : Params} {dates : DateFormat} {ses ses' : Session}
  {source new : Series}

theorem yearEnds_months : ∀ e ∈ yearEnds, 1 ≤ e.2 ∧ e.2 ≤ 12 := by decide

/-- All types of years end with a month of the calendar. -/
theorem proper_of_readPeriod {period : Period} (h : readPeriod p = .ok period) : period.Proper := by
  obtain ⟨word, -, h⟩ := bind_eq_ok.mp h
  split at h
  · obtain rfl := Except.ok.inj h
    trivial
  · obtain rfl := Except.ok.inj h
    trivial
  · obtain ⟨kind, -, h⟩ := bind_eq_ok.mp h
    obtain rfl := Except.ok.inj h
    show 1 ≤ _ ∧ _ ≤ 12
    cases hfind : yearEnds.lookup (kind.getD "water_high") with
    | none => exact ⟨(by decide : 1 ≤ 12), le_refl 12⟩
    | some m =>
      obtain ⟨before, after, hends, -⟩ := List.lookup_eq_some_iff.mp hfind
      exact yearEnds_months (kind.getD "water_high", m) (by simp [hends])

theorem proper_of_ofParams (h : ofParams p dates = .ok c) : c.period.Proper := by
  obtain ⟨period, hperiod, h⟩ := bind_eq_ok.mp h
  obtain ⟨_, -, h⟩ := bind_eq_ok.mp h
  obtain ⟨_, -, h⟩ := bind_eq_ok.mp h
  obtain ⟨_, -, h⟩ := bind_eq_ok.mp h
  obtain ⟨_, -, h⟩ := bind_eq_ok.mp h
  obtain ⟨_, -, h⟩ := bind_eq_ok.mp h
  obtain ⟨_, -, h⟩ := bind_eq_ok.mp h
  obtain rfl := Except.ok.inj h
  exact proper_of_readPeriod hperiod

/-- The new series is the points of the periods of the prepared values. -/
theorem series_eq_ok (hp : c.period.Proper) (h : c.series source = .ok new) :
    ∃ s, c.preparation.apply source = .ok s ∧
      new = ⟨(c.period.keys (c.period.groups s.valid)).map
        (c.period.point c.stamp c.statistic s.valid)⟩ ∧
      ∀ t ∈ new.index, t.date.inCalendar = true := by
  obtain ⟨s, hs, h⟩ := bind_eq_ok.mp h
  refine ⟨s, hs, ?_⟩
  dsimp only at h
  split at h
  · obtain ⟨_, hthrow, -⟩ := bind_eq_ok.mp h
    cases hthrow
  · obtain ⟨table, htable, h⟩ := bind_eq_ok.mp h
    obtain ⟨rfl, hcalendar⟩ := Period.statistics_eq_ok hp htable
    rw [TimeSeries.ofPoints_of_increasing (Period.increasing_points hp)] at h
    obtain rfl := Except.ok.inj h
    refine ⟨rfl, fun t ht => ?_⟩
    obtain ⟨e, he, rfl⟩ := List.mem_map.mp ht
    exact hcalendar e he

/-- A run makes the new series of the source and joins it. -/
theorem exec_run_eq_ok : exec c.run ses = (.ok (), ses') ↔
    ∃ source new st, ses.store.getSeries c.source = .ok source ∧ c.series source = .ok new ∧
      ses.store.joinSeries c.name new = .ok st ∧ { ses with store := st } = ses' := by
  rw [run, Action.exec_getSeries_bind]
  cases ses.store.getSeries c.source with
  | error fault => simp
  | ok source =>
    simp only [exec_bind_outcome_eq_ok, Action.joinSeries, Action.exec_changeStore,
      Except.ok.injEq, exists_and_left, exists_eq_left']
    refine exists_congr fun new => and_congr_right fun _ => ?_
    cases ses.store.joinSeries c.name new <;> simp

/-- Whatever the store holds, if the command succeeds, each value left by the preparation lies in
exactly one of the periods, which follow each other without a gap from the first one with values to
the last one; pooled months are those with values. The new series has one point for each period, at
the midnight of its first or last day: the statistic of exactly the values on the days of the period,
which is missing if there are none. It is read with all of these points that have a value. -/
theorem points_of_run {last : EntityName → Option Series} (hst : Store.History ses.store last)
    (hc : ofParams p dates = .ok c) (h : exec c.run ses = (.ok (), ses')) :
    ∃ source s periods a, ses.store.getSeries c.source = .ok source ∧
      c.preparation.apply source = .ok s ∧
      c.period.Spans (s.valid.map fun q => q.1.date) periods ∧
      let new : Series := ⟨periods.map (c.period.point c.stamp c.statistic s.valid)⟩
      Increasing new.index ∧
      (∀ k ∈ periods, c.period.valuesIn k s.valid = [] →
        (Timestamp.ofDate (c.period.stampDay c.stamp k) 0, none) ∈ new.points) ∧
      ses.store.joinSeries c.name new = .ok ses'.store ∧
      ses'.store.getSeries c.name = .ok a ∧ a.valid = new.valid := by
  have hp := proper_of_ofParams hc
  obtain ⟨source, new, st, hsource, hnew, hjoin, rfl⟩ := exec_run_eq_ok.mp h
  obtain ⟨s, hs, rfl, hcalendar⟩ := series_eq_ok hp hnew
  have hincreasing : Increasing (TimeSeries.index
      ⟨(c.period.keys (c.period.groups s.valid)).map
        (c.period.point c.stamp c.statistic s.valid)⟩) := Period.increasing_points hp
  have hwhole : ∀ t ∈ TimeSeries.index ⟨(c.period.keys (c.period.groups s.valid)).map
      (c.period.point c.stamp c.statistic s.valid)⟩, t.nanosecond = 0 := by
    intro t ht
    obtain ⟨e, he, rfl⟩ := List.mem_map.mp ht
    obtain ⟨k, -, rfl⟩ := List.mem_map.mp he
    exact Timestamp.nanosecond_midnight _
  obtain ⟨a, ha, hvalid⟩ := (Store.keeps_of_join hst.aligned hincreasing hjoin).getSeries_of_whole
    (hst.aligned.of_join hincreasing hjoin) hwhole hcalendar
  refine ⟨source, s, _, a, hsource, hs, Period.spans_keys hp, hincreasing, fun k hk hnone => ?_,
    hjoin, ha, hvalid⟩
  refine List.mem_map.mpr ⟨k, hk, ?_⟩
  rw [Period.point, hnone, Period.value?_nil]

/-- Three days around the end of January 1970. -/
def newMonth : Series :=
  ⟨[(.ofDate ⟨29⟩ 0, some 2), (.ofDate ⟨30⟩ 0, some 4), (.ofDate ⟨31⟩ 0, some 6)]⟩

def newMonthSession : Session :=
  { Run.newSession with store := (Store.Call.join ⟨"FLOW"⟩ newMonth).after .empty }

/-- A block for the means of months. -/
def monthlyMeans : Params := .ofPairs "PERIOD_STATISTICS" 1
  [("series_name", .scalar "flow"), ("new_series_name", .scalar "monthly"),
    ("statistic", .scalar "mean"), ("period", .scalar "month_many"),
    ("time_abscissa", .scalar "start")]

local instance : DecidableEq Double := Double.sameBits

theorem groups_newMonth (x y z : Double) :
    Period.months.groups [(.ofDate ⟨29⟩ 0, x), (.ofDate ⟨30⟩ 0, y), (.ofDate ⟨31⟩ 0, z)] =
      [((1970, 1), [x, y]), ((1970, 2), [z])] := by
  cbv

/-- The months of `newMonth` and their means. -/
def newMonthMeans : List (Timestamp × Option Double) :=
  [(.ofDate ⟨0⟩ 0, some 3), (.ofDate ⟨31⟩ 0, some 6)]

theorem statistics_newMonth :
    Period.months.statistics .start .mean newMonth.valid = .ok newMonthMeans := by
  have hvalid : newMonth.valid =
    [(.ofDate ⟨29⟩ 0, 2), (.ofDate ⟨30⟩ 0, 4), (.ofDate ⟨31⟩ 0, 6)] := rfl
  rw [hvalid, Period.statistics, groups_newMonth]
  decide +kernel

theorem points_of_monthlyMeans : ∃ c ses' source s periods a,
    ofParams monthlyMeans .iso = .ok c ∧ exec c.run newMonthSession = (.ok (), ses') ∧
      newMonthSession.store.getSeries c.source = .ok source ∧
      c.preparation.apply source = .ok s ∧
      c.period.Spans (s.valid.map fun q => q.1.date) periods ∧
      ses'.store.getSeries c.name = .ok a ∧
      a.valid = TimeSeries.valid ⟨periods.map (c.period.point c.stamp c.statistic s.valid)⟩ ∧
      a.valid = [(.ofDate ⟨0⟩ 0, 3), (.ofDate ⟨31⟩ 0, 6)] := by
  have hst : Store.History newMonthSession.store _ := Store.History.empty.call
    (.join ⟨"FLOW"⟩ newMonth) (by show List.Pairwise _ _; decide +kernel)
  have hsource : (newMonthSession.store.getSeries ⟨"FLOW"⟩).toOption.map TimeSeries.points =
    some newMonth.points := by decide +kernel
  have hnames : (ofParams monthlyMeans .iso).toOption.map (fun c => (c.source, c.name)) =
    some (⟨"FLOW"⟩, ⟨"MONTHLY"⟩) := by decide +kernel
  have hparts : (ofParams monthlyMeans .iso).toOption.map
      (fun c => (c.period, c.stamp, c.statistic)) = some (.months, .start, .mean) := by
    decide +kernel
  have hprepared : (ofParams monthlyMeans .iso).toOption.map
      (fun c => (c.preparation.apply newMonth).toOption.map TimeSeries.points) =
    some (some newMonth.points) := by decide +kernel
  have hread : (newMonthSession.store.joinSeries ⟨"MONTHLY"⟩ ⟨newMonthMeans⟩).toOption.map
      (fun st => (st.getSeries ⟨"MONTHLY"⟩).toOption.map TimeSeries.valid) =
    some (some [(.ofDate ⟨0⟩ 0, 3), (.ofDate ⟨31⟩ 0, 6)]) := by decide +kernel
  obtain ⟨⟨_⟩, hflow, rfl⟩ := ok_of_toOption_map hsource
  obtain ⟨c, hc, hnames⟩ := ok_of_toOption_map hnames
  rw [hc] at hparts hprepared
  obtain ⟨hfrom, hname⟩ := Prod.mk.inj hnames
  obtain ⟨hperiod, hstampstatistic⟩ := Prod.mk.inj (Option.some.inj hparts)
  obtain ⟨hstamp, hstatistic⟩ := Prod.mk.inj hstampstatistic
  obtain ⟨⟨_⟩, hprepared, rfl⟩ := ok_of_toOption_map (Option.some.inj hprepared)
  have hseries : c.series newMonth = .ok ⟨newMonthMeans⟩ := by
    rw [series, hprepared, hperiod, hstamp, hstatistic]
    show (Period.months.statistics .start .mean newMonth.valid >>= TimeSeries.ofPoints) = _
    rw [statistics_newMonth]
    exact TimeSeries.ofPoints_of_increasing (by show List.Pairwise _ _; decide +kernel)
  obtain ⟨st, hjoin, hread⟩ := ok_of_toOption_map hread
  rw [← hfrom] at hflow
  rw [← hname] at hjoin hread
  have hrun : exec c.run newMonthSession = (.ok (), { newMonthSession with store := st }) :=
    exec_run_eq_ok.mpr ⟨newMonth, _, st, hflow, hseries, hjoin, rfl⟩
  obtain ⟨source, s, periods, a, hsource, hs, hspans, -, -, -, ha, hvalid⟩ :=
    points_of_run hst hc hrun
  refine ⟨c, _, source, s, periods, a, hc, hrun, hsource, hs, hspans, ha, hvalid, ?_⟩
  rw [show st.getSeries c.name = .ok a from ha] at hread
  exact Option.some.inj hread

end Hydroseries.Command.PeriodStatistics
