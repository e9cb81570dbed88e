import Hydroseries.Command.Basic
import Hydroseries.Proofs.Command.Effects

/-!
# Commands that add one entity or only write

Most commands make one series or table of what they read, and adding it is their last step; others
write files or draw, and leave the store as it is. The only command that changes the last report is
the one that writes a report.
-/

namespace Hydroseries.Command

open Action

/-! ## Series and tables -/

/-- A new series or table is made of what is read, and adding it is the last step. -/
theorem adds_derived (d : Derived) (make : Series → Outcome Series) :
    Adds (d.run make) :=
  (keeps_getSeries _).before fun _ => (keeps_outcome _).before fun _ =>
    adds_joinSeries _ _

theorem NewSeriesUniform.adds_run (c : NewSeriesUniform) : Adds c.run :=
  (keeps_outcome _).before fun _ => adds_joinSeries _ _

theorem NewTimeBase.adds_run (c : NewTimeBase) : Adds c.run :=
  (keeps_getSeries _).before fun _ => (keeps_getSeries _).before fun _ =>
    (keeps_outcome _).before fun _ => adds_joinSeries _ _

theorem SeriesEquation.adds_run (c : SeriesEquation) : Adds c.run := by
  refine keeps_get.before fun s => (keeps_outcome _).before fun v => ?_
  cases v with
  | series new => exact adds_joinSeries _ _
  | _ => exact (keeps_throw _).adds

theorem VTableToSeries.adds_run (c : VTableToSeries) : Adds c.run :=
  keeps_get.before fun _ => (keeps_outcome _).before fun _ =>
    (keeps_outcome _).before fun _ => adds_joinSeries _ _

theorem SeriesStatistics.adds_run (c : SeriesStatistics) : Adds c.run :=
  (keeps_getSeries _).before fun _ => (keeps_outcome _).before fun _ =>
    adds_insertTable _ _

theorem PeriodStatistics.adds_run (c : PeriodStatistics) : Adds c.run :=
  (keeps_getSeries _).before fun _ => (keeps_outcome _).before fun _ =>
    adds_joinSeries _ _

theorem SeriesCompare.adds_run (c : SeriesCompare) : Adds c.run := by
  have hprepared : ∀ name, Keeps holdings (do
      let s ← Action.getSeries name
      (Preparation.mk c.window false 1.0).apply s : Action Series) := fun name =>
    (keeps_getSeries name).bind fun _ => keeps_outcome _
  refine (hprepared c.sim).before fun sim => (hprepared c.obs).before fun obs => ?_
  refine Keeps.before ?_ fun base => (keeps_outcome _).before fun _ =>
    adds_insertTable _ _
  cases c.base with
  | none => exact keeps_pure none
  | some name => exact (hprepared name).bind fun _ => keeps_pure _

/-! ## Flows -/

theorem keeps_windowed (name : EntityName) (window : Window) :
    Keeps holdings (windowed name window) := by
  refine (keeps_getSeries _).bind fun s => ?_
  dsimp only
  split
  · exact (keeps_throw _).bind fun _ => keeps_pure _
  · exact keeps_pure _

theorem DigitalFilter.adds_run (c : DigitalFilter) : Adds c.run :=
  (keeps_getSeries _).before fun _ => (keeps_outcome _).before fun _ =>
    adds_joinSeries _ _

theorem HydroEvents.adds_run (c : HydroEvents) : Adds c.run :=
  (keeps_windowed _ _).before fun _ => (keeps_outcome _).before fun _ =>
    adds_joinSeries _ _

theorem UsgsHysep.adds_run (c : UsgsHysep) : Adds c.run :=
  (keeps_windowed _ _).before fun _ => (keeps_outcome _).before fun _ =>
    adds_joinSeries _ _

theorem FlowDurationTable.adds_run (c : FlowDurationTable) : Adds c.run :=
  (keeps_windowed _ _).before fun _ => (keeps_outcome _).before fun _ =>
    (keeps_outcome _).before fun _ => adds_insertTable _ _

theorem ExceedanceTime.adds_run (c : ExceedanceTime) : Adds c.run :=
  (keeps_getSeries _).before fun _ => (keeps_outcome _).before fun _ =>
    adds_insertTable _ _

theorem HydrologicIndices.adds_run (c : HydrologicIndices) : Adds c.run :=
  (keeps_windowed _ _).before fun _ => (keeps_outcome _).before fun _ =>
    (keeps_outcome _).before fun _ => adds_insertTable _ _

theorem VolumeCalculation.keeps_periods (c : VolumeCalculation) (first last : Timestamp) :
    Keeps holdings (c.periods first last) := by
  unfold periods
  cases c.dates with
  | calendar period => exact keeps_pure _
  | file name =>
    exact (keeps_resolve name).bind fun _ => (keeps_readText _).bind fun _ =>
      keeps_outcome _

theorem VolumeCalculation.adds_run (c : VolumeCalculation) : Adds c.run := by
  refine (keeps_getSeries _).before fun s => (keeps_outcome _).before fun ends => ?_
  refine (c.keeps_periods _ _).before fun periods => ?_
  dsimp only
  split
  · exact (keeps_throw _).before fun _ => adds_insertTable _ _
  · exact adds_insertTable _ _

/-! ## Files -/

theorem GetBinarySeries.adds_run (c : GetBinarySeries) : Adds c.run := by
  refine Keeps.before ?_ fun path => (keeps_readBinary _).before fun _ =>
    adds_joinSeries _ _
  cases c.file with
  | none => exact keeps_pure none
  | some file => exact (keeps_resolve file).bind fun _ => keeps_pure _

theorem ListOutput.keepsStore_run (c : ListOutput) : Keeps Session.store c.run :=
  keeps_get.bind fun _ => (keeps_outcome _).bind fun _ =>
    (keeps_writeText _ _).store.bind fun _ => keeps_modify fun _ => rfl

theorem WritePestFiles.keeps_assemble {γ : Type} (view : Session → γ) (b : Pest.FilesBlock)
    (listing : Report.Listing) : Keeps view (assemble b listing) := by
  refine (keeps_forIn (fun template _ => ?_) _ _).bind fun _ => ?_
  · exact (keeps_resolve _).bind fun _ => (keeps_readText _).bind fun _ =>
      (keeps_outcome _).bind fun _ => keeps_pure _
  · refine (keeps_resolve _).bind fun _ => (keeps_readText _).bind fun _ =>
      (keeps_outcome _).bind fun groups => ?_
    refine (keeps_resolve _).bind fun _ => (keeps_readText _).bind fun _ =>
      (keeps_outcome _).bind fun parameters => ?_
    exact keeps_get.bind fun _ =>
      (keeps_mapM (fun _ => keeps_outcome _) _).bind fun _ => keeps_pure _

theorem WritePestFiles.keeps_run (b : Pest.FilesBlock) : Keeps holdings (run b) := by
  refine keeps_get.bind fun s => ?_
  cases s.listing with
  | none => exact keeps_throw _
  | some listing =>
    exact (keeps_assemble holdings b listing).bind fun _ => (keeps_resolve _).bind fun _ =>
      (keeps_writeText _ _).bind fun _ => (keeps_resolve _).bind fun _ =>
        keeps_writeText _ _

theorem Plot.keeps_run (c : Plot) : Keeps holdings c.run := by
  refine Keeps.bind (keeps_mapM (fun name => ?_) _) fun _ =>
    (keeps_resolve _).bind fun _ => keeps_plot _
  exact (keeps_getSeries name).bind fun _ => keeps_pure _

/-! ## The last report -/

theorem GetSeries.keeps_listing (c : GetSeries) : Keeps Session.listing c.run := by
  refine (keeps_resolve _).bind fun path => (keeps_readText _).bind fun _ =>
    (keeps_outcome _).bind fun columns => (keeps_forIn (fun pick _ => ?_) _ _).bind fun _ =>
      keeps_pure _
  exact (keeps_outcome _).bind fun _ => (keeps_outcome _).bind fun _ =>
    (adds_joinSeries _ _).listing.bind fun _ => keeps_pure _

theorem EraseEntities.keeps_listing (c : EraseEntities) : Keeps Session.listing c.run := by
  have hloop : Keeps Session.listing (forIn c.targets PUnit.unit fun t _ => do
      Action.changeStore fun st => st.erase t.1 t.2
      pure (ForInStep.yield PUnit.unit) : Action PUnit) :=
    keeps_forIn (fun t _ => (adds_changeStore _).listing.bind fun _ => keeps_pure _) _ _
  refine keeps_get.bind fun s => ?_
  cases c.targets.find? fun t => !s.store.contains t.1 t.2 with
  | some t => exact (keeps_throw _).bind fun _ => hloop.bind fun _ => keeps_pure _
  | none => exact hloop.bind fun _ => keeps_pure _

theorem SeriesBaseLevel.keeps_listing (c : SeriesBaseLevel) : Keeps Session.listing c.run := by
  refine (keeps_getSeries _).bind fun base => ?_
  cases base.valueAt? c.moment with
  | none => exact keeps_throw _
  | some level =>
    refine (keeps_getSeries _).bind fun source => ?_
    dsimp only
    split
    · exact (adds_changeStore _).listing.bind fun _ => (adds_joinSeries _ _).listing
    · exact (adds_joinSeries _ _).listing

/-- Only the command that writes a report changes the last one. -/
theorem keeps_listing (c : Command) (h : ∀ l, c ≠ .listOutput l) :
    Keeps Session.listing c.run := by
  cases c with
  | listOutput l => exact absurd rfl (h l)
  | settings dates => exact keeps_modify fun _ => rfl
  | getSeries c | eraseEntities c | seriesBaseLevel c => exact c.keeps_listing
  | copy c =>
    show Keeps Session.listing c.copy
    exact keepsListing_onStore _
  | move c =>
    show Keeps Session.listing c.move
    exact keepsListing_onStore _
  | reduceTimeSpan c | seriesClean c | seriesDifference c | seriesDisplace c =>
    exact (adds_derived _ _).listing
  | plot c => exact c.keeps_run.listing
  | writePestFiles b => exact (WritePestFiles.keeps_run b).listing
  | getBinarySeries c | newSeriesUniform c | newTimeBase c | seriesEquation c | vTableToSeries c
  | seriesStatistics c | periodStatistics c | seriesCompare c | digitalFilter c | hydroEvents c
  | usgsHysep c | flowDuration c | exceedanceTime c | hydrologicIndices c | volumeCalculation c =>
    exact c.adds_run.listing

end Hydroseries.Command
