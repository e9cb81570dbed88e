import Hydroseries.Command.Basic
import Hydroseries.Proofs.Command.Writing
import Hydroseries.Proofs.Pest.Block

/-!
# Commands wherever they stand

The line of a block is only put into its faults and into what a block on the files of a calibration
remembers of itself. So a block that is read is read as the same command on any other line
(`ofParams_onLine`), and does the same there (`run_onLine`). Reading may fail with other faults, so
it is compared by `toOption`.
-/

namespace Hydroseries

/-! ## Results up to their faults -/

section

variable {α β : Type}

@[simp] theorem toOption_bind (x : Outcome α) (f : α → Outcome β) :
    (x >>= f).toOption = x.toOption.bind fun a => (f a).toOption := by
  cases x <;> rfl

theorem toOption_bind_congr {x y : Outcome α} {f g : α → Outcome β} (h : x.toOption = y.toOption)
    (hf : ∀ a, (f a).toOption = (g a).toOption) : (x >>= f).toOption = (y >>= g).toOption := by
  rw [toOption_bind, toOption_bind, h]
  exact congrArg _ (funext hf)

/-- Nothing comes of what follows a fault. -/
theorem toOption_throw_bind (fault : Fault) (f : α → Outcome β) :
    ((throw fault : Outcome α) >>= f).toOption = none := rfl

@[simp] theorem toOption_map (x : Outcome α) (f : α → β) :
    (x.map f).toOption = x.toOption.map f := by
  cases x <;> rfl

@[simp] theorem toOption_fmap (x : Outcome α) (f : α → β) :
    (f <$> x).toOption = x.toOption.map f := toOption_map x f

@[simp] theorem toOption_ite (c : Prop) [Decidable c] (x y : Outcome α) :
    (if c then x else y).toOption = if c then x.toOption else y.toOption := by
  split <;> rfl

theorem eq_ok_of_toOption {x y : Outcome α} (h : x.toOption = y.toOption) {a : α} :
    x = .ok a ↔ y = .ok a := by
  cases x <;> cases y <;> simp_all [Except.toOption]

theorem toOption_mapM_id (xs : List (Outcome α)) :
    (xs.mapM id).toOption = (xs.map Except.toOption).mapM id := by
  induction xs with
  | nil => rfl
  | cons x xs ih =>
    rw [List.mapM_cons, List.map_cons, List.mapM_cons, toOption_bind]
    cases x with
    | error fault => rfl
    | ok a =>
      rw [← ih]
      exact toOption_bind (xs.mapM id) _

end

namespace Params

/-- The same block on another line. -/
def onLine (p : Params) (line : Nat) : Params := { p with line }

variable (p : Params) (n : Nat) (key : String)

@[simp] theorem command_onLine : (p.onLine n).command = p.command := rfl

@[simp] theorem values_onLine : (p.onLine n).values = p.values := rfl

@[simp] theorem has_onLine : (p.onLine n).has = p.has := rfl

@[simp] theorem text?_onLine : (p.onLine n).text? = p.text? := rfl

@[simp] theorem joined?_onLine : (p.onLine n).joined? = p.joined? := rfl

@[simp] theorem tokens_onLine : (p.onLine n).tokens = p.tokens := rfl

@[simp] theorem entries_onLine : (p.onLine n).entries = p.entries := rfl

@[simp] theorem number?_onLine {α : Type} (r : Reading α) :
    (p.onLine n).number? r = p.number? r := rfl

@[simp] theorem floats_onLine : (p.onLine n).floats = p.floats := rfl

@[simp] theorem flag_onLine : (p.onLine n).flag = p.flag := rfl

@[simp] theorem entity?_onLine : (p.onLine n).entity? = p.entity? := rfl

@[simp] theorem entities_onLine : (p.onLine n).entities = p.entities := rfl

@[simp] theorem window_onLine : (p.onLine n).window = p.window := rfl

@[simp] theorem numbered_onLine : (p.onLine n).numbered = p.numbered := rfl

/-- Only a missing text is a fault that names the line. -/
@[simp] theorem text_onLine : ((p.onLine n).text key).toOption = (p.text key).toOption := by
  unfold text
  rw [text?_onLine]
  cases p.text? key <;> rfl

@[simp] theorem entity_onLine : ((p.onLine n).entity key).toOption = (p.entity key).toOption := by
  simp [entity]

@[simp] theorem number_onLine {α : Type} (r : Reading α) :
    ((p.onLine n).number r key).toOption = (p.number r key).toOption := by
  simp [number]

@[simp] theorem moment_onLine (timeKey : String) (dates : DateFormat) :
    ((p.onLine n).moment key timeKey dates).toOption = (p.moment key timeKey dates).toOption := by
  simp [moment]

@[simp] theorem choice_onLine (choices : List String) :
    ((p.onLine n).choice key choices).toOption = (p.choice key choices).toOption := by
  simp [choice]

@[simp] theorem choice?_onLine (choices : List String) :
    ((p.onLine n).choice? key choices).toOption = (p.choice? key choices).toOption := by
  unfold choice?
  rw [has_onLine]
  split <;> simp

end Params

namespace Command

variable (p : Params) (n : Nat) (dates : DateFormat)

/-! ## Reading -/

@[simp] theorem onlyEntity_onLine : onlyEntity (p.onLine n) = onlyEntity p := rfl

@[simp] theorem listedEntities_onLine : listedEntities (p.onLine n) = listedEntities p := rfl

@[simp] theorem Renaming.ofParams_onLine :
    (Renaming.ofParams (p.onLine n)).toOption = (Renaming.ofParams p).toOption := by
  simp [Renaming.ofParams]

@[simp] theorem EraseEntities.ofParams_onLine :
    EraseEntities.ofParams (p.onLine n) = EraseEntities.ofParams p := rfl

@[simp] theorem Derived.ofParams_onLine :
    (Derived.ofParams (p.onLine n)).toOption = (Derived.ofParams p).toOption := by
  simp [Derived.ofParams]

@[simp] theorem NewSeriesUniform.ofParams_onLine :
    (NewSeriesUniform.ofParams (p.onLine n) dates).toOption =
      (NewSeriesUniform.ofParams p dates).toOption := by
  simp [NewSeriesUniform.ofParams]

@[simp] theorem NewTimeBase.ofParams_onLine :
    (NewTimeBase.ofParams (p.onLine n)).toOption = (NewTimeBase.ofParams p).toOption := by
  simp [NewTimeBase.ofParams]

@[simp] theorem ReduceTimeSpan.ofParams_onLine :
    (ReduceTimeSpan.ofParams (p.onLine n) dates).toOption =
      (ReduceTimeSpan.ofParams p dates).toOption := by
  simp [ReduceTimeSpan.ofParams]

@[simp] theorem SeriesClean.ofParams_onLine :
    (SeriesClean.ofParams (p.onLine n)).toOption = (SeriesClean.ofParams p).toOption := by
  refine toOption_bind_congr (p.text_onLine n _) fun raw => ?_
  dsimp only
  split
  all_goals
    refine toOption_bind_congr (by simp) fun substitute => ?_
    refine toOption_bind_congr rfl fun lower => ?_
    refine toOption_bind_congr rfl fun upper => ?_
    split <;> simp

@[simp] theorem SeriesDisplace.ofParams_onLine :
    (SeriesDisplace.ofParams (p.onLine n)).toOption = (SeriesDisplace.ofParams p).toOption := by
  simp [SeriesDisplace.ofParams]

@[simp] theorem SeriesBaseLevel.ofParams_onLine :
    (SeriesBaseLevel.ofParams (p.onLine n) dates).toOption =
      (SeriesBaseLevel.ofParams p dates).toOption := by
  simp [SeriesBaseLevel.ofParams]

@[simp] theorem SeriesEquation.ofParams_onLine :
    (SeriesEquation.ofParams (p.onLine n)).toOption = (SeriesEquation.ofParams p).toOption := by
  simp [SeriesEquation.ofParams]

@[simp] theorem VTableToSeries.ofParams_onLine :
    (VTableToSeries.ofParams (p.onLine n)).toOption = (VTableToSeries.ofParams p).toOption := by
  simp [VTableToSeries.ofParams]

@[simp] theorem readPreparation_onLine (blocks : Bool) :
    readPreparation (p.onLine n) dates blocks = readPreparation p dates blocks := rfl

@[simp] theorem SeriesStatistics.sizes_onLine (e : BlockExtreme) :
    SeriesStatistics.sizes (p.onLine n) e = SeriesStatistics.sizes p e := rfl

@[simp] theorem SeriesStatistics.ofParams_onLine :
    (SeriesStatistics.ofParams (p.onLine n) dates).toOption =
      (SeriesStatistics.ofParams p dates).toOption := by
  simp [SeriesStatistics.ofParams]

@[simp] theorem PeriodStatistics.readPeriod_onLine :
    (PeriodStatistics.readPeriod (p.onLine n)).toOption =
      (PeriodStatistics.readPeriod p).toOption := by
  refine toOption_bind_congr (p.choice_onLine n ..) fun word => ?_
  split <;> simp

@[simp] theorem PeriodStatistics.ofParams_onLine :
    (PeriodStatistics.ofParams (p.onLine n) dates).toOption =
      (PeriodStatistics.ofParams p dates).toOption := by
  simp [PeriodStatistics.ofParams]

@[simp] theorem SeriesCompare.ofParams_onLine :
    (SeriesCompare.ofParams (p.onLine n) dates).toOption =
      (SeriesCompare.ofParams p dates).toOption := by
  simp [SeriesCompare.ofParams]

@[simp] theorem DigitalFilter.readButterworth_onLine :
    (DigitalFilter.readButterworth (p.onLine n)).toOption =
      (DigitalFilter.readButterworth p).toOption := by
  refine toOption_bind_congr (p.text_onLine n _) fun word => ?_
  refine toOption_bind_congr rfl fun pass => ?_
  cases pass with
  | band =>
    refine toOption_bind_congr (p.number_onLine n ..) fun low => ?_
    exact toOption_bind_congr (p.number_onLine n ..) fun high => rfl
  | low | high => exact toOption_bind_congr (p.number_onLine n ..) fun cutoff => rfl

@[simp] theorem DigitalFilter.readChapman_onLine :
    DigitalFilter.readChapman (p.onLine n) = DigitalFilter.readChapman p := rfl

@[simp] theorem DigitalFilter.ofParams_onLine :
    (DigitalFilter.ofParams (p.onLine n)).toOption = (DigitalFilter.ofParams p).toOption := by
  refine toOption_bind_congr (p.choice_onLine n ..) fun word => ?_
  split <;> simp

@[simp] theorem HydroEvents.ofParams_onLine (lags : Bool) :
    (HydroEvents.ofParams (p.onLine n) dates lags).toOption =
      (HydroEvents.ofParams p dates lags).toOption := by
  cases lags <;> simp [HydroEvents.ofParams]

@[simp] theorem UsgsHysep.ofParams_onLine :
    (UsgsHysep.ofParams (p.onLine n) dates).toOption = (UsgsHysep.ofParams p dates).toOption := by
  simp [UsgsHysep.ofParams]

@[simp] theorem FlowDurationTable.ofParams_onLine :
    (FlowDurationTable.ofParams (p.onLine n) dates).toOption =
      (FlowDurationTable.ofParams p dates).toOption := by
  simp [FlowDurationTable.ofParams]

@[simp] theorem ExceedanceTime.readDirection_onLine :
    ExceedanceTime.readDirection (p.onLine n) = ExceedanceTime.readDirection p := rfl

@[simp] theorem ExceedanceTime.ofParams_onLine :
    (ExceedanceTime.ofParams (p.onLine n)).toOption = (ExceedanceTime.ofParams p).toOption := by
  simp [ExceedanceTime.ofParams]

@[simp] theorem HydrologicIndices.wanted_onLine :
    HydrologicIndices.wanted (p.onLine n) = HydrologicIndices.wanted p := rfl

@[simp] theorem HydrologicIndices.ofParams_onLine :
    (HydrologicIndices.ofParams (p.onLine n) dates).toOption =
      (HydrologicIndices.ofParams p dates).toOption := by
  refine toOption_bind_congr (by rw [wanted_onLine]) fun wanted => ?_
  dsimp only
  split
  · rw [toOption_throw_bind, toOption_throw_bind]
  · simp

@[simp] theorem VolumeCalculation.readDates_onLine :
    (VolumeCalculation.readDates (p.onLine n)).toOption =
      (VolumeCalculation.readDates p).toOption := by
  unfold VolumeCalculation.readDates
  simp only [Params.text?_onLine]
  split <;> simp

@[simp] theorem VolumeCalculation.ofParams_onLine :
    (VolumeCalculation.ofParams (p.onLine n) dates).toOption =
      (VolumeCalculation.ofParams p dates).toOption := by
  simp [VolumeCalculation.ofParams]

@[simp] theorem ListOutput.readFormat_onLine :
    (ListOutput.readFormat (p.onLine n)).toOption = (ListOutput.readFormat p).toOption := by
  simp [ListOutput.readFormat]

@[simp] theorem ListOutput.ofParams_onLine :
    (ListOutput.ofParams (p.onLine n)).toOption = (ListOutput.ofParams p).toOption := by
  unfold ListOutput.ofParams
  rw [listedEntities_onLine]
  simp

theorem plotOptions_onLine (series : List EntityName) :
    (PlotOptions.ofParams (p.onLine n) series).toOption =
      (PlotOptions.ofParams p series).toOption := by
  unfold PlotOptions.ofParams
  dsimp only
  rw [Params.entities_onLine]
  split
  · rw [toOption_throw_bind, toOption_throw_bind]
  · exact toOption_bind_congr (p.choice?_onLine n ..) fun word => rfl

@[simp] theorem Plot.ofParams_onLine :
    (Plot.ofParams (p.onLine n) dates).toOption = (Plot.ofParams p dates).toOption := by
  unfold Plot.ofParams
  rw [Params.entities_onLine, Params.window_onLine]
  simp [plotOptions_onLine]

@[simp] theorem GetSeries.paired_onLine : paired (p.onLine n) = paired p := rfl

@[simp] theorem GetSeries.statVarLabels_onLine : statVarLabels (p.onLine n) = statVarLabels p := rfl

@[simp] theorem GetSeries.formatAndPicks_onLine :
    (GetSeries.formatAndPicks (p.onLine n) dates).toOption =
      (GetSeries.formatAndPicks p dates).toOption := by
  unfold GetSeries.formatAndPicks
  rw [Params.command_onLine]
  split <;> simp [GetSeries.single, GetSeries.reference]

@[simp] theorem GetSeries.ofParams_onLine :
    (GetSeries.ofParams (p.onLine n) dates).toOption = (GetSeries.ofParams p dates).toOption := by
  simp [GetSeries.ofParams]

@[simp] theorem GetBinarySeries.ofParams_onLine :
    (GetBinarySeries.ofParams (p.onLine n) dates).toOption =
      (GetBinarySeries.ofParams p dates).toOption := by
  unfold GetBinarySeries.ofParams
  rw [Params.command_onLine, Params.entity?_onLine]
  split
  · split <;> rfl
  · rfl

/-! ## Blocks on the files of a calibration -/

end Command

namespace Pest

variable (p : Params) (n : Nat)

@[simp] theorem wordValue_onLine (key preset : String) (choices : List String) :
    (Control.wordValue (p.onLine n) key preset choices).toOption =
      (Control.wordValue p key preset choices).toOption := by
  simp [Control.wordValue]

@[simp] theorem word_onLine (key preset : String) (choices : List String) :
    (Control.word (p.onLine n) key preset choices).toOption =
      (Control.word p key preset choices).toOption := by
  simp [Control.word]

@[simp] theorem bareWord_onLine (key preset : String) (choices : List String) :
    (Control.bareWord (p.onLine n) key preset choices).toOption =
      (Control.bareWord p key preset choices).toOption := by
  simp [Control.bareWord]

@[simp] theorem switch_onLine (key : String) (on : Bool) :
    (Control.switch (p.onLine n) key on).toOption = (Control.switch p key on).toOption := by
  simp [Control.switch]

theorem toOption_row (entries : List (Outcome Filling)) :
    (Control.row entries).toOption = ((entries.map Except.toOption).mapM id).map fun fillings c =>
      Text.trimEnd (Text.join " " (fillings.map fun f => f c)) := by
  rw [← toOption_mapM_id, ← toOption_map]
  rfl

theorem integer_onLine : Control.integer (p.onLine n) = Control.integer p := rfl

theorem real_onLine : Control.real (p.onLine n) = Control.real p := rfl

theorem plainReal_onLine : Control.plainReal (p.onLine n) = Control.plainReal p := rfl

theorem free_onLine : Control.free (p.onLine n) = Control.free p := rfl

theorem absoluteLimits_onLine :
    Control.absoluteLimits (p.onLine n) = Control.absoluteLimits p := rfl

/-- Only the items that are words read a text that may be missing. -/
theorem controlRows_onLine (svd : Bool) :
    (Control.controlRows (p.onLine n) svd).map Except.toOption =
      (Control.controlRows p svd).map Except.toOption := by
  simp only [Control.controlRows, List.map_cons, List.map_nil, toOption_row, word_onLine,
    bareWord_onLine, switch_onLine, integer_onLine, real_onLine, plainReal_onLine, free_onLine,
    absoluteLimits_onLine]

theorem svdRows_onLine : Control.svdRows (p.onLine n) = Control.svdRows p := rfl

theorem lsqrRows_onLine : Control.lsqrRows (p.onLine n) = Control.lsqrRows p := rfl

theorem realValue_onLine : Control.realValue (p.onLine n) = Control.realValue p := rfl

theorem ControlHead.ofParams_onLine :
    (ControlHead.ofParams (p.onLine n)).toOption = (ControlHead.ofParams p).toOption := by
  unfold ControlHead.ofParams
  rw [svdRows_onLine, lsqrRows_onLine, realValue_onLine]
  refine toOption_bind_congr (wordValue_onLine p n ..) fun intervention => ?_
  refine toOption_bind_congr rfl fun threshold => ?_
  dsimp only
  split
  · rw [toOption_throw_bind, toOption_throw_bind]
  · refine toOption_bind_congr ?_ fun control => rfl
    rw [toOption_mapM_id, toOption_mapM_id, controlRows_onLine]

/-- The line is remembered, and what is read is the same. -/
theorem FilesBlock.ofParams_onLine {f : FilesBlock} (h : FilesBlock.ofParams p = .ok f) :
    FilesBlock.ofParams (p.onLine n) = .ok { f with line := n } := by
  obtain ⟨htemplates, hlength, hcontrol, hinstruction, hgroup, hparameter, hpairs, hcommand, hhead,
    -, hzip⟩ := ofParams_eq_ok.mp h
  have htext : ∀ {key text}, p.text key = .ok text → (p.onLine n).text key = .ok text :=
    fun {key _} => (eq_ok_of_toOption (p.text_onLine n key)).mpr
  have hhead' := (eq_ok_of_toOption (ControlHead.ofParams_onLine p n)).mpr hhead
  exact ofParams_eq_ok.mpr ⟨htemplates, hlength, htext hcontrol, htext hinstruction, htext hgroup,
    htext hparameter, hpairs, hcommand, hhead', rfl, hzip⟩

end Pest

namespace Command

variable {p : Params} {dates : DateFormat} {c : Command} {s s' : Session}

/-! ## All commands -/

/-- The command of a block on another line. -/
def onLine (n : Nat) : Command → Command
  | writePestFiles b => writePestFiles { b with line := n }
  | c => c

theorem map_onLine {α : Type} {x y : Outcome α} {make : α → Command} {n : Nat}
    (hmake : ∀ a, (make a).onLine n = make a) (hxy : x.toOption = y.toOption)
    (h : y.map make = .ok c) : x.map make = .ok (c.onLine n) := by
  obtain ⟨a, ha, rfl⟩ := map_eq_ok.mp h
  rw [hmake]
  exact map_eq_ok.mpr ⟨a, (eq_ok_of_toOption hxy).mpr ha, rfl⟩

/-- A block that is read is read as the same command on any other line. -/
theorem ofParams_onLine (h : ofParams p dates = .ok c) (n : Nat) :
    ofParams (p.onLine n) dates = .ok (c.onLine n) := by
  unfold ofParams at h ⊢
  rw [Params.command_onLine]
  split at h
  next htext =>
    rw [if_pos htext]
    exact map_onLine (fun _ => rfl) (GetSeries.ofParams_onLine p n dates) h
  next htext =>
    rw [if_neg htext]
    split at h
    next hbinary =>
      rw [if_pos hbinary]
      exact map_onLine (fun _ => rfl) (GetBinarySeries.ofParams_onLine p n dates) h
    next hbinary =>
      rw [if_neg hbinary]
      generalize hcommand : p.command = command at h ⊢
      split at h
      -- All commands but the one that remembers its line are read the same.
      case h_26 =>
        obtain ⟨f, hf, rfl⟩ := map_eq_ok.mp h
        exact map_eq_ok.mpr ⟨_, Pest.FilesBlock.ofParams_onLine p n hf, rfl⟩
      case h_28 => cases h
      all_goals exact map_onLine (fun _ => rfl) (by simp) h

/-- The line matters to no command that succeeds. -/
theorem run_onLine (n : Nat) (h : c.run.perform s = (.ok (), s')) :
    (c.onLine n).run.perform s = (.ok (), s') := by
  cases c with
  | writePestFiles b =>
    obtain ⟨listing, a, files, files', hlisting, hassemble, hinstructions, hcontrol, rfl⟩ :=
      WritePestFiles.run_eq_ok.mp h
    exact WritePestFiles.run_eq_ok.mpr
      ⟨listing, a, files, files', hlisting, hassemble, hinstructions, hcontrol, rfl⟩
  | _ => exact h

end Command

end Hydroseries
