import Hydroseries.Proofs.Command.Reading
import Hydroseries.Proofs.Run.Partition

/-!
# Steps that read columns

Steps that read one column of a file each, one after the other, have the effect of one that reads
all of these columns at once (`performSteps_reading`): both fail or both succeed, and they leave the
same session. The file is read for each column then, but no column changes it.
-/

namespace Hydroseries

open Action (changeAll)
open Command (GetSeries)
open Control (Script)
open Stateful (exec)

namespace Run

variable {α β γ : Type} {s : Session} {settings : Settings} {runContext source : String}

/-! ## Runs with the same effect -/

/-- Both fail or both succeed, and the sessions that they leave are the same. -/
structure SameEffect (x : Outcome α × Session) (y : Outcome β × Session) : Prop where
  isOk : x.1.isOk = y.1.isOk
  session : x.2 = y.2

section

variable {x : Outcome α × Session} {y : Outcome β × Session} {z : Outcome γ × Session}

theorem SameEffect.symm (h : SameEffect x y) : SameEffect y x := ⟨h.isOk.symm, h.session.symm⟩

theorem SameEffect.trans (h : SameEffect x y) (h' : SameEffect y z) : SameEffect x z :=
  ⟨h.isOk.trans h'.isOk, h.session.trans h'.session⟩

theorem SameEffect.eq_ok {b : β} (h : SameEffect x (.ok b, s)) : ∃ a, x = (.ok a, s) := by
  obtain ⟨_ | a, s'⟩ := x
  · cases h.isOk
  · obtain rfl : s' = s := h.session
    exact ⟨a, rfl⟩

theorem SameEffect.eq_error {fault : Fault}
    (h : SameEffect x ((.error fault, s) : Outcome β × Session)) :
    ∃ fault', x = (.error fault', s) := by
  obtain ⟨fault' | _, s'⟩ := x
  · obtain rfl : s' = s := h.session
    exact ⟨fault', rfl⟩
  · cases h.isOk

end

theorem sameEffect_errors (fault fault' : Fault) (s : Session) :
    SameEffect ((.error fault, s) : Outcome α × Session)
      ((.error fault', s) : Outcome β × Session) :=
  ⟨rfl, rfl⟩

/-- What a run of a control file that is read does. -/
theorem perform_text {sc : Script} (hread : Script.read source = .ok sc) (s : Session) :
    (text settings source).perform s = match contextOf settings sc with
      | .error fault => (.error fault, s)
      | .ok runContext => match plan runContext sc.invocations with
        | .error fault => (.error fault, s)
        | .ok (steps, notices) => match (performSteps steps).perform s with
          | (.error fault, s') => (.error fault, s')
          | (.ok q, s') => (.ok ⟨runContext, q.1, q.2, sc.notices ++ notices,
              if settings.debug then some s'.store.summary else none⟩, s') := by
  rw [← exec_eq_perform, text, Stateful.exec_bind_outcome, hread]
  dsimp only
  rw [script, Stateful.exec_bind_outcome]
  cases contextOf settings sc with
  | error fault => rfl
  | ok runContext =>
    dsimp only
    rw [Stateful.exec_bind_outcome]
    rcases plan runContext sc.invocations with fault | ⟨steps, notices⟩
    · rfl
    · dsimp only
      rw [Stateful.exec_bind, exec_eq_perform]
      rcases (performSteps steps).perform s with ⟨_ | _, _⟩ <;> rfl

/-- Files have the same effect if they have the same context, and plans that both fail or have the
same effect. -/
theorem sameEffect_text {a b : String} {sa sb : Script} (ha : Script.read a = .ok sa)
    (hb : Script.read b = .ok sb) (hcontext : sa.settingsContext? = sb.settingsContext?)
    (hplan : ∀ runContext,
      (∃ fault fault', plan runContext sa.invocations = .error fault ∧
        plan runContext sb.invocations = .error fault') ∨
      ∃ out out', plan runContext sa.invocations = .ok out ∧
        plan runContext sb.invocations = .ok out' ∧
        SameEffect ((performSteps out.1).perform s) ((performSteps out'.1).perform s)) :
    SameEffect ((text settings a).perform s) ((text settings b).perform s) := by
  have hchosen : contextOf settings sa = contextOf settings sb := by
    rw [contextOf, contextOf, hcontext]
  rw [perform_text ha, perform_text hb, hchosen]
  cases contextOf settings sb with
  | error fault => exact sameEffect_errors _ _ _
  | ok runContext =>
    dsimp only
    rcases hplan runContext with
      ⟨fault, fault', hfault, hfault'⟩ | ⟨out, out', hout, hout', heffect⟩
    · rw [hfault, hfault']
      exact sameEffect_errors _ _ _
    · rw [hout, hout']
      dsimp only
      obtain ⟨hok, hsession⟩ := heffect
      rcases hrun : (performSteps out.1).perform s with ⟨_ | q, s₁⟩ <;>
        rcases hrun' : (performSteps out'.1).perform s with ⟨_ | q', s₂⟩ <;>
        rw [hrun, hrun'] at hok hsession
      · exact ⟨rfl, hsession⟩
      · cases hok
      · cases hok
      · exact ⟨rfl, hsession⟩

/-! ## Columns one after the other -/

variable {c : GetSeries} {p : Params} {steps : List Step}
  {picks : List (String × EntityName)}

/-- The step reads one column. -/
def ReadsColumn (dates : DateFormat) (c : GetSeries) (step : Step) (pick : String × EntityName) :
    Prop :=
  ∃ q, step = .perform q ∧ Command.ofParams q dates = .ok (.getSeries { c with picks := [pick] })

theorem performBlock_reading (hread : Command.ofParams p s.dateFormat = .ok (.getSeries c)) :
    SameEffect ((performBlock p).perform s) (exec c.run s) := by
  have hrun : c.run.perform s = exec c.run s := rfl
  have hdone : (Command.getSeries c).run = c.run := rfl
  rw [perform_performBlock, hread, ← hrun]
  dsimp only
  rw [hdone]
  rcases c.run.perform s with ⟨_ | _, s'⟩ <;> exact ⟨rfl, rfl⟩

theorem performBlock_unread {fault : Fault}
    (hread : Command.ofParams p s.dateFormat = .error fault) :
    SameEffect ((performBlock p).perform s) ((.error fault, s) : Outcome Unit × Session) := by
  rw [perform_performBlock, hread]
  exact sameEffect_errors _ _ _

/-- Behind a block that succeeds the other steps are performed. -/
theorem performSteps_behind {steps : List Step} {s₁ : Session} {b : β}
    (hblock : SameEffect ((performBlock p).perform s) (.ok b, s₁)) :
    SameEffect ((performSteps (.perform p :: steps)).perform s)
      ((performSteps steps).perform s₁) := by
  obtain ⟨origin, horigin⟩ := hblock.eq_ok
  rw [perform_perform, horigin]
  dsimp only
  rcases (performSteps steps).perform s₁ with ⟨_ | _, _⟩ <;> exact ⟨rfl, rfl⟩

/-- Behind a block that fails nothing is performed. -/
theorem performSteps_failed {steps : List Step} {s₁ : Session} {fault : Fault}
    (hblock : SameEffect ((performBlock p).perform s) ((.error fault, s₁) : Outcome β × Session)) :
    SameEffect ((performSteps (.perform p :: steps)).perform s)
      ((.error fault, s₁) : Outcome γ × Session) := by
  obtain ⟨fault', hfault⟩ := hblock.eq_error
  rw [perform_perform, hfault]
  exact sameEffect_errors _ _ _

/-- Blocks of one column each, run one after the other, add their columns in order. -/
theorem performSteps_picks {dates : DateFormat} {columns : DataTable}
    (hsteps : List.Forall₂ (ReadsColumn dates c) steps picks) (hdates : s.dateFormat = dates)
    (hload : c.load s = .ok columns) :
    let added := changeAll (c.add (s.resolve c.file) columns) picks s.store
    SameEffect ((performSteps steps).perform s) (added.1, { s with store := added.2 }) := by
  intro added
  induction hsteps generalizing s with
  | nil => exact ⟨rfl, rfl⟩
  | @cons step pick steps picks hstep _ ih =>
    obtain ⟨q, rfl, hread⟩ := hstep
    subst hdates
    have hload' : GetSeries.load { c with picks := [pick] } s = .ok columns := hload
    have hadd : GetSeries.add { c with picks := [pick] } (s.resolve c.file) columns =
        c.add (s.resolve c.file) columns := rfl
    have hblock := performBlock_reading hread
    rw [GetSeries.exec_run, hload'] at hblock
    simp only [hadd, changeAll] at hblock
    simp only [added, changeAll]
    cases hpick : c.add (s.resolve c.file) columns s.store pick with
    | error fault =>
      rw [hpick] at hblock
      exact performSteps_failed hblock
    | ok st =>
      rw [hpick] at hblock
      exact (performSteps_behind hblock).trans (ih rfl hload)

/-- Reading the columns one after the other has the effect of reading them at once. -/
theorem performSteps_columns (hsteps : List.Forall₂ (ReadsColumn s.dateFormat c) steps c.picks)
    (hsome : steps ≠ []) : SameEffect ((performSteps steps).perform s) (exec c.run s) := by
  rw [GetSeries.exec_run]
  cases hload : c.load s with
  | error fault =>
    -- The first of the blocks cannot read the file either.
    obtain ⟨step, rest, rfl⟩ := List.exists_cons_of_ne_nil hsome
    generalize c.picks = picks at hsteps
    cases hsteps with
    | @cons _ pick _ _ hstep _ =>
      obtain ⟨q, rfl, hq⟩ := hstep
      have hload' : GetSeries.load { c with picks := [pick] } s = .error fault := hload
      have hblock := performBlock_reading hq
      rw [GetSeries.exec_run, hload'] at hblock
      exact performSteps_failed hblock
  | ok columns => exact performSteps_picks hsteps rfl hload

theorem performSteps_single (p : Params) (s : Session) :
    SameEffect ((performSteps [.perform p]).perform s) ((performBlock p).perform s) := by
  rw [perform_perform]
  rcases (performBlock p).perform s with ⟨_ | _, _⟩ <;> exact ⟨rfl, rfl⟩

/-- A block that reads the columns at once has the effect of blocks of one column each. -/
theorem performSteps_reading (hread : Command.ofParams p s.dateFormat = .ok (.getSeries c))
    (hsteps : List.Forall₂ (ReadsColumn s.dateFormat c) steps c.picks) (hsome : steps ≠ []) :
    SameEffect ((performSteps [.perform p]).perform s) ((performSteps steps).perform s) :=
  ((performSteps_single p s).trans (performBlock_reading hread)).trans
    (performSteps_columns hsteps hsome).symm

/-! ## Files of such steps -/

theorem readsColumn_perform {dates : DateFormat} {pick : String × EntityName}
    (htext : Command.textReaders.contains p.command = true)
    (hread : GetSeries.ofParams p dates = .ok { c with picks := [pick] }) :
    ReadsColumn dates c (.perform p) pick := by
  refine ⟨p, rfl, ?_⟩
  rw [GetSeries.ofParams_textReader htext, hread]
  rfl

/-- Columns can be read at once if their file can be read and all of them can be added. -/
theorem isOk_reading {text : String} {columns : DataTable}
    (hfile : s.files.read (s.resolve c.file) = .ok text)
    (htable : c.table (s.resolve c.file) text = .ok columns)
    (hadd : (changeAll (c.add (s.resolve c.file) columns) c.picks s.store).1.isOk = true) :
    (exec c.run s).1.isOk = true := by
  have hload : c.load s = .ok columns := bind_eq_ok.mpr ⟨text, hfile, htable⟩
  rw [GetSeries.exec_run, hload]
  exact hadd

/-- A file whose steps read the columns has a successful run if they can be read at once. -/
theorem isOk_text_columns {sc : Script} {debug : Bool} (hread : Script.read source = .ok sc)
    (hplanned : (plan runContext sc.invocations).toOption.map Prod.fst = some steps)
    (hsteps : List.Forall₂ (ReadsColumn s.dateFormat c) steps c.picks) (hsome : steps ≠ [])
    (hrun : (exec c.run s).1.isOk = true) :
    ((text ⟨some runContext, debug⟩ source).perform s).1.isOk = true := by
  obtain ⟨out, hplan, rfl⟩ := ok_of_toOption_map hplanned
  have hall := (performSteps_columns hsteps hsome).isOk.trans hrun
  have hcontext : contextOf ⟨some runContext, debug⟩ sc = .ok runContext := rfl
  rw [perform_text hread, hcontext]
  dsimp only
  rw [hplan]
  dsimp only
  rcases hperform : (performSteps out.1).perform s with ⟨_ | q, s'⟩
  · rw [hperform] at hall
    cases hall
  · rfl

end Run

end Hydroseries
