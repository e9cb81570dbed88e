import Hydroseries.Proofs.Control.Context
import Hydroseries.Proofs.Run.Report

/-!
# What a run reports

A run that succeeds has planned all blocks of its file and performed the steps (`text_eq_ok`). Its
report has the origin of every invocation once: among the executed ones if the invocation belongs to
the run (`Belongs`), else among the skipped ones, in both in the order of the file
(`report_partitions_invocations`).
-/

namespace Hydroseries.Run

open Control (Block GivesContext Invocation Line Notice Origin Script blocksOf unroll)
open Stateful (exec_bind_eq_ok exec_bind_outcome_eq_ok exec_get)

variable {settings : Settings} {runContext source : String} {s s' : Session} {report : RunReport}
  {i : Invocation}

/-! ## Runs that succeed -/

theorem contextOf_eq_ok {sc : Script} :
    contextOf settings sc = .ok runContext ↔
      settings.context.or sc.settingsContext? = some runContext := by
  unfold contextOf
  cases settings.context.or sc.settingsContext? <;> simp

/-- A run succeeds if its file is read, there is a context, the plan succeeds and its steps do. -/
theorem text_eq_ok : (text settings source).perform s = (.ok report, s') ↔
    ∃ sc runContext steps notices q, Script.read source = .ok sc ∧
      settings.context.or sc.settingsContext? = some runContext ∧
      plan runContext sc.invocations = .ok (steps, notices) ∧
      (performSteps steps).perform s = (.ok q, s') ∧
      report = ⟨runContext, q.1, q.2, sc.notices ++ notices,
        if settings.debug then some s'.store.summary else none⟩ := by
  simp only [← contextOf_eq_ok, ← exec_eq_perform]
  constructor
  · intro h
    obtain ⟨sc, hread, h⟩ := exec_bind_outcome_eq_ok.mp h
    obtain ⟨runContext, hcontext, h⟩ := exec_bind_outcome_eq_ok.mp h
    obtain ⟨⟨steps, notices⟩, hplan, h⟩ := exec_bind_outcome_eq_ok.mp h
    obtain ⟨q, s₁, hsteps, h⟩ := exec_bind_eq_ok.mp h
    rw [exec_get] at h
    cases h
    exact ⟨sc, runContext, steps, notices, q, hread, hcontext, hplan, hsteps, rfl⟩
  · rintro ⟨sc, runContext, steps, notices, q, hread, hcontext, hplan, hsteps, rfl⟩
    apply exec_bind_outcome_eq_ok.mpr ⟨sc, hread, ?_⟩
    apply exec_bind_outcome_eq_ok.mpr ⟨runContext, hcontext, ?_⟩
    apply exec_bind_outcome_eq_ok.mpr ⟨(steps, notices), hplan, ?_⟩
    exact exec_bind_eq_ok.mpr ⟨q, s', hsteps, rfl⟩

/-! ## Who belongs to a run -/

/-- Settings belong to every run, other invocations to those of their context. -/
def Belongs (runContext : String) (i : Invocation) : Prop :=
  i.command = "SETTINGS" ∨ i.context? = some everyContext ∨ i.context? = some runContext

instance (runContext : String) : DecidablePred (Belongs runContext) := fun _ =>
  inferInstanceAs (Decidable (_ ∨ _ ∨ _))

theorem selected_iff_belongs {context : String} (h : i.context? = some context) :
    Selected runContext i ↔ Belongs runContext i := by
  simp only [Selected, Belongs, h, Option.some.injEq, exists_eq_left']
  tauto

/-- An invocation that is planned has a context, and a step by whether it belongs to the run. -/
theorem step_of_planBlock {out : Step × List Notice}
    (hname : ∀ d, Catalog.find? i.command = some d → d.name = i.command)
    (h : planBlock runContext i = .ok out) : ∃ context, i.context? = some context ∧
      ((Belongs runContext i ∧ ∃ p : Params, out.1 = .perform p ∧ ⟨p.command, p.line⟩ = i.origin) ∨
        (¬ Belongs runContext i ∧ out.1 = .skip i.origin)) := by
  cases hcontext : i.context? with
  | none =>
    rw [planBlock, hcontext] at h
    cases h
  | some context =>
    refine ⟨context, rfl, ?_⟩
    rw [← selected_iff_belongs hcontext]
    by_cases hselected : Selected runContext i
    · apply Or.inl
      rw [planBlock_of_selected hselected] at h
      split at h
      next => cases h
      next d hfind =>
        obtain ⟨p, hresolve, h⟩ := bind_eq_ok.mp h
        obtain ⟨hcommand, hline⟩ := params_of_resolve (hname d hfind) hresolve
        refine ⟨hselected, p, ?_, ?_⟩
        · rw [← Except.ok.inj h]
        · rw [hcommand, hline, Invocation.origin]
    · apply Or.inr
      rw [planBlock_of_not_selected hcontext hselected] at h
      exact ⟨hselected, by rw [← Except.ok.inj h]⟩

/-- All invocations of a plan have a context, and the origins that are reported are theirs, executed or
skipped. -/
theorem origins_of_plan {invocations : List Invocation} {steps : List Step} {notices : List Notice}
    {q : List Origin × List Origin}
    (hname : ∀ i ∈ invocations, ∀ d, Catalog.find? i.command = some d → d.name = i.command)
    (hplan : plan runContext invocations = .ok (steps, notices))
    (hsteps : (performSteps steps).perform s = (.ok q, s')) :
    (∀ i ∈ invocations, ∃ context, i.context? = some context) ∧
      q = ((invocations.filter (Belongs runContext ·)).map Invocation.origin,
        (invocations.filter (¬ Belongs runContext ·)).map Invocation.origin) := by
  obtain ⟨outs, houts, hout⟩ := bind_eq_ok.mp hplan
  obtain ⟨rfl, -⟩ := Prod.mk.inj (Except.ok.inj hout)
  have hall := mapM_eq_ok.mp houts
  clear hplan houts hout
  induction hall generalizing s q with
  | nil =>
    cases hsteps
    exact ⟨nofun, rfl⟩
  | @cons i out invocations outs hi _ ih =>
    rw [List.forall_mem_cons] at hname ⊢
    rw [List.map_cons] at hsteps
    obtain ⟨context, hcontext, ⟨hbelongs, p, hstep, horigin⟩ | ⟨hbelongs, hstep⟩⟩ :=
      step_of_planBlock hname.1 hi
    · rw [hstep, performSteps_perform_eq_ok] at hsteps
      obtain ⟨origin, s₁, q', hblock, hrest, rfl⟩ := hsteps
      obtain ⟨c, -, -, rfl⟩ := performBlock_eq_ok.mp hblock
      obtain ⟨hcontexts, rfl⟩ := ih hname.2 hrest
      refine ⟨⟨⟨context, hcontext⟩, hcontexts⟩, ?_⟩
      rw [horigin]
      simp [hbelongs]
    · rw [hstep, performSteps_skip_eq_ok] at hsteps
      obtain ⟨q', hrest, rfl⟩ := hsteps
      obtain ⟨hcontexts, rfl⟩ := ih hname.2 hrest
      refine ⟨⟨⟨context, hcontext⟩, hcontexts⟩, ?_⟩
      simp [hbelongs]

/-! ## The report -/

/-- The context of a run is the one that is given to it, unless that is blank, or else that of the
file. -/
theorem context_of_settings {context : Option String} {debug : Bool} {sc : Script}
    (hread : Script.read source = .ok sc)
    (h : (Settings.ofContext context debug).context.or sc.settingsContext? = some runContext) :
    (context = some runContext ∧ Text.isAllBlank runContext = false) ∨
      (context.all Text.isAllBlank = true ∧ GivesContext sc.blocks runContext) := by
  have hfile (h : sc.settingsContext? = some runContext) : GivesContext sc.blocks runContext := by
    obtain ⟨hblocks, -, outs, houts, hinvocations, -⟩ := Script.read_eq_ok.mp hread
    rw [Script.settingsContext?, hinvocations] at h
    exact Control.givesContext_of_unroll hblocks (fun _ hb => hb) houts h
  cases context with
  | none => exact .inr ⟨rfl, hfile h⟩
  | some given =>
    cases hblank : Text.isAllBlank given with
    | true =>
      rw [Settings.ofContext, Option.filter_some, hblank] at h
      exact .inr ⟨hblank, hfile h⟩
    | false =>
      rw [Settings.ofContext, Option.filter_some, hblank] at h
      obtain rfl := Option.some.inj h
      exact .inl ⟨rfl, hblank⟩

/-- The report of a run that succeeds has the origin of every invocation of the file once: settings,
and those whose context is that of the run or the one of all runs, among the executed ones, and the
others among the skipped ones. The context of an invocation is what it has of the first line on the
context of its block. -/
theorem report_partitions_invocations {context : Option String} {debug : Bool}
    (h : (text (.ofContext context debug) source).perform s = (.ok report, s')) :
    ∃ sc outs, Script.read source = .ok sc ∧ sc.invocations = outs.flatMap Prod.fst ∧
      List.Forall₂ (fun b out => unroll b = .ok out ∧ ∀ n i, out.1[n]? = some i →
        i.origin = b.origin ∧ ∃ l c, b.contextLine? = some l ∧ l.textFor? b.command n = some c ∧
          i.context? = some c) sc.blocks outs ∧
      ((context = some report.context ∧ Text.isAllBlank report.context = false) ∨
        (context.all Text.isAllBlank = true ∧ GivesContext sc.blocks report.context)) ∧
      report.executed =
        (sc.invocations.filter (Belongs report.context ·)).map Invocation.origin ∧
      report.skipped =
        (sc.invocations.filter (¬ Belongs report.context ·)).map Invocation.origin ∧
      (report.executed ++ report.skipped).Perm (sc.invocations.map Invocation.origin) := by
  obtain ⟨sc, runContext, steps, notices, q, hread, hcontext, hplan, hsteps, rfl⟩ := text_eq_ok.mp h
  obtain ⟨hblocks, -, outs, houts, hinvocations, -⟩ := Script.read_eq_ok.mp hread
  obtain ⟨hcontexts, rfl⟩ := origins_of_plan (Script.name_of_read hread) hplan hsteps
  refine ⟨sc, outs, hread, hinvocations, ?_, context_of_settings hread hcontext, rfl, rfl, ?_⟩
  · apply List.forall₂_iff_zip.mpr ⟨houts.length_eq, ?_⟩
    intro b out hmem
    obtain ⟨hb, hout⟩ := List.of_mem_zip hmem
    have hunroll := List.forall₂_zip houts hmem
    refine ⟨hunroll, fun n i hi => ?_⟩
    have hi' : i ∈ out.1 := List.mem_of_getElem? hi
    refine ⟨Control.origin_of_unroll hunroll i hi', ?_⟩
    obtain ⟨c, hc⟩ := hcontexts i (hinvocations ▸ List.mem_flatMap.mpr ⟨out, hout, hi'⟩)
    have hline := Control.context_of_unroll hblocks hb hunroll hi
    rw [hc] at hline
    obtain ⟨l, hl, htext⟩ := Option.bind_eq_some_iff.mp hline.symm
    exact ⟨l, c, hl, htext, hc⟩
  · rw [← List.map_append]
    apply List.Perm.map
    simpa using List.filter_append_perm (fun i => decide (Belongs runContext i)) sc.invocations

/-- Settings with two lines on the context, and a block for two runs. -/
def twoRunsText : String :=
  "START SETTINGS\n CONTEXT calib\n CONTEXT other\nEND SETTINGS\n" ++
    "START ERASE_ENTITY\n CONTEXT calib other\n SERIES_NAME q q1\nEND ERASE_ENTITY\n"

theorem perform_twoRuns : (((text (.ofContext (some " ") false) twoRunsText).perform
      Report.twinSession).1.toOption.map fun r => (r.context, r.executed, r.skipped)) =
    some ("calib", [⟨"SETTINGS", 1⟩, ⟨"ERASE_ENTITY", 5⟩], [⟨"ERASE_ENTITY", 5⟩]) := by
  decide +kernel

/-- A blank context is none, so the settings give it; the first value of a line with two belongs to the
first invocation. -/
theorem report_of_twoRuns : ∃ report s' sc,
    (text (.ofContext (some " ") false) twoRunsText).perform Report.twinSession =
        (.ok report, s') ∧
      Script.read twoRunsText = .ok sc ∧ GivesContext sc.blocks "calib" ∧
      report.executed = (sc.invocations.filter (Belongs "calib" ·)).map Invocation.origin ∧
      report.executed = [⟨"SETTINGS", 1⟩, ⟨"ERASE_ENTITY", 5⟩] ∧
      report.skipped = [⟨"ERASE_ENTITY", 5⟩] := by
  obtain ⟨report, s', h, hparts⟩ := ok_of_fst_toOption_map perform_twoRuns
  obtain ⟨hcontext, hparts⟩ := Prod.mk.inj hparts
  obtain ⟨hexecuted, hskipped⟩ := Prod.mk.inj hparts
  obtain ⟨sc, outs, hread, -, -, hgives, hfilter, -⟩ := report_partitions_invocations h
  rw [hcontext] at hgives hfilter
  have hnot : ¬ (some " " = some "calib" ∧ Text.isAllBlank "calib" = false) := by
    rintro ⟨hgiven, -⟩
    exact absurd (Option.some.inj hgiven) (by decide)
  exact ⟨report, s', sc, h, hread, (hgives.resolve_left hnot).2, hfilter, hexecuted, hskipped⟩

end Hydroseries.Run
