import Hydroseries.Proofs.Command.Writing
import Hydroseries.Proofs.Control.Order
import Hydroseries.Proofs.Pest.Files
import Hydroseries.Proofs.Run.Execution
import Mathlib.Data.List.Induction

/-!
# The report that parameter files are written for

Parameter files are written for the last report of the session. In a run that is the report of the
last report block that was performed, or the one from before the run if there was none
(`lastReport_of_performSteps`). The report block that stands before the block on parameter files in
the file need not be it, as it may be passed over (`report_of_parameterFiles`).
-/

namespace Hydroseries.Command

variable {p : Params} {dates : DateFormat}

/-! ## Blocks by their commands -/

theorem ofParams_listOutput (h : p.command = "LIST_OUTPUT") :
    ofParams p dates = (ListOutput.ofParams p).map listOutput := by
  unfold ofParams
  rw [h]
  rfl

theorem ofParams_writePestFiles (h : p.command = "WRITE_PEST_FILES") :
    ofParams p dates = (Pest.FilesBlock.ofParams p).map writePestFiles := by
  unfold ofParams
  rw [h]
  rfl

/-- Only a report block is read as the command that writes a report. -/
theorem command_of_listOutput {c : ListOutput} (h : ofParams p dates = .ok (.listOutput c)) :
    p.command = "LIST_OUTPUT" := by
  unfold ofParams at h
  split at h
  · obtain ⟨_, -, ha⟩ := map_eq_ok.mp h
    cases ha
  · split at h
    · obtain ⟨_, -, ha⟩ := map_eq_ok.mp h
      cases ha
    · split at h
      -- The other commands are read as commands of their own.
      all_goals first
        | assumption
        | cases h
        | (obtain ⟨_, -, ha⟩ := map_eq_ok.mp h
           cases ha)

end Hydroseries.Command

namespace Hydroseries.Run

open Command (ListOutput)
open Control (Origin Script)
open Pest (FilesBlock)
open Report (Listing)

variable {s s' s₁ : Session} {p : Params} {steps front rest : List Step}

/-! ## Steps -/

/-- A block that is performed is read and run. -/
theorem performBlock_eq_ok {origin : Origin} : (performBlock p).perform s = (.ok origin, s') ↔
    ∃ c, Command.ofParams p s.dateFormat = .ok c ∧ c.run.perform s = (.ok (), s') ∧
      origin = ⟨p.command, p.line⟩ := by
  rw [perform_performBlock]
  cases Command.ofParams p s.dateFormat with
  | error fault => simp
  | ok c =>
    rcases hrun : c.run.perform s with ⟨_ | _, s₁⟩
    · simp [hrun]
    · simp [hrun, eq_comm, and_comm]

theorem performSteps_skip_eq_ok {origin : Origin} {q : List Origin × List Origin} :
    (performSteps (.skip origin :: rest)).perform s = (.ok q, s') ↔
      ∃ q', (performSteps rest).perform s = (.ok q', s') ∧ q = (q'.1, origin :: q'.2) := by
  rw [perform_skip]
  rcases (performSteps rest).perform s with ⟨_ | q', s₁⟩
  · simp [Except.map]
  · constructor
    · intro h
      cases h
      exact ⟨q', rfl, rfl⟩
    · rintro ⟨_, h, rfl⟩
      cases h
      rfl

theorem performSteps_perform_eq_ok {q : List Origin × List Origin} :
    (performSteps (.perform p :: rest)).perform s = (.ok q, s') ↔
      ∃ origin s₁ q', (performBlock p).perform s = (.ok origin, s₁) ∧
        (performSteps rest).perform s₁ = (.ok q', s') ∧ q = (origin :: q'.1, q'.2) := by
  rw [perform_perform]
  rcases (performBlock p).perform s with ⟨_ | origin, s₁⟩
  · simp
  · rcases hrest : (performSteps rest).perform s₁ with ⟨_ | q', s₂⟩
    · simp [Except.map, hrest]
    · simp only [hrest]
      constructor
      · intro h
        cases h
        exact ⟨origin, s₁, q', rfl, hrest, rfl⟩
      · rintro ⟨_, _, _, hblock, hrest', rfl⟩
        cases hblock
        rw [hrest] at hrest'
        cases hrest'
        rfl

/-- Steps succeed if those in front do and the rest do from there. -/
theorem performSteps_append_eq_ok {q : List Origin × List Origin} :
    (performSteps (front ++ rest)).perform s = (.ok q, s') ↔
      ∃ q₁ s₁ q₂, (performSteps front).perform s = (.ok q₁, s₁) ∧
        (performSteps rest).perform s₁ = (.ok q₂, s') ∧ q = (q₁.1 ++ q₂.1, q₁.2 ++ q₂.2) := by
  induction front generalizing s q with
  | nil =>
    constructor
    · exact fun h => ⟨([], []), s, q, rfl, h, rfl⟩
    · rintro ⟨_, _, q₂, hnil, hrest, rfl⟩
      cases hnil
      exact hrest
  | cons step front ih =>
    rw [List.cons_append]
    cases step with
    | skip origin =>
      simp only [performSteps_skip_eq_ok, ih]
      constructor
      · rintro ⟨_, ⟨q₁, s₁, q₂, hfront, hrest, rfl⟩, rfl⟩
        exact ⟨_, s₁, q₂, ⟨q₁, hfront, rfl⟩, hrest, rfl⟩
      · rintro ⟨_, s₁, q₂, ⟨q₁, hfront, rfl⟩, hrest, rfl⟩
        exact ⟨_, ⟨q₁, s₁, q₂, hfront, hrest, rfl⟩, rfl⟩
    | perform p =>
      simp only [performSteps_perform_eq_ok, ih]
      constructor
      · rintro ⟨origin, s₀, _, hblock, ⟨q₁, s₁, q₂, hfront, hrest, rfl⟩, rfl⟩
        exact ⟨_, s₁, q₂, ⟨origin, s₀, q₁, hblock, hfront, rfl⟩, hrest, rfl⟩
      · rintro ⟨_, s₁, q₂, ⟨origin, s₀, q₁, hblock, hfront, rfl⟩, hrest, rfl⟩
        exact ⟨origin, s₀, _, hblock, ⟨q₁, s₁, q₂, hfront, hrest, rfl⟩, rfl⟩

theorem performSteps_concat_eq_ok {q : List Origin × List Origin}
    (h : (performSteps (front ++ [.perform p])).perform s = (.ok q, s')) :
    ∃ q₁ s₁ origin, (performSteps front).perform s = (.ok q₁, s₁) ∧
      (performBlock p).perform s₁ = (.ok origin, s') := by
  obtain ⟨q₁, s₁, q₂, hfront, hlast, -⟩ := performSteps_append_eq_ok.mp h
  obtain ⟨origin, s₂, q', hblock, hnil, -⟩ := performSteps_perform_eq_ok.mp hlast
  obtain ⟨-, rfl⟩ := Prod.mk.inj hnil
  exact ⟨q₁, s₁, origin, hfront, hblock⟩

/-! ## Sessions after runs -/

theorem reached_performBlock (h : Command.Reached s) :
    Command.Reached ((performBlock p).perform s).2 := by
  rw [perform_performBlock]
  cases Command.ofParams p s.dateFormat with
  | error fault => exact h
  | ok c =>
    have hc := h.run c
    rcases hrun : c.run.perform s with ⟨_ | _, s₁⟩ <;> simpa [hrun] using hc

/-- A run leads to a session that commands lead to, also if it ends with a fault. -/
theorem reached_performSteps (h : Command.Reached s) :
    Command.Reached ((performSteps steps).perform s).2 := by
  induction steps generalizing s with
  | nil => exact h
  | cons step rest ih =>
    cases step with
    | skip origin =>
      rw [perform_skip]
      exact ih h
    | perform p =>
      have hblock := reached_performBlock (p := p) h
      rw [perform_perform]
      generalize (performBlock p).perform s = run at hblock ⊢
      obtain ⟨_ | origin, s₁⟩ := run
      · exact hblock
      · exact ih hblock

/-! ## The last report -/

/-- The step writes a report. -/
def Step.Reports : Step → Prop
  | .perform p => p.command = "LIST_OUTPUT"
  | .skip _ => False

/-- Of steps performed in a session, the last one wrote the report. -/
inductive JustReported (s : Session) : List Step → Listing → Prop
  | intro {front q s₁ p c listing} : (performSteps front).perform s = (.ok q, s₁) →
      p.command = "LIST_OUTPUT" → ListOutput.ofParams p = .ok c → c.layOut s₁ = .ok listing →
      JustReported s (front ++ [.perform p]) listing

/-- The last report after steps performed in a session: it was written by one of them, and none after
that writes a report, or none of them does and it is from before. -/
inductive LastReport (s : Session) : List Step → Option Listing → Prop
  | earlier : LastReport s [] s.listing
  | reported {steps listing} : JustReported s steps listing → LastReport s steps (some listing)
  | kept {steps step listing} : LastReport s steps listing → ¬ step.Reports →
      LastReport s (steps ++ [step]) listing

/-- What one block does to the last report. -/
theorem listing_of_performBlock {origin : Origin}
    (h : (performBlock p).perform s = (.ok origin, s')) :
    p.command ≠ "LIST_OUTPUT" ∧ s'.listing = s.listing ∨
    p.command = "LIST_OUTPUT" ∧ ∃ c listing, ListOutput.ofParams p = .ok c ∧
      c.layOut s = .ok listing ∧ s'.listing = some listing := by
  obtain ⟨c, hc, hrun, -⟩ := performBlock_eq_ok.mp h
  by_cases hp : p.command = "LIST_OUTPUT"
  · rw [Command.ofParams_listOutput hp] at hc
    obtain ⟨report, hread, rfl⟩ := map_eq_ok.mp hc
    obtain ⟨listing, files, hlayout, -, rfl⟩ := ListOutput.run_eq_ok.mp hrun
    exact .inr ⟨hp, report, listing, hread, hlayout, rfl⟩
  · have hkeep := Command.keeps_listing c (fun l hl => hp (Command.command_of_listOutput (hl ▸ hc))) s
    rw [exec_eq_perform, hrun] at hkeep
    exact .inl ⟨hp, hkeep⟩

/-- After a run the last report is that of the last report block performed, or from before. -/
theorem lastReport_of_performSteps {q : List Origin × List Origin}
    (h : (performSteps steps).perform s = (.ok q, s')) : LastReport s steps s'.listing := by
  induction steps using List.reverseRecOn generalizing q s' with
  | nil =>
    obtain ⟨-, rfl⟩ := Prod.mk.inj h
    exact .earlier
  | append_singleton front step ih =>
    cases step with
    | skip origin =>
      obtain ⟨q₁, s₁, q₂, hfront, hlast, -⟩ := performSteps_append_eq_ok.mp h
      obtain ⟨q', hnil, -⟩ := performSteps_skip_eq_ok.mp hlast
      obtain ⟨-, rfl⟩ := Prod.mk.inj hnil
      exact .kept (ih hfront) id
    | perform p =>
      obtain ⟨q₁, s₁, origin, hfront, hblock⟩ := performSteps_concat_eq_ok h
      rcases listing_of_performBlock hblock with
        ⟨hp, hsame⟩ | ⟨hp, c, listing, hc, hlayout, hlisting⟩
      · rw [hsame]
        exact .kept (ih hfront) hp
      · rw [hlisting]
        exact .reported (.intro hfront hp hc hlayout)

/-- If the last step writes a report, its report is the last one. -/
theorem LastReport.justReported {step : Step} {listing : Listing}
    (h : LastReport s (front ++ [step]) (some listing)) (hstep : step.Reports) :
    JustReported s (front ++ [step]) listing := by
  generalize hsteps : front ++ [step] = steps at h
  generalize hlisting : some listing = report at h
  cases h with
  | earlier => simp at hsteps
  | reported h =>
    obtain rfl := Option.some.inj hlisting
    exact h
  | kept h hnot =>
    obtain ⟨-, rfl⟩ := List.append_singleton_inj.mp hsteps
    exact absurd hstep hnot

/-- If the last step writes no report, the last report is that from before it. -/
theorem LastReport.dropLast {step : Step} {report : Option Listing}
    (h : LastReport s (front ++ [step]) report) (hstep : ¬ step.Reports) :
    LastReport s front report := by
  generalize hsteps : front ++ [step] = steps at h
  cases h with
  | earlier => simp at hsteps
  | reported h =>
    obtain ⟨-, hp, -, -⟩ := h
    obtain ⟨-, rfl⟩ := List.append_singleton_inj.mp hsteps
    exact absurd hp hstep
  | kept h hnot =>
    obtain ⟨rfl, -⟩ := List.append_singleton_inj.mp hsteps
    exact h

theorem JustReported.reports {step : Step} {listing : Listing}
    (h : JustReported s (front ++ [step]) listing) : step.Reports := by
  generalize hsteps : front ++ [step] = steps at h
  obtain ⟨-, hp, -, -⟩ := h
  obtain ⟨-, rfl⟩ := List.append_singleton_inj.mp hsteps
  exact hp

/-! ## The report of parameter files -/

/-- What is related to a list with a last member has one itself. -/
theorem exists_concat_of_forall₂ {α β : Type} {R : α → β → Prop} {xs : List α} {x : α} {ys : List β}
    (h : List.Forall₂ R (xs ++ [x]) ys) : ∃ ys' y, R x y ∧ ys = ys' ++ [y] := by
  have hlast := List.forall₂_drop_append _ _ _ h.flip
  have hsplit := List.take_append_drop xs.length ys
  generalize ys.drop xs.length = rest at hlast hsplit
  cases hlast with
  | @cons y _ _ _ hy hnil =>
    cases hnil
    exact ⟨ys.take xs.length, y, hy, hsplit.symm⟩

/-- The step of a report block writes a report just if the block belongs to the run. -/
theorem Planned.reports_iff {runContext : String} {i : Control.Invocation} {step : Step}
    (h : Planned runContext i step) (hi : i.command = "LIST_OUTPUT")
    (hname : ∀ d, Catalog.find? i.command = some d → d.name = i.command) :
    step.Reports ↔ Selected runContext i := by
  cases h with
  | skip hnot => exact iff_of_false id hnot
  | perform hselected hfind hresolve =>
    exact iff_of_true ((params_of_resolve (hname _ hfind) hresolve).1.trans hi) hselected

/-- A block on parameter files that succeeds behind other steps writes its files from the last report
that they have left. -/
theorem files_of_performSteps {q : List Origin × List Origin} (hp : p.command = "WRITE_PEST_FILES")
    (hrun : (performSteps (front ++ [.perform p])).perform s = (.ok q, s')) :
    ∃ q₁ s₁ b listing a files, (performSteps front).perform s = (.ok q₁, s₁) ∧
      FilesBlock.ofParams p = .ok b ∧ s₁.listing = some listing ∧
      s₁.files.write (s₁.resolve b.instructionFile) listing.instructions = .ok files ∧
      files.write (s₁.resolve b.controlFile) (b.controlText a listing.file) = .ok s'.files ∧
      LastReport s front (some listing) := by
  obtain ⟨q₁, s₁, origin, hfront, hblock⟩ := performSteps_concat_eq_ok hrun
  obtain ⟨c, hc, hperform, -⟩ := performBlock_eq_ok.mp hblock
  rw [Command.ofParams_writePestFiles hp] at hc
  obtain ⟨b, hb, rfl⟩ := map_eq_ok.mp hc
  obtain ⟨listing, a, files, files', hlisting, -, hinstructions, hcontrol, rfl⟩ :=
    Command.WritePestFiles.run_eq_ok.mp hperform
  have hlast := lastReport_of_performSteps hfront
  rw [hlisting] at hlast
  exact ⟨q₁, s₁, b, listing, a, files, hfront, hb, hlisting, hinstructions, hcontrol, hlast⟩

/-- In a run of a file, a block on parameter files that succeeds writes its files from the last report
that was written before in the run, or else from one from before the run. If the block is spelled so in
lower case, a report block comes right before it in the file, and the last report is that of this
block just if the block belongs to the run; if not, it is passed over. -/
theorem report_of_parameterFiles {source : String} {sc : Script} {runContext : String}
    {notices : List Control.Notice} {q : List Origin × List Origin}
    (hread : Script.read source = .ok sc)
    (hplan : plan runContext sc.invocations = .ok (front ++ .perform p :: rest, notices))
    (hp : p.command = "WRITE_PEST_FILES")
    (hrun : (performSteps (front ++ [.perform p])).perform s = (.ok q, s')) :
    ∃ q₁ s₁ b listing a files, (performSteps front).perform s = (.ok q₁, s₁) ∧
      FilesBlock.ofParams p = .ok b ∧ s₁.listing = some listing ∧
      s₁.files.write (s₁.resolve b.instructionFile) listing.instructions = .ok files ∧
      files.write (s₁.resolve b.controlFile) (b.controlText a listing.file) = .ok s'.files ∧
      LastReport s front (some listing) ∧
      ∃ before block after, sc.blocks = before ++ block :: after ∧
        block.origin = ⟨p.command, p.line⟩ ∧
        (block.command = "write_pest_files" → ∃ earlier report r done step,
          before = earlier ++ [report] ∧ report.command = "list_output" ∧ r ∈ sc.invocations ∧
          r.origin = report.origin ∧ front = done ++ [step] ∧ Planned runContext r step ∧
          (JustReported s front listing ↔ Selected runContext r) ∧
          (¬ Selected runContext r → LastReport s done (some listing))) := by
  have hname := Script.name_of_read hread
  have hplanned := planned_of_plan hname hplan
  obtain ⟨q₁, s₁, b, listing, a, files, hfront, hb, hlisting, hinstructions, hcontrol, hlast⟩ :=
    files_of_performSteps hp hrun
  refine ⟨q₁, s₁, b, listing, a, files, hfront, hb, hlisting, hinstructions, hcontrol, hlast, ?_⟩
  -- The invocation of the block, and those of the steps in front of it.
  have hbefore := List.forall₂_take_append _ _ _ hplanned
  have hbehind := List.forall₂_drop_append _ _ _ hplanned
  have hsplit := List.take_append_drop front.length sc.invocations
  generalize sc.invocations.take front.length = invocations at hbefore hsplit
  generalize sc.invocations.drop front.length = following at hbehind hsplit
  cases hbehind with
  | @cons i _ following _ hi _ =>
  cases hi with
  | @perform d _ hselected hfind hresolve =>
  have hmem : ∀ j ∈ invocations, j ∈ sc.invocations := fun j hj => hsplit ▸ List.mem_append_left _ hj
  obtain ⟨hcommand, hline⟩ :=
    params_of_resolve (hname i (hsplit ▸ List.mem_append_right _ List.mem_cons_self) d hfind) hresolve
  obtain ⟨before, block, after, hblocks, horigin, hreport⟩ :=
    Script.report_before hread hsplit.symm
  refine ⟨before, block, after, hblocks, ?_, fun hspelled => ?_⟩
  · rw [horigin, Control.Invocation.origin, hcommand, hline]
  · obtain ⟨earlier, report, invoked, r, hbefore', hlistOutput, rfl, hr⟩ := hreport hspelled
    obtain ⟨done, step, hstep, rfl⟩ := exists_concat_of_forall₂ hbefore
    have hr' : r.command = "LIST_OUTPUT" := by
      have htitle : r.command = Text.upper report.command := congrArg Origin.command hr
      rw [htitle, hlistOutput]
      decide +kernel
    have hreports := hstep.reports_iff hr' (hname r (hmem r (by simp)))
    exact ⟨earlier, report, r, done, step, hbefore', hlistOutput, hmem r (by simp), hr, rfl, hstep,
      ⟨fun h => hreports.mp h.reports, fun h => hlast.justReported (hreports.mpr h)⟩,
      fun h => hlast.dropLast fun hstep => h (hreports.mp hstep)⟩

/-! ### A report block that is passed over -/

section

open Pest (calibrationLines calibrationParams calibrationBlock calibrationSession)

/-- The lines of a block that lists the simulated table. -/
def reportLines (context file : String) : List Control.Line :=
  [⟨"context", [context]⟩, ⟨"file", [file]⟩, ⟨"v_table_name", ["sim"]⟩]

/-- Two report blocks, the second one of another context, and a block on parameter files. -/
def staleText : String :=
  String.ofList (Pest.blockChars "list_output" (reportLines "all" "first") ++ '\n' ::
    Pest.blockChars "list_output" (reportLines "other" "second") ++ '\n' ::
    Pest.blockChars "write_pest_files" calibrationLines)

def staleScript : Script where
  blocks := [Pest.namedBlock "list_output" 1 (reportLines "all" "first"),
    Pest.namedBlock "list_output" 6 (reportLines "other" "second"),
    Pest.namedBlock "write_pest_files" 11 calibrationLines]
  invocations :=
    [⟨"LIST_OUTPUT", 1, (reportLines "all" "first").foldl Control.collectLine []⟩,
     ⟨"LIST_OUTPUT", 6, (reportLines "other" "second").foldl Control.collectLine []⟩,
     ⟨"WRITE_PEST_FILES", 11, calibrationLines.foldl Control.collectLine []⟩]
  notices := []

theorem read_stale : Script.read staleText = .ok staleScript := by
  rw [Script.read, Control.blocksOf, staleText, String.toList_ofList]
  decide +kernel

/-- The steps before the block on parameter files. -/
def staleFront : List Step :=
  [.perform ⟨"LIST_OUTPUT", 1, ⟨((reportLines "all" "first").drop 1).foldl Control.collectLine []⟩⟩,
   .skip ⟨"LIST_OUTPUT", 6⟩]

theorem plan_stale :
    plan "calib" staleScript.invocations = .ok (staleFront ++ [.perform calibrationParams], []) := by
  decide +kernel

/-- The session after those steps. -/
def staleSession : Session := ((performSteps staleFront).perform calibrationSession).2

theorem perform_staleFront : (performSteps staleFront).perform calibrationSession =
    (.ok ([⟨"LIST_OUTPUT", 1⟩], [⟨"LIST_OUTPUT", 6⟩]), staleSession) :=
  Prod.ext (by decide +kernel) rfl

theorem file_of_stale : staleSession.listing.map Listing.file = some "first" := by decide +kernel

theorem run_stale : ∃ q s',
    (performSteps (staleFront ++ [.perform calibrationParams])).perform calibrationSession =
      (.ok q, s') := by
  obtain ⟨head, hbuild⟩ := Pest.build_calibration
  obtain ⟨s', hrun⟩ := Pest.exists_run (s := staleSession) (by decide +kernel) head
  have hcommand : Command.ofParams calibrationParams staleSession.dateFormat =
      .ok (.writePestFiles (calibrationBlock head)) := by
    rw [Command.ofParams_writePestFiles rfl, hbuild]
    rfl
  have hblock := performBlock_eq_ok.mpr ⟨_, hcommand, hrun, rfl⟩
  exact ⟨_, s', performSteps_append_eq_ok.mpr ⟨_, staleSession, _, perform_staleFront,
    performSteps_perform_eq_ok.mpr ⟨_, s', _, hblock, rfl, rfl⟩, rfl⟩⟩

/-- The block before belongs to another run, so the report is an earlier one. -/
theorem report_of_staleText : ∃ listing r, staleSession.listing = some listing ∧
    r ∈ staleScript.invocations ∧ ¬ Selected "calib" r ∧
    ¬ JustReported calibrationSession staleFront listing ∧
    LastReport calibrationSession (staleFront.take 1) (some listing) := by
  obtain ⟨q, s', hrun⟩ := run_stale
  obtain ⟨q₁, s₁, b, listing, a, files, hfront, -, hlisting, -, -, -, before, block, after, hblocks,
    horigin, hreport⟩ := report_of_parameterFiles read_stale plan_stale rfl hrun
  obtain rfl : s₁ = staleSession := (congrArg Prod.snd hfront).symm
  have hspelled : ∀ b ∈ staleScript.blocks, b.origin = ⟨"WRITE_PEST_FILES", 11⟩ →
      b.command = "write_pest_files" := by decide +kernel
  obtain ⟨earlier, report, r, done, step, -, -, hr, -, hdone, hstep, hjust, hlast⟩ :=
    hreport (hspelled block (by rw [hblocks]; simp) horigin)
  obtain ⟨rfl, hskip⟩ := List.append_singleton_inj.mp (show [_] ++ [_] = done ++ [step] from hdone)
  cases hstep with
  | skip hnot => exact ⟨listing, r, hlisting, hr, hnot, fun h => hnot (hjust.mp h), hlast hnot⟩
  | perform => cases hskip

/-- The block on parameter files succeeds with the report of the first block, although the second
report block stands right before it. -/
theorem stale_report_used : Script.read staleText = .ok staleScript ∧
    plan "calib" staleScript.invocations =
      .ok (staleFront ++ [.perform calibrationParams], []) ∧
    (∃ q s', (performSteps (staleFront ++ [.perform calibrationParams])).perform
      calibrationSession = (.ok q, s')) ∧
    (performSteps staleFront).perform calibrationSession =
      (.ok ([⟨"LIST_OUTPUT", 1⟩], [⟨"LIST_OUTPUT", 6⟩]), staleSession) ∧
    staleSession.listing.map Listing.file = some "first" ∧
    ∀ listing, ¬ JustReported calibrationSession staleFront listing :=
  ⟨read_stale, plan_stale, run_stale, perform_staleFront, file_of_stale, fun _ h =>
    JustReported.reports (show JustReported _ ([_] ++ [_]) _ from h)⟩

end

end Hydroseries.Run
