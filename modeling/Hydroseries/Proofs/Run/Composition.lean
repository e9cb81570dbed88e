import Hydroseries.Proofs.Command.Position
import Hydroseries.Proofs.Control.Shift
import Hydroseries.Proofs.Run.Partition

/-!
# Runs one after the other

A run of two control files put together does what runs of them one after the other do
(`text_append`). It plans both files before the first block is run, but a plan does not depend on
the session, and of what stands before a block only the number of its lines matters, by which the
block is reported.
-/

namespace Hydroseries

open Control (Invocation Notice Origin Script)

/-! ## Plans of shifted blocks -/

namespace Run

variable {runContext : String} {k : Nat} {i : Invocation} {d : Catalog.Descriptor} {p : Params}
  {invocations rest : List Invocation} {steps more : List Step} {notices others : List Notice}

def Step.shift (k : Nat) : Step → Step
  | .perform p => .perform (p.onLine (p.line + k))
  | .skip origin => .skip (origin.shift k)

theorem resolve_shift (h : Params.resolve d i = .ok p) (k : Nat) :
    Params.resolve d (i.shift k) = .ok (p.onLine (p.line + k)) := by
  unfold Params.resolve at h ⊢
  have hkeywords : (i.shift k).keywords = i.keywords := rfl
  have hgiven : Params.given (i.shift k) = Params.given i := rfl
  rw [hkeywords, hgiven]
  split at h
  · cases h
    rfl
  · cases h
  · cases h

theorem noticesOf_shift (d : Catalog.Descriptor) (i : Invocation) (k : Nat) :
    noticesOf d (i.shift k) = (noticesOf d i).map (Notice.shift k) := by
  have hfind : (i.shift k).find? = i.find? := rfl
  simp only [noticesOf, hfind, List.map_append, List.map_map]
  rfl

theorem planBlock_shift {out : Step × List Notice} (h : planBlock runContext i = .ok out)
    (k : Nat) :
    planBlock runContext (i.shift k) = .ok (out.1.shift k, out.2.map (Notice.shift k)) := by
  unfold planBlock at h ⊢
  rw [Invocation.context?_shift, Invocation.command_shift]
  cases hcontext : i.context? with
  | none =>
    rw [hcontext] at h
    cases h
  | some context =>
    rw [hcontext] at h
    have hselects : selects runContext (i.shift k) context = selects runContext i context := rfl
    simp only [hselects] at h ⊢
    split at h
    next hskip =>
      cases h
      rw [if_pos hskip]
      rfl
    next hrun =>
      rw [if_neg hrun]
      cases hfind : Catalog.find? i.command with
      | none =>
        rw [hfind] at h
        cases h
      | some d =>
        rw [hfind] at h
        obtain ⟨p, hp, h⟩ := bind_eq_ok.mp h
        cases h
        apply bind_eq_ok.mpr ⟨_, resolve_shift hp k, ?_⟩
        rw [noticesOf_shift]
        rfl

theorem plan_shift (h : plan runContext invocations = .ok (steps, notices)) (k : Nat) :
    plan runContext (invocations.map (Invocation.shift k)) =
      .ok (steps.map (Step.shift k), notices.map (Notice.shift k)) := by
  obtain ⟨outs, houts, h⟩ := bind_eq_ok.mp h
  cases h
  have hmoved : (invocations.map (Invocation.shift k)).mapM (planBlock runContext) =
      .ok (outs.map fun out => (out.1.shift k, out.2.map (Notice.shift k))) := by
    rw [mapM_eq_ok, List.forall₂_map_left_iff, List.forall₂_map_right_iff]
    exact (mapM_eq_ok.mp houts).imp fun i out hi => planBlock_shift hi k
  apply bind_eq_ok.mpr ⟨_, hmoved, ?_⟩
  rw [List.map_map, List.map_map, List.flatMap_map, List.map_flatMap]
  rfl

theorem plan_append (h : plan runContext invocations = .ok (steps, notices))
    (hrest : plan runContext rest = .ok (more, others)) :
    plan runContext (invocations ++ rest) = .ok (steps ++ more, notices ++ others) := by
  obtain ⟨outs, houts, h⟩ := bind_eq_ok.mp h
  obtain ⟨outs', houts', hrest⟩ := bind_eq_ok.mp hrest
  cases h
  cases hrest
  have hboth : (invocations ++ rest).mapM (planBlock runContext) = .ok (outs ++ outs') :=
    mapM_eq_ok.mpr (List.rel_append (mapM_eq_ok.mp houts) (mapM_eq_ok.mp houts'))
  apply bind_eq_ok.mpr ⟨_, hboth, ?_⟩
  rw [List.map_append, List.flatMap_append]
  rfl

/-! ## Execution of shifted blocks -/

variable {s s' s₁ s₂ : Session}

theorem performBlock_shift {origin : Origin} (h : (performBlock p).perform s = (.ok origin, s'))
    (k : Nat) :
    (performBlock (p.onLine (p.line + k))).perform s = (.ok (origin.shift k), s') := by
  obtain ⟨c, hread, hrun, rfl⟩ := performBlock_eq_ok.mp h
  exact performBlock_eq_ok.mpr ⟨_, Command.ofParams_onLine hread _, Command.run_onLine _ hrun, rfl⟩

/-- Steps do the same on other lines, and are reported there. -/
theorem performSteps_shift {q : List Origin × List Origin}
    (h : (performSteps steps).perform s = (.ok q, s')) (k : Nat) :
    (performSteps (steps.map (Step.shift k))).perform s =
      (.ok (q.1.map (Origin.shift k), q.2.map (Origin.shift k)), s') := by
  induction steps generalizing s q with
  | nil =>
    cases h
    rfl
  | cons step rest ih =>
    rw [List.map_cons]
    cases step with
    | skip origin =>
      obtain ⟨q', hrest, rfl⟩ := performSteps_skip_eq_ok.mp h
      exact performSteps_skip_eq_ok.mpr ⟨_, ih hrest, rfl⟩
    | perform p =>
      obtain ⟨origin, s₁, q', hblock, hrest, rfl⟩ := performSteps_perform_eq_ok.mp h
      exact performSteps_perform_eq_ok.mpr
        ⟨_, s₁, _, performBlock_shift hblock k, ih hrest, rfl⟩

/-! ## Runs -/

/-- If a run of one control file succeeds, and then a run of another one with the same run context,
then a run of both in one file succeeds and leaves the session as the two runs do. It reports the
blocks of the first file and then those of the second, whose lines are counted on. -/
theorem text_append {settings : Settings} {a b front : String} {ra rb : RunReport}
    (hcontext : settings.context = some runContext) (hend : a = front ++ "\n")
    (hrunA : (text settings a).perform s = (.ok ra, s₁))
    (hrunB : (text settings b).perform s₁ = (.ok rb, s₂)) :
    ∃ r, (text settings (a ++ b)).perform s = (.ok r, s₂) ∧ r.context = runContext ∧
      r.executed = ra.executed ++ rb.executed.map (Origin.shift (Text.lines a).length) ∧
      r.skipped = ra.skipped ++ rb.skipped.map (Origin.shift (Text.lines a).length) ∧
      r.notices.Perm (ra.notices ++ rb.notices.map (Notice.shift (Text.lines a).length)) ∧
      r.store = rb.store := by
  have hchosen (sc : Script) : settings.context.or sc.settingsContext? = some runContext := by
    rw [hcontext, Option.some_or]
  obtain ⟨sa, contextA, stepsA, noticesA, qa, hreadA, hcontextA, hplanA, hstepsA, rfl⟩ :=
    text_eq_ok.mp hrunA
  obtain ⟨sb, contextB, stepsB, noticesB, qb, hreadB, hcontextB, hplanB, hstepsB, rfl⟩ :=
    text_eq_ok.mp hrunB
  obtain rfl := Option.some.inj (hcontextA.symm.trans (hchosen sa))
  obtain rfl := Option.some.inj (hcontextB.symm.trans (hchosen sb))
  have hread := Script.read_append hend hreadA hreadB
  have hplan := plan_append hplanA (plan_shift hplanB (Text.lines a).length)
  have hsteps := performSteps_append_eq_ok.mpr
    ⟨qa, s₁, _, hstepsA, performSteps_shift hstepsB (Text.lines a).length, rfl⟩
  have hrun := text_eq_ok.mpr ⟨_, _, _, _, _, hread, hchosen _, hplan, hsteps, rfl⟩
  refine ⟨_, hrun, rfl, rfl, rfl, ?_, rfl⟩
  -- The notices of reading come before those of the plan.
  rw [List.map_append, List.append_assoc, List.append_assoc]
  apply List.Perm.append_left
  rw [← List.append_assoc, ← List.append_assoc]
  exact List.perm_append_comm.append_right _

/-- Erases a series in a run of one context, and another one in a run of another. -/
def eraseOne : String :=
  "START ERASE_ENTITY\n CONTEXT calib other\n SERIES_NAME q q1\nEND ERASE_ENTITY"

/-- Erases the other series in all runs. -/
def eraseOther : String :=
  "# rest\nSTART ERASE_ENTITY\n CONTEXT all\n SERIES_NAME q1\nEND ERASE_ENTITY"

/-- The session after the run of the first file. -/
def halfErased : Session :=
  ((text ⟨some "calib", false⟩ (eraseOne ++ "\n")).perform Report.twinSession).2

theorem perform_eraseOne : (((text ⟨some "calib", false⟩ (eraseOne ++ "\n")).perform
      Report.twinSession).1.toOption.map fun r => (r.executed, r.skipped)) =
    some ([⟨"ERASE_ENTITY", 1⟩], [⟨"ERASE_ENTITY", 1⟩]) := by
  decide +kernel

theorem perform_eraseOther : (((text ⟨some "calib", false⟩ eraseOther).perform
      halfErased).1.toOption.map fun r => (r.executed, r.skipped)) =
    some ([⟨"ERASE_ENTITY", 2⟩], []) := by
  decide +kernel

/-- The block of the second file is reported behind the four lines of the first one. -/
theorem text_append_erases : ∃ ra rb r s₂,
    (text ⟨some "calib", false⟩ (eraseOne ++ "\n")).perform Report.twinSession =
      (.ok ra, halfErased) ∧
    (text ⟨some "calib", false⟩ eraseOther).perform halfErased = (.ok rb, s₂) ∧
    (text ⟨some "calib", false⟩ (eraseOne ++ "\n" ++ eraseOther)).perform Report.twinSession =
      (.ok r, s₂) ∧
    r.executed = [⟨"ERASE_ENTITY", 1⟩, ⟨"ERASE_ENTITY", 6⟩] ∧
    r.skipped = [⟨"ERASE_ENTITY", 1⟩] := by
  obtain ⟨ra, s₁, hrunA, hra⟩ := ok_of_fst_toOption_map perform_eraseOne
  obtain ⟨rb, s₂, hrunB, hrb⟩ := ok_of_fst_toOption_map perform_eraseOther
  obtain rfl : halfErased = s₁ := congrArg Prod.snd hrunA
  obtain ⟨r, hrun, -, hexecuted, hskipped, -⟩ := text_append rfl rfl hrunA hrunB
  have hlines : (Text.lines (eraseOne ++ "\n")).length = 4 := by decide +kernel
  obtain ⟨hra₁, hra₂⟩ := Prod.mk.inj hra
  obtain ⟨hrb₁, hrb₂⟩ := Prod.mk.inj hrb
  rw [hra₁, hrb₁, hlines] at hexecuted
  rw [hra₂, hrb₂] at hskipped
  exact ⟨ra, rb, r, s₂, hrunA, hrunB, hrun, hexecuted, hskipped⟩

end Run

end Hydroseries
