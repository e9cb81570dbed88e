import Hydroseries.Proofs.Run.Planning
import Hydroseries.Proofs.Stateful

/-!
# Planning before execution

A run of a control file either stops at its plan, with the session untouched, or executes the blocks
that belong to it one after the other. What execution is, is said by `Executes`, block by block:
each block is read with the date format that is in force when its turn comes, and the first that
fails ends the run. That runs do just this is `text_plans_then_executes`.
-/

namespace Hydroseries.Run

open Control (Invocation Notice Origin Script)

variable {runContext : String} {i : Invocation}

/-! ## Execution block by block -/

/-- The execution of a list of blocks in a session: the blocks that were run and those that were
passed over, or the fault of the first that failed, and the session that is left. -/
inductive Executes (runContext : String) : List Invocation → Session →
    Outcome (List Origin × List Origin) → Session → Prop
  | done {s} : Executes runContext [] s (.ok ([], [])) s
  /-- A block of another context is passed over. -/
  | skip {i rest s r s'} : ¬ Selected runContext i → Executes runContext rest s r s' →
      Executes runContext (i :: rest) s (r.map fun q => (q.1, i.origin :: q.2)) s'
  /-- A block that cannot be read with the date format in force fails before anything is done. -/
  | refuse {i rest s d p fault} : Selected runContext i → Catalog.find? i.command = some d →
      Params.resolve d i = .ok p → Command.ofParams p s.dateFormat = .error fault →
      Executes runContext (i :: rest) s (.error (fault.inBlock i.command i.startLine)) s
  | fail {i rest s d p c fault s'} : Selected runContext i → Catalog.find? i.command = some d →
      Params.resolve d i = .ok p → Command.ofParams p s.dateFormat = .ok c →
      c.run.perform s = (.error fault, s') →
      Executes runContext (i :: rest) s (.error (fault.inBlock i.command i.startLine)) s'
  | succeed {i rest s d p c s₁ r s'} : Selected runContext i → Catalog.find? i.command = some d →
      Params.resolve d i = .ok p → Command.ofParams p s.dateFormat = .ok c →
      c.run.perform s = (.ok (), s₁) → Executes runContext rest s₁ r s' →
      Executes runContext (i :: rest) s (r.map fun q => (i.origin :: q.1, q.2)) s'

theorem exec_eq_perform {α : Type} (a : Action α) (s : Session) :
    Stateful.exec a s = a.perform s := rfl

/-- A block is read with the date format in force and run; its faults are put under its name. -/
theorem perform_performBlock (p : Params) (s : Session) :
    (performBlock p).perform s = match Command.ofParams p s.dateFormat with
      | .error fault => (.error (fault.inBlock p.command p.line), s)
      | .ok c => match c.run.perform s with
        | (.ok (), s') => (.ok ⟨p.command, p.line⟩, s')
        | (.error fault, s') => (.error (fault.inBlock p.command p.line), s') := by
  rw [← exec_eq_perform, performBlock, Stateful.exec_bind, Stateful.exec_tryCatch,
    Command.perform, Stateful.exec_get, Stateful.exec_bind_outcome]
  cases Command.ofParams p s.dateFormat with
  | error fault => rfl
  | ok c =>
    simp only [exec_eq_perform]
    obtain ⟨_ | _, _⟩ := c.run.perform s <;> rfl

theorem perform_skip (origin : Origin) (steps : List Step) (s : Session) :
    (performSteps (.skip origin :: steps)).perform s =
      (((performSteps steps).perform s).1.map fun q => (q.1, origin :: q.2),
        ((performSteps steps).perform s).2) :=
  Stateful.exec_bind_pure (performSteps steps) (fun q => (q.1, origin :: q.2)) s

theorem perform_perform (p : Params) (steps : List Step) (s : Session) :
    (performSteps (.perform p :: steps)).perform s = match (performBlock p).perform s with
      | (.error fault, s') => (.error fault, s')
      | (.ok origin, s') => (((performSteps steps).perform s').1.map fun q => (origin :: q.1, q.2),
        ((performSteps steps).perform s').2) := by
  show Stateful.exec (performBlock p >>= fun origin => _) s = _
  rw [Stateful.exec_bind, exec_eq_perform]
  obtain ⟨_ | origin, s'⟩ := (performBlock p).perform s
  · rfl
  · exact Stateful.exec_bind_pure (performSteps steps) (fun q => (origin :: q.1, q.2)) s'

/-- Parameters keep the command and the first line of their block. -/
theorem params_of_resolve {d : Catalog.Descriptor} {p : Params} (hname : d.name = i.command)
    (h : Params.resolve d i = .ok p) : p.command = i.command ∧ p.line = i.startLine := by
  rcases resolve_cases d i with ⟨-, hresolve⟩ | ⟨-, -, hresolve⟩ | ⟨-, -, values, hresolve⟩
  · rw [h] at hresolve
    cases hresolve
  · rw [h] at hresolve
    cases hresolve
  · obtain rfl := Except.ok.inj (h.symm.trans hresolve)
    exact ⟨hname, rfl⟩

/-- The steps of a plan are executed as their blocks are. -/
theorem executes_performSteps {invocations : List Invocation} {steps : List Step}
    (hname : ∀ i ∈ invocations, ∀ d, Catalog.find? i.command = some d → d.name = i.command)
    (h : List.Forall₂ (Planned runContext) invocations steps) (s : Session) :
    Executes runContext invocations s ((performSteps steps).perform s).1
      ((performSteps steps).perform s).2 := by
  induction h generalizing s with
  | nil => exact .done
  | @cons i step rest steps hstep _ ih =>
    have hrest := ih fun j hj => hname j (List.mem_cons_of_mem _ hj)
    cases hstep with
    | skip hnot =>
      rw [perform_skip]
      exact .skip hnot (hrest s)
    | @perform d p hselected hfind hresolve =>
      obtain ⟨hcommand, hline⟩ := params_of_resolve (hname i List.mem_cons_self d hfind) hresolve
      rw [perform_perform, perform_performBlock, hcommand, hline]
      cases hread : Command.ofParams p s.dateFormat with
      | error fault => exact .refuse hselected hfind hresolve hread
      | ok c =>
        simp only
        rcases hrun : c.run.perform s with ⟨_ | _, s₁⟩
        · exact .fail hselected hfind hresolve hread hrun
        · exact .succeed hselected hfind hresolve hread hrun (hrest s₁)

/-! ## Runs of a control file -/

/-- A run of a control file that is read as `sc`. Without a run context it is refused. With one, the
first faulty block, if there is any, refuses it with its fault, and nothing is executed; otherwise
the blocks of the run are executed in the order of the file, up to the first that fails. -/
theorem text_plans_then_executes {settings : Settings} {source : String} {sc : Script}
    (hread : Script.read source = .ok sc) (s : Session) :
    (settings.context.or sc.settingsContext? = none →
      (text settings source).perform s = (.error .noRunContext, s)) ∧
    ∀ runContext, settings.context.or sc.settingsContext? = some runContext →
      (∀ before i after fault, sc.invocations = before ++ i :: after →
        (∀ j ∈ before, ∀ f, ¬ Faulty runContext j f) → Faulty runContext i fault →
        (text settings source).perform s = (.error fault, s)) ∧
      ((∀ i ∈ sc.invocations, ∀ f, ¬ Faulty runContext i f) →
        ∃ r s' notices, Executes runContext sc.invocations s r s' ∧
          (text settings source).perform s = (r.map fun q =>
            ⟨runContext, q.1, q.2, sc.notices ++ notices,
              if settings.debug then some s'.store.summary else none⟩, s')) := by
  have hname : ∀ i ∈ sc.invocations, ∀ d, Catalog.find? i.command = some d →
      d.name = i.command := by
    intro i hi d hfind
    obtain ⟨name, hcommand⟩ := Script.command_of_read hread i hi
    rw [hcommand] at hfind ⊢
    exact Catalog.name_of_find? hfind
  have htext : (text settings source).perform s = Stateful.exec (script settings sc) s := by
    rw [← exec_eq_perform, text, Stateful.exec_bind_outcome, hread]
  rw [htext, script, Stateful.exec_bind_outcome, contextOf]
  refine ⟨fun hnone => by rw [hnone], fun runContext hcontext => ⟨?_, ?_⟩⟩
  · intro before i after fault hfile hbefore hfaulty
    rw [hfile] at hname
    rw [hcontext, hfile]
    simp only
    rw [Stateful.exec_bind_outcome, plan_eq_error
      (hname i (List.mem_append_right _ List.mem_cons_self)) hbefore hfaulty]
  · intro hnone
    obtain ⟨steps, notices, hplan, hplanned⟩ := plan_eq_ok hnone
    have hexec := executes_performSteps hname hplanned s
    refine ⟨_, _, notices, hexec, ?_⟩
    rw [hcontext]
    simp only
    rw [Stateful.exec_bind_outcome, hplan]
    simp only
    rw [Stateful.exec_bind, exec_eq_perform]
    obtain ⟨_ | _, _⟩ := (performSteps steps).perform s <;> rfl

/-- A session where nothing has been done. -/
def newSession : Session where
  baseDir := "."
  files := .empty

/-- A sound block, and one whose command is not known. -/
def unknownSecond : String :=
  "START ERASE_ENTITY\n CONTEXT all\n SERIES_NAME flow\nEND ERASE_ENTITY\n" ++
    "START DRAW\n CONTEXT all\nEND DRAW\n"

/-- The sound block is not run, as the second one cannot be planned. -/
theorem text_stops_at_unknown_command :
    (text ⟨some "gauge", false⟩ unknownSecond).perform newSession =
      (.error (.unknownCommand "DRAW" 5), newSession) := by
  let erase : Invocation :=
    ⟨"ERASE_ENTITY", 1, [("context", .scalar "all"), ("series_name", .scalar "flow")]⟩
  let draw : Invocation := ⟨"DRAW", 5, [("context", .scalar "all")]⟩
  have hread : (Script.read unknownSecond).map Script.invocations = .ok [erase, draw] := by
    decide +kernel
  have hsound : ∀ f, ¬ Faulty "gauge" erase f := fun f hf => by
    have hplan : ((planBlock "gauge" erase).map fun _ => ()) = .ok () := by decide +kernel
    rw [planBlock_of_faulty
      (fun d hd => (Catalog.find?_eq_some hd).2.trans (by decide +kernel)) hf] at hplan
    cases hplan
  rcases hsc : Script.read unknownSecond with _ | sc
  · rw [hsc] at hread
    cases hread
  · rw [hsc] at hread
    refine ((text_plans_then_executes hsc _).2 "gauge" rfl).1 [erase] draw [] _
      (Except.ok.inj hread) (fun j hj => ?_) (.unknown ⟨"all", rfl, .inl rfl⟩ (by decide +kernel))
    rw [List.mem_singleton.mp hj]
    exact hsound

/-- A control file with a block that has no context. -/
def contextless : String := "START ERASE_ENTITY\n SERIES_NAME flow\nEND ERASE_ENTITY\n"

/-- A control file with a block that asks for a binary file. -/
def binary : String :=
  "START GET_SERIES_WDM\n CONTEXT all\n FILE gauge.wdm\n NEW_SERIES_NAME flow\n DSN 1\n" ++
    "END GET_SERIES_WDM\n"

/-- Without a run context, a block that has none is not what is reported. A fault that a binary
reader gives already as one of a block keeps the name of that block. -/
theorem faults_not_of_the_block :
    (((text {} contextless).perform newSession).1.map fun _ => ()) = .error .noRunContext ∧
      ((Script.read contextless).map fun sc => sc.invocations.map Invocation.context?) =
        .ok [none] ∧
      (((text ⟨some "gauge", false⟩ binary).perform { newSession with
        backends.readBinary := fun _ => .error (.block "WDM" 7 .outOfRange) }).1.map fun _ => ()) =
          .error (.block "WDM" 7 .outOfRange) := by
  decide +kernel

end Hydroseries.Run
