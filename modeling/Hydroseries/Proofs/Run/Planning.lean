import Hydroseries.Proofs.Outcome
import Hydroseries.Proofs.Text.Case
import Hydroseries.Run

/-!
# Plans

Which blocks a run cannot plan, and why, is said by `Faulty` without reference to how plans are
made. The plan of a file fails with the fault of its first faulty block (`plan_eq_error`), and has
one step for each block if none is faulty (`plan_eq_ok`).
-/

namespace Hydroseries

open Control (Invocation Notice Script)

/-! ## Commands by name -/

namespace Catalog

theorem commands_ascii :
    (commands.all fun d => d.name.toList.all fun c => c.toNat < 0x80) = true := by
  decide +kernel

theorem find?_eq_some {d : Descriptor} {name : String} (h : find? name = some d) :
    d ∈ commands ∧ d.name = Text.upper name := by
  have hfind : commands.find? (fun d => decide (d.name = Text.upper name)) = some d := h
  have hname := List.find?_some hfind
  rw [decide_eq_true_eq] at hname
  exact ⟨List.mem_of_find?_eq_some hfind, hname⟩

/-- What is found under a name in capitals has that name. -/
theorem name_of_find? {d : Descriptor} {name : String}
    (h : find? (Text.upper name) = some d) : d.name = Text.upper name := by
  obtain ⟨hmem, hname⟩ := find?_eq_some h
  rw [hname]
  refine Text.upper_upper fun u hu => ?_
  have hascii := List.all_eq_true.mp commands_ascii d hmem
  rw [hname] at hascii
  simpa using List.all_eq_true.mp hascii u hu

end Catalog

/-! ## Invocations of a control file -/

namespace Control

/-- The invocations of a block are named by it. -/
theorem origin_of_unroll {b : Block} {out : List Invocation × List Notice}
    (h : unroll b = .ok out) : ∀ i ∈ out.1, i.origin = b.origin := by
  unfold unroll at h
  dsimp only at h
  split at h
  all_goals
    obtain ⟨notices, -, h⟩ := bind_eq_ok.mp h
    split at h
    · obtain rfl := Except.ok.inj h
      intro i hi
      obtain ⟨n, -, rfl⟩ := List.mem_map.mp hi
      rfl
    · obtain rfl := Except.ok.inj h
      intro i hi
      obtain rfl := List.mem_singleton.mp hi
      rfl

theorem command_of_unroll {b : Block} {out : List Invocation × List Notice}
    (h : unroll b = .ok out) (i : Invocation) (hi : i ∈ out.1) : i.command = b.title :=
  congrArg Origin.command (origin_of_unroll h i hi)

/-- The commands of a control file are in capitals. -/
theorem Script.command_of_read {source : String} {sc : Script} (h : Script.read source = .ok sc) :
    ∀ i ∈ sc.invocations, ∃ name, i.command = Text.upper name := by
  obtain ⟨blocks, -, h⟩ := bind_eq_ok.mp h
  obtain ⟨-, -, h⟩ := bind_eq_ok.mp h
  obtain ⟨unrolled, hunroll, h⟩ := bind_eq_ok.mp h
  obtain rfl := Except.ok.inj h
  intro i hi
  obtain ⟨out, hout, hi⟩ := List.mem_flatMap.mp hi
  obtain ⟨b, -, hb⟩ := mem_of_mapM hunroll hout
  exact ⟨b.command, command_of_unroll hb i hi⟩

/-- Commands of a control file are found under their own names. -/
theorem Script.name_of_read {source : String} {sc : Script} (h : Script.read source = .ok sc) :
    ∀ i ∈ sc.invocations, ∀ d, Catalog.find? i.command = some d → d.name = i.command := by
  intro i hi d hfind
  obtain ⟨name, hcommand⟩ := command_of_read h i hi
  rw [hcommand] at hfind ⊢
  exact Catalog.name_of_find? hfind

end Control

/-! ## Faulty blocks -/

namespace Run

variable {runContext : String} {i : Invocation}

/-- A block belongs to a run if it is for all contexts or for that of the run; settings always
do. -/
def Selected (runContext : String) (i : Invocation) : Prop :=
  ∃ context, i.context? = some context ∧
    (context = everyContext ∨ context = runContext ∨ i.command = "SETTINGS")

/-- A block that cannot be planned, with the fault that says why: it has no context; or it belongs
to the run, and its command is unknown, or keywords are missing, or it has keywords that are not
declared for its command. -/
inductive Faulty (runContext : String) (i : Invocation) : Fault → Prop
  | noContext : i.context? = none → Faulty runContext i (.missingContext i.command i.startLine)
  | unknown : Selected runContext i → Catalog.find? i.command = none →
      Faulty runContext i (.unknownCommand i.command i.startLine)
  | missing {d : Catalog.Descriptor} : Selected runContext i → Catalog.find? i.command = some d →
      Params.missing d i.keywords ≠ [] →
      Faulty runContext i
        (.missingKeywords i.command i.startLine ((Params.missing d i.keywords).map Text.upper))
  | undeclared {d : Catalog.Descriptor} : Selected runContext i →
      Catalog.find? i.command = some d → Params.missing d i.keywords = [] →
      Params.unexpected d i.keywords ≠ [] →
      Faulty runContext i
        (.unexpectedKeywords i.command i.startLine ((Params.unexpected d i.keywords).map Text.upper))

/-- The step of a block that is not faulty. -/
inductive Planned (runContext : String) (i : Invocation) : Step → Prop
  | skip : ¬ Selected runContext i → Planned runContext i (.skip i.origin)
  | perform {d : Catalog.Descriptor} {p : Params} : Selected runContext i →
      Catalog.find? i.command = some d → Params.resolve d i = .ok p →
      Planned runContext i (.perform p)

/-- Keywords are checked for missing ones first, then for undeclared ones. -/
theorem resolve_cases (d : Catalog.Descriptor) (i : Invocation) :
    (Params.missing d i.keywords ≠ [] ∧ Params.resolve d i = .error (.missingKeywords d.name
      i.startLine ((Params.missing d i.keywords).map Text.upper))) ∨
    (Params.missing d i.keywords = [] ∧ Params.unexpected d i.keywords ≠ [] ∧
      Params.resolve d i = .error (.unexpectedKeywords d.name i.startLine
        ((Params.unexpected d i.keywords).map Text.upper))) ∨
    (Params.missing d i.keywords = [] ∧ Params.unexpected d i.keywords = [] ∧
      ∃ values, Params.resolve d i = .ok ⟨d.name, i.startLine, values⟩) := by
  unfold Params.resolve
  cases hmissing : Params.missing d i.keywords with
  | nil =>
    cases hunexpected : Params.unexpected d i.keywords with
    | nil => exact .inr (.inr ⟨rfl, rfl, _, rfl⟩)
    | cons k ks => exact .inr (.inl ⟨rfl, List.cons_ne_nil k ks, rfl⟩)
  | cons k ks => exact .inl ⟨List.cons_ne_nil k ks, rfl⟩

theorem planBlock_of_selected (h : Selected runContext i) :
    planBlock runContext i = match Catalog.find? i.command with
      | none => .error (.unknownCommand i.command i.startLine)
      | some d => Params.resolve d i >>= fun p => pure (.perform p, noticesOf d i) := by
  obtain ⟨context, hcontext, hselected⟩ := h
  have hselects : selects runContext i context = true := by
    simp only [selects, Bool.or_eq_true, beq_iff_eq]
    tauto
  unfold planBlock
  rw [hcontext]
  exact if_neg (by simp [hselects])

theorem planBlock_of_not_selected {context : String} (hcontext : i.context? = some context)
    (h : ¬ Selected runContext i) : planBlock runContext i = .ok (.skip i.origin, []) := by
  have hselects : selects runContext i context = false := by
    refine Bool.eq_false_iff.mpr fun hselects => h ⟨context, hcontext, ?_⟩
    simp only [selects, Bool.or_eq_true, beq_iff_eq] at hselects
    tauto
  unfold planBlock
  rw [hcontext]
  exact if_pos (by simp [hselects])

/-- The plan of a faulty block is its fault. -/
theorem planBlock_of_faulty (hname : ∀ d, Catalog.find? i.command = some d → d.name = i.command)
    {fault : Fault} (h : Faulty runContext i fault) : planBlock runContext i = .error fault := by
  cases h with
  | noContext hcontext => rw [planBlock, hcontext]
  | unknown hselected hfind => rw [planBlock_of_selected hselected, hfind]
  | @missing d hselected hfind hmissing =>
    rw [planBlock_of_selected hselected, hfind]
    rcases resolve_cases d i with ⟨-, hresolve⟩ | ⟨hnone, -⟩ | ⟨hnone, -⟩
    · simp only [hresolve, hname d hfind]
      rfl
    · exact absurd hnone hmissing
    · exact absurd hnone hmissing
  | @undeclared d hselected hfind hnone hunexpected =>
    rw [planBlock_of_selected hselected, hfind]
    rcases resolve_cases d i with ⟨hmissing, -⟩ | ⟨-, -, hresolve⟩ | ⟨-, hnot, -⟩
    · exact absurd hnone hmissing
    · simp only [hresolve, hname d hfind]
      rfl
    · exact absurd hnot hunexpected

/-- A block that is not faulty has a step. -/
theorem exists_planned (h : ∀ fault, ¬ Faulty runContext i fault) :
    ∃ out, planBlock runContext i = .ok out ∧ Planned runContext i out.1 := by
  cases hcontext : i.context? with
  | none => exact absurd (.noContext hcontext) (h _)
  | some context =>
    by_cases hselected : Selected runContext i
    · rw [planBlock_of_selected hselected]
      cases hfind : Catalog.find? i.command with
      | none => exact absurd (.unknown hselected hfind) (h _)
      | some d =>
        rcases resolve_cases d i with ⟨hmissing, -⟩ | ⟨hnone, hunexpected, -⟩ |
          ⟨hnone, hnot, values, hresolve⟩
        · exact absurd (.missing hselected hfind hmissing) (h _)
        · exact absurd (.undeclared hselected hfind hnone hunexpected) (h _)
        · simp only [hresolve]
          exact ⟨_, rfl, .perform hselected hfind hresolve⟩
    · exact ⟨_, planBlock_of_not_selected hcontext hselected, .skip hselected⟩

/-! ## Plans of files -/

variable {invocations before after : List Invocation}

/-- The plan of a file fails with the fault of its first faulty block. -/
theorem plan_eq_error
    (hname : ∀ d, Catalog.find? i.command = some d → d.name = i.command)
    (hbefore : ∀ j ∈ before, ∀ fault, ¬ Faulty runContext j fault) {fault : Fault}
    (hi : Faulty runContext i fault) :
    plan runContext (before ++ i :: after) = .error fault := by
  have hfirst : (before ++ i :: after).mapM (planBlock runContext) = .error fault := by
    refine mapM_eq_error (fun j hj => ?_) (planBlock_of_faulty hname hi)
    obtain ⟨out, hout, -⟩ := exists_planned (hbefore j hj)
    exact ⟨out, hout⟩
  rw [plan, hfirst]
  rfl

/-- The plan of a file without faulty blocks has one step for each. -/
theorem plan_eq_ok (h : ∀ i ∈ invocations, ∀ fault, ¬ Faulty runContext i fault) :
    ∃ steps notices, plan runContext invocations = .ok (steps, notices) ∧
      List.Forall₂ (Planned runContext) invocations steps := by
  obtain ⟨outs, houts, hplanned⟩ : ∃ outs, invocations.mapM (planBlock runContext) = .ok outs ∧
      List.Forall₂ (fun i out => Planned runContext i out.1) invocations outs := by
    induction invocations with
    | nil => exact ⟨[], rfl, .nil⟩
    | cons i rest ih =>
      obtain ⟨out, hout, hi⟩ := exists_planned (h i List.mem_cons_self)
      obtain ⟨outs, houts, hrest⟩ := ih fun j hj => h j (List.mem_cons_of_mem _ hj)
      exact ⟨out :: outs, mapM_eq_ok.mpr (.cons hout (mapM_eq_ok.mp houts)), .cons hi hrest⟩
  refine ⟨outs.map Prod.fst, outs.flatMap Prod.snd, ?_, List.forall₂_map_right_iff.mpr hplanned⟩
  rw [plan, houts]
  rfl

/-- The steps of a plan are those of the blocks of the file. -/
theorem planned_of_plan {steps : List Step} {notices : List Notice}
    (hname : ∀ i ∈ invocations, ∀ d, Catalog.find? i.command = some d → d.name = i.command)
    (h : plan runContext invocations = .ok (steps, notices)) :
    List.Forall₂ (Planned runContext) invocations steps := by
  obtain ⟨outs, houts, hok⟩ := bind_eq_ok.mp h
  obtain ⟨rfl, -⟩ := Prod.mk.inj (Except.ok.inj hok)
  rw [List.forall₂_map_right_iff]
  have hall := mapM_eq_ok.mp houts
  clear h houts hok
  induction hall with
  | nil => exact .nil
  | @cons i out rest _ hout _ ih =>
    refine .cons ?_ (ih fun j hj => hname j (List.mem_cons_of_mem _ hj))
    obtain ⟨out', hout', hplanned⟩ := exists_planned fun fault hfaulty => by
      have herror := planBlock_of_faulty (hname i List.mem_cons_self) hfaulty
      rw [hout] at herror
      cases herror
    obtain rfl := Except.ok.inj (hout.symm.trans hout')
    exact hplanned

end Run

end Hydroseries
