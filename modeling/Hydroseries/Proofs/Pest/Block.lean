import Hydroseries.Pest.Files
import Hydroseries.Proofs.Outcome

/-!
# Blocks on the files of a calibration

What a block says about the files, keyword by keyword, and the head of the control file.
-/

namespace Hydroseries.Pest

variable {p : Params}

/-- What a block says about the files is read keyword by keyword. -/
theorem ofParams_eq_ok {f : FilesBlock} : FilesBlock.ofParams p = .ok f ↔
    p.entries "template_file" ≠ [] ∧
    (p.entries "template_file").length = (p.entries "model_input_file").length ∧
    p.text "new_pest_control_file" = .ok f.controlFile ∧
    p.text "new_instruction_file" = .ok f.instructionFile ∧
    p.text "parameter_group_file" = .ok f.groupFile ∧
    p.text "parameter_data_file" = .ok f.parameterFile ∧
    WeightedPair.ofParams p = .ok f.pairs ∧
    p.joined? "model_command_line" = some f.modelCommand ∧
    ControlHead.ofParams p = .ok f.head ∧
    f.line = p.line ∧
    f.templates = (p.entries "template_file").zip (p.entries "model_input_file") := by
  unfold FilesBlock.ofParams
  simp only
  constructor
  · intro h
    split at h
    · cases h
    next htemplates =>
      split at h
      · cases h
      next hlength =>
        obtain ⟨controlFile, hcontrol, h⟩ := bind_eq_ok.mp h
        obtain ⟨instructionFile, hinstruction, h⟩ := bind_eq_ok.mp h
        obtain ⟨groupFile, hgroup, h⟩ := bind_eq_ok.mp h
        obtain ⟨parameterFile, hparameter, h⟩ := bind_eq_ok.mp h
        obtain ⟨pairs, hpairs, h⟩ := bind_eq_ok.mp h
        split at h
        next modelCommand hcommand =>
          obtain ⟨head, hhead, h⟩ := bind_eq_ok.mp h
          obtain rfl := Except.ok.inj h
          exact ⟨by simpa using htemplates, not_ne_iff.mp hlength, hcontrol, hinstruction, hgroup,
            hparameter, hpairs, hcommand, hhead, rfl, rfl⟩
        · cases h
  · rintro ⟨htemplates, hlength, hcontrol, hinstruction, hgroup, hparameter, hpairs, hcommand, hhead,
      hline, hzip⟩
    rw [if_neg (by simpa using htemplates), if_neg (not_ne_iff.mpr hlength), hcontrol, hinstruction,
      hgroup, hparameter, hpairs, hcommand, hhead, ← hline, ← hzip]
    rfl

/-! ## The head of the control file -/

/-- The head of the control file, once it is known whether singular values are truncated. -/
def finishHead (p : Params) (threshold : Double) (svd : Bool) : Outcome ControlHead := do
  let control ← (Control.controlRows p svd).mapM id
  let svdRows ← (Control.svdRows p threshold).mapM id
  let lsqrRows ← (Control.lsqrRows p).mapM id
  pure ⟨svd, control, svdRows, lsqrRows⟩

/-- The rows of the head are those of its settings. -/
theorem control_of_ofParams {head : ControlHead} (h : ControlHead.ofParams p = .ok head) :
    (Control.controlRows p head.svd).mapM id = .ok head.control := by
  unfold ControlHead.ofParams at h
  obtain ⟨intervention, -, h⟩ := bind_eq_ok.mp h
  obtain ⟨threshold, -, h⟩ := bind_eq_ok.mp h
  simp only at h
  split at h
  · cases h
  · obtain ⟨control, hcontrol, h⟩ := bind_eq_ok.mp h
    obtain ⟨svdRows, -, h⟩ := bind_eq_ok.mp h
    obtain ⟨lsqrRows, -, h⟩ := bind_eq_ok.mp h
    obtain rfl := Except.ok.inj h
    exact hcontrol

/-- The second and the third row of the settings, which count, stand behind the first one. -/
theorem lines_of_head {head : ControlHead} (h : ControlHead.ofParams p = .ok head) :
    ∃ mode sizes files : Filling,
      (Control.controlRows p head.svd)[1]? = some (.ok sizes) ∧
      (Control.controlRows p head.svd)[2]? = some (.ok files) ∧
      ∀ c, ∃ more, head.lines c =
        "pcf" :: "* control data" :: mode c :: sizes c :: files c :: more := by
  have hrows := mapM_eq_ok.mp (control_of_ofParams h)
  simp only [Control.controlRows, id, List.forall₂_cons_left_iff] at hrows
  obtain ⟨mode, _, -, ⟨sizes, _, hsizes, ⟨files, settings, hfiles, -, rfl⟩, rfl⟩, hcontrol⟩ := hrows
  refine ⟨mode, sizes, files, congrArg some hsizes, congrArg some hfiles, fun c => ?_⟩
  rw [ControlHead.lines, hcontrol]
  exact ⟨_, rfl⟩

/-- The row on the fourth line begins with the numbers of parameters and of observations. -/
theorem counts_of_head {head : ControlHead} (h : ControlHead.ofParams p = .ok head) (c : Counts) :
    ∃ more, (head.lines c)[3]? = some (Text.trimEnd (Text.join " "
      (Text.padLeft Control.columnWidth (toString c.parameters) ::
        Text.padLeft Control.columnWidth (toString c.observations) :: more))) := by
  obtain ⟨_, sizes, _, hsizes, -, hlines⟩ := lines_of_head h
  obtain ⟨fillings, hentries, hrow⟩ := bind_eq_ok.mp (Option.some.inj hsizes)
  obtain rfl := Except.ok.inj hrow
  cases mapM_eq_ok.mp hentries with
  | cons hparameters hrest =>
    cases hrest with
    | @cons _ _ _ more hobservations _ =>
      obtain rfl := Except.ok.inj hparameters
      obtain rfl := Except.ok.inj hobservations
      obtain ⟨_, hlines⟩ := hlines c
      rw [hlines]
      exact ⟨_, rfl⟩

/-- Without help from the user the head is read, whatever the threshold, if its rows are. -/
theorem exists_head (threshold : Double)
    (hword : Control.wordValue p "doaui" "aui" ["aui", "auid", "noaui"] = .ok "noaui")
    (hthreshold : Control.realValue p "eigthresh" 0.0 = .ok threshold)
    (hrows : ∀ svd, (finishHead p threshold svd).toOption.isSome = true) :
    ∃ head, ControlHead.ofParams p = .ok head := by
  have hfinish : ControlHead.ofParams p = finishHead p threshold (decide (0.0 < threshold)) := by
    unfold ControlHead.ofParams
    rw [hword, hthreshold]
    show (if (decide (0.0 < threshold) && "noaui" != "noaui") = true then _ else _) = _
    rw [if_neg (by simp)]
    rfl
  rw [hfinish]
  exact ok_of_isSome (hrows _)

/-! ## Texts of blocks -/

/-- The characters of a block. -/
def blockChars (name : String) (lines : List Hydroseries.Control.Line) : List Char :=
  "start ".toList ++ name.toList ++ '\n' ::
    (lines.flatMap fun l =>
      l.keyword.toList ++ l.values.flatMap (fun v => ' ' :: v.toList) ++ ['\n']) ++
    "end ".toList ++ name.toList

/-- The block that is read from them. -/
def namedBlock (name : String) (line : Nat) (lines : List Hydroseries.Control.Line) :
    Hydroseries.Control.Block :=
  ⟨name, line, ⟨"start", [name]⟩ :: lines ++ [⟨"end", [name]⟩]⟩

end Hydroseries.Pest
