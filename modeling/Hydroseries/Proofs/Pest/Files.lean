import Hydroseries.Control.Unroll
import Hydroseries.Proofs.Command.Writing
import Hydroseries.Proofs.Pest.Block
import Hydroseries.Proofs.Report.Instructions
import Hydroseries.Proofs.Report.Names

/-!
# The two files of a calibration

The instruction file names all values of the last report, and the control file has a line of
observation data for each value of the model of each pair. The control file names no observation that
the instructions do not find. The names are the same, repetitions counted, if every listed entity with
values is the model of as many pairs as it is listed times (`Matched`), and otherwise they differ, or
different entities have names in common (`files_of_run`).
-/

namespace Hydroseries.Pest

open Report (Listing Section SeriesFormat layOut observationName)

/-! ## Lists by keys -/

section

variable {κ α : Type} [BEq κ] [LawfulBEq κ] {keys keys' : List κ} {f : κ → List α}

/-- Members that belong to keys are the same, up to their order, if the keys that have some are. -/
theorem perm_flatMap_of_count (h : ∀ k, f k ≠ [] → keys.count k = keys'.count k) :
    (keys.flatMap f).Perm (keys'.flatMap f) := by
  have hsome : ∀ ks : List κ, ks.flatMap f = (ks.filter fun k => !(f k).isEmpty).flatMap f := by
    intro ks
    induction ks with
    | nil => rfl
    | cons k ks ih =>
      rw [List.flatMap_cons, ih]
      by_cases hk : f k = []
      · rw [List.filter_cons_of_neg (by simpa using hk), hk, List.nil_append]
      · rw [List.filter_cons_of_pos (by simpa using hk), List.flatMap_cons]
  rw [hsome keys, hsome keys']
  refine List.Perm.flatMap_right f (List.perm_iff_count.mpr fun k => ?_)
  by_cases hk : f k = []
  · rw [List.count_eq_zero.mpr (by simp [hk]), List.count_eq_zero.mpr (by simp [hk])]
  · rw [List.count_filter (by simpa using hk), List.count_filter (by simpa using hk), h k hk]

/-- A member that belongs to one key only, and once, occurs as often as the key. -/
theorem count_flatMap_of_only [BEq α] [LawfulBEq α] {k : κ} {x : α} (hk : (f k).count x = 1)
    (honly : ∀ k' ∈ keys, k' ≠ k → x ∉ f k') : (keys.flatMap f).count x = keys.count k := by
  induction keys with
  | nil => rfl
  | cons k' keys ih =>
    have ih := ih fun j hj => honly j (List.mem_cons_of_mem k' hj)
    rw [List.flatMap_cons, List.count_append, ih]
    by_cases hkk : k' = k
    · rw [hkk, hk, List.count_cons_self, Nat.add_comm]
    · rw [List.count_eq_zero.mpr (honly k' List.mem_cons_self hkk), List.count_cons_of_ne hkk,
        Nat.zero_add]

end

/-! ## The names in both files -/

/-- The names that are listed for an entity. -/
def listedNames (listing : Listing) (key : EntityKind × EntityName) : List String :=
  (listing.observationsOf? key.1 key.2).getD []

/-- The names in the observation data of pairs. -/
def dataNames (pairs : List WeightedPair) (listing : Listing) : List String :=
  pairs.flatMap fun w => listedNames listing (w.kind, w.model)

/-- Every entity that is listed with values is the model of as many pairs as it is listed times. -/
def Matched (pairs : List WeightedPair) (listing : Listing) : Prop :=
  ∀ e ∈ listing.entities, e.observations ≠ [] →
    (pairs.map fun w => (w.kind, w.model)).count (e.kind, e.name) =
      (listing.entities.map fun e => (e.kind, e.name)).count (e.kind, e.name)

instance (pairs : List WeightedPair) (listing : Listing) : Decidable (Matched pairs listing) :=
  inferInstanceAs (Decidable (∀ e ∈ listing.entities, _ → _))

/-- The observation data of pairs have the names that are listed for their models. -/
theorem names_of_pairs {pairs : List WeightedPair} {st : Store} {listing : Listing}
    {lines : List (List String)}
    (h : pairs.mapM (fun w => w.observationLines st listing) = .ok lines) :
    List.Forall₂ (fun name line => ∃ value weight group,
      line = WeightedPair.observationLine name value weight group)
      (dataNames pairs listing) lines.flatten := by
  have hall := mapM_eq_ok.mp h
  clear h
  induction hall with
  | nil => exact .nil
  | cons hw _ ih => exact List.rel_append (Report.names_of_observationLines hw) ih

/-- What is listed for an entity is a part of the listing. -/
theorem mem_of_listedNames {listing : Listing} {key : EntityKind × EntityName} {name : String}
    (h : name ∈ listedNames listing key) :
    ∃ e ∈ listing.entities, (e.kind, e.name) = key ∧ name ∈ e.observations := by
  unfold listedNames at h
  cases hnames : listing.observationsOf? key.1 key.2 with
  | none =>
    rw [hnames] at h
    cases h
  | some names =>
    rw [hnames] at h
    obtain ⟨e, he, hkey, rfl⟩ := Report.observationsOf?_eq_some hnames
    exact ⟨e, he, hkey, h⟩

section

variable {st : Store} {dates : DateFormat} {format : SeriesFormat}
  {entities : List (EntityKind × EntityName)} {file : String} {listing : Listing}
  (h : layOut st dates format entities file = .ok listing)

include h

/-- An entity that is listed twice has the same names both times. -/
theorem listedNames_of_mem {e : Section} (he : e ∈ listing.entities) :
    listedNames listing (e.kind, e.name) = e.observations := by
  cases hnames : listing.observationsOf? e.kind e.name with
  | none =>
    have hnone := List.find?_eq_none.mp (Option.map_eq_none_iff.mp hnames) e he
    simp at hnone
  | some names =>
    obtain ⟨e', he', hkey, rfl⟩ := Report.observationsOf?_eq_some hnames
    obtain ⟨hkind, hname⟩ := Prod.mk.inj hkey
    obtain ⟨values, hvalues, hnamed⟩ := Report.section_of_layOut h he
    obtain ⟨values', hvalues', hnamed'⟩ := Report.section_of_layOut h he'
    rw [hkind, hname] at hvalues'
    obtain rfl := Except.ok.inj (hvalues.symm.trans hvalues')
    rw [listedNames, hnames, Option.getD_some, hnamed, hnamed', hname]

theorem names_of_keys : (listing.observed.map fun o => o.2.name) =
    (listing.entities.map fun e => (e.kind, e.name)).flatMap (listedNames listing) := by
  rw [Report.names_of_layOut h, List.flatMap_map]
  exact List.flatMap_congr fun e he => (listedNames_of_mem h he).symm

/-- The control file names nothing that the instructions do not find. -/
theorem dataNames_subset (pairs : List WeightedPair) :
    ∀ name ∈ dataNames pairs listing, name ∈ listing.observed.map fun o => o.2.name := by
  intro name hname
  obtain ⟨w, -, hname⟩ := List.mem_flatMap.mp hname
  obtain ⟨e, he, -, hmem⟩ := mem_of_listedNames hname
  rw [Report.names_of_layOut h]
  exact List.mem_flatMap.mpr ⟨e, he, hmem⟩

/-- Both files name the same if models and listed entities match. -/
theorem Matched.perm {pairs : List WeightedPair} (hmatched : Matched pairs listing) :
    (dataNames pairs listing).Perm (listing.observed.map fun o => o.2.name) := by
  rw [names_of_keys h, dataNames, ← List.flatMap_map]
  refine perm_flatMap_of_count fun key hkey => ?_
  obtain ⟨name, hname⟩ := List.exists_mem_of_ne_nil _ hkey
  obtain ⟨e, he, rfl, hmem⟩ := mem_of_listedNames hname
  exact hmatched e he (List.ne_nil_of_mem hmem)

/-- If different entities have no names in common, both files name the same only if models and listed
entities match. -/
theorem matched_of_perm {pairs : List WeightedPair}
    (hclash : ∀ a ∈ listing.entities, ∀ b ∈ listing.entities,
      (a.kind, a.name) ≠ (b.kind, b.name) → ¬ a.Clashes b)
    (hperm : (dataNames pairs listing).Perm (listing.observed.map fun o => o.2.name)) :
    Matched pairs listing := by
  intro e he hsome
  obtain ⟨name, hname⟩ := List.exists_mem_of_ne_nil _ hsome
  have hrows := Report.observations_eq_rowNames h he
  have hcount : (listedNames listing (e.kind, e.name)).count name = 1 := by
    rw [listedNames_of_mem h he]
    refine List.count_eq_one_of_mem ?_ hname
    rw [hrows]
    exact Report.nodup_rowNames _ _
  have honly : ∀ key, key ≠ (e.kind, e.name) → name ∉ listedNames listing key := by
    intro key hkey hmem
    obtain ⟨e', he', rfl, hmem'⟩ := mem_of_listedNames hmem
    exact (Report.disjoint_observations (Report.observations_eq_rowNames h he') hrows).mpr
      (hclash e' he' e he hkey) hmem' hname
  rw [← count_flatMap_of_only hcount fun key _ => honly key,
    ← count_flatMap_of_only hcount fun key _ => honly key, ← names_of_keys h, List.flatMap_map]
  exact hperm.count_eq name

end

/-! ## What is written -/

/-- The lines of an instruction file are instructions for the values with these names. -/
def ReadsNames (text : String) (names : List String) : Prop :=
  ∃ lines instructions, text = String.join (("pif $" :: lines).map (· ++ "\n")) ∧
    (lines.map String.toList).mapM Report.readInstruction? = some instructions ∧
    instructions.map Report.Instruction.name = names

theorem names_of_instructionsOf (last : Nat) (observed : List (Nat × Report.Observation)) :
    (Report.instructionsOf last observed).map Report.Instruction.name =
      observed.map fun o => o.2.name := by
  induction observed generalizing last with
  | nil => rfl
  | cons found rest ih => exact congrArg (found.2.name :: ·) (ih found.1)

theorem readsNames_instructions (listing : Listing) :
    ReadsNames listing.instructions (listing.observed.map fun o => o.2.name) :=
  ⟨Listing.instructionsFrom 0 listing.observed, Report.instructionsOf 0 listing.observed, rfl,
    Report.mapM_readInstruction? 0 listing.observed, names_of_instructionsOf 0 listing.observed⟩

/-- A control file has a line of observation data for each of these names, and their number stands
second among the counts on its fourth line. -/
def HoldsNames (text : String) (names : List String) : Prop :=
  ∃ lines before data after parameters more, text = Text.join "\n" lines ++ "\n" ∧
    lines = before ++ "* observation data" :: data ++ "* model command line" :: after ∧
    List.Forall₂ (fun name line => ∃ value weight group,
      line = WeightedPair.observationLine name value weight group) names data ∧
    lines[3]? = some (Text.trimEnd (Text.join " " (Text.padLeft Control.columnWidth parameters ::
      Text.padLeft Control.columnWidth (toString data.length) :: more)))

theorem holdsNames_controlText {p : Params} {b : FilesBlock} (h : FilesBlock.ofParams p = .ok b)
    {a : Assembled} {names : List String}
    (hnames : List.Forall₂ (fun name line => ∃ value weight group,
      line = WeightedPair.observationLine name value weight group) names a.observations)
    (report : String) : HoldsNames (b.controlText a report) names := by
  obtain ⟨-, -, -, -, -, -, -, -, hhead, -⟩ := ofParams_eq_ok.mp h
  obtain ⟨more, hcounts⟩ := counts_of_head hhead a.counts
  have hshort : 3 < (b.head.lines a.counts).length := (List.getElem?_eq_some_iff.mp hcounts).1
  refine ⟨b.controlLines a report,
    b.head.lines a.counts ++ FilesBlock.sectionLines "* parameter groups" a.groups.lines ++
      FilesBlock.sectionLines "* parameter data" a.parameterLines ++
      FilesBlock.sectionLines "* observation groups" a.observationGroups,
    a.observations, b.modelCommand :: FilesBlock.sectionLines "* model input/output"
      (b.modelFiles report), toString a.parameters.count, more, rfl, ?_, hnames, ?_⟩
  · simp [FilesBlock.controlLines, FilesBlock.sectionLines, List.append_assoc]
  · simp only [FilesBlock.controlLines, List.append_assoc]
    rw [List.getElem?_append_left hshort, hcounts]
    rfl

open Command (ListOutput Reached)

/-- In any session that commands lead to, a block on the files of a calibration that succeeds writes an
instruction file with the names of all values of the last report, and a control file with names that
are among them, counted. The names are the same in both, repetitions included, if every entity listed
with values is the model of as many pairs as it is listed times, and only then if different entities
have no names in common. -/
theorem files_of_run {p : Params} {b : FilesBlock} {s s' : Session} (hreached : Reached s)
    (hbuild : FilesBlock.ofParams p = .ok b)
    (hrun : (Command.WritePestFiles.run b).perform s = (.ok (), s')) :
    ∃ listing control files, s.listing = some listing ∧
      s.files.write (s.resolve b.instructionFile) listing.instructions = .ok files ∧
      files.write (s.resolve b.controlFile) control = .ok s'.files ∧
      ReadsNames listing.instructions (listing.observed.map fun o => o.2.name) ∧
      HoldsNames control (dataNames b.pairs listing) ∧
      (∀ name ∈ dataNames b.pairs listing, name ∈ listing.observed.map fun o => o.2.name) ∧
      (Matched b.pairs listing →
        (dataNames b.pairs listing).Perm (listing.observed.map fun o => o.2.name)) ∧
      ((∀ a ∈ listing.entities, ∀ b ∈ listing.entities,
          (a.kind, a.name) ≠ (b.kind, b.name) → ¬ a.Clashes b) →
        (dataNames b.pairs listing).Perm (listing.observed.map fun o => o.2.name) →
        Matched b.pairs listing) := by
  obtain ⟨listing, a, files, files', hlisting, hassemble, hinstructions, hcontrol, rfl⟩ :=
    Command.WritePestFiles.run_eq_ok.mp hrun
  obtain ⟨lines, hlines, hobservations⟩ := Command.WritePestFiles.observations_of_assemble hassemble
  obtain ⟨c, s₀, hlayout⟩ := hreached.exists_layOut hlisting
  have hnames := names_of_pairs hlines
  rw [← hobservations] at hnames
  exact ⟨listing, _, files, hlisting, hinstructions, hcontrol, readsNames_instructions listing,
    holdsNames_controlText hbuild hnames listing.file, dataNames_subset hlayout b.pairs,
    Matched.perm hlayout, matched_of_perm hlayout⟩

/-! ## A table without a pair -/

/-- A table of one volume. -/
def unitTable : VTable :=
  ⟨[⟨.ofDate ⟨18262⟩ 0, .ofDate ⟨18263⟩ 0, ⟨0x3FF0000000000000⟩⟩], "FLOW"⟩

/-- A session with an observed table and a simulated one, and with files on parameters that are
empty. -/
def calibrationSession : Session where
  store := { Store.empty with vTables := ⟨[(⟨"OBS"⟩, unitTable), (⟨"SIM"⟩, unitTable)]⟩ }
  baseDir := ""
  files := { files := ⟨[(["tpl"], "ptf #".toUTF8), (["groups"], .empty), (["parameters"], .empty)]⟩ }

/-- The lines of a block that pairs the tables. -/
def calibrationLines : List Hydroseries.Control.Line :=
  [⟨"context", ["all"]⟩, ⟨"new_pest_control_file", ["pst"]⟩, ⟨"new_instruction_file", ["ins"]⟩,
   ⟨"template_file", ["tpl"]⟩, ⟨"model_input_file", ["in"]⟩, ⟨"parameter_group_file", ["groups"]⟩,
   ⟨"parameter_data_file", ["parameters"]⟩, ⟨"model_command_line", ["model"]⟩,
   ⟨"doaui", ["noaui"]⟩, ⟨"observation_v_table_name", ["obs"]⟩, ⟨"model_v_table_name", ["sim"]⟩,
   ⟨"v_table_weights_equation", ["1"]⟩, ⟨"v_table_weights_min_max", ["-inf", "inf"]⟩]

/-- What the block says, but for its context. -/
def calibrationParams : Params :=
  ⟨"WRITE_PEST_FILES", 11, ⟨(calibrationLines.drop 1).foldl Hydroseries.Control.collectLine []⟩⟩

def calibrationPairs : List WeightedPair :=
  (WeightedPair.ofParams calibrationParams).toOption.getD []

/-- The block that is read, with some head of the control file. -/
def calibrationBlock (head : ControlHead) : FilesBlock :=
  ⟨11, "pst", "ins", [("tpl", "in")], "groups", "parameters", calibrationPairs, "model", head⟩

theorem build_calibration :
    ∃ head, FilesBlock.ofParams calibrationParams = .ok (calibrationBlock head) := by
  obtain ⟨head, hhead⟩ : ∃ head, ControlHead.ofParams calibrationParams = .ok head := by
    refine exists_head 0.0 ?_ rfl ?_ <;> decide +kernel
  obtain ⟨pairs, hpairs⟩ : ∃ pairs, WeightedPair.ofParams calibrationParams = .ok pairs :=
    ok_of_isSome (by decide +kernel)
  obtain ⟨hcontrol, hinstruction, hgroup, hparameter, hcommand⟩ :
      calibrationParams.text "new_pest_control_file" = .ok "pst" ∧
      calibrationParams.text "new_instruction_file" = .ok "ins" ∧
      calibrationParams.text "parameter_group_file" = .ok "groups" ∧
      calibrationParams.text "parameter_data_file" = .ok "parameters" ∧
      calibrationParams.joined? "model_command_line" = some "model" := by
    decide +kernel
  refine ⟨head, ofParams_eq_ok.mpr ⟨by decide +kernel, by decide +kernel, hcontrol, hinstruction,
    hgroup, hparameter, ?_, hcommand, hhead, rfl, rfl⟩⟩
  rw [calibrationBlock, calibrationPairs, hpairs]
  rfl

/-- What can be computed of writing the files: that they can be assembled, that the instructions can
be written, and that the control file can be written after them. -/
def ready (s : Session) (listing : Listing) : Option Unit × Option Bool :=
  (((Command.WritePestFiles.assemble (calibrationBlock ⟨false, [], [], []⟩) listing).perform
      s).1.toOption.map fun _ => (),
    (s.files.write (s.resolve "ins") listing.instructions).toOption.map fun t =>
      (t.locate (s.resolve "pst")).toOption.any fun place => !t.isDirectory place)

theorem exists_run {s : Session} (h : s.listing.map (ready s) = some (some (), some true))
    (head : ControlHead) :
    ∃ s', (Command.WritePestFiles.run (calibrationBlock head)).perform s = (.ok (), s') := by
  obtain ⟨listing, hlisting, hready⟩ := Option.map_eq_some_iff.mp h
  obtain ⟨hassemble, hwrite⟩ := Prod.mk.inj hready
  -- The head of the control file is not looked at until its text is put together.
  have hhead : Command.WritePestFiles.assemble (calibrationBlock ⟨false, [], [], []⟩) listing =
      Command.WritePestFiles.assemble (calibrationBlock head) listing := rfl
  rw [hhead] at hassemble
  obtain ⟨a, ha, -⟩ := ok_of_toOption_map hassemble
  have hassembled : (Command.WritePestFiles.assemble (calibrationBlock head) listing).perform s =
      (.ok a, s) :=
    Prod.ext ha (Command.WritePestFiles.session_of_assemble (Prod.ext ha rfl))
  obtain ⟨files, hfiles, hplace⟩ := ok_of_toOption_map hwrite
  obtain ⟨files', hfiles'⟩ := Command.exists_write hplace
    ((calibrationBlock head).controlText a listing.file)
  exact ⟨_, Command.WritePestFiles.run_eq_ok.mpr
    ⟨listing, a, files, files', hlisting, hassembled, hfiles, hfiles', rfl⟩⟩

/-- Lists both tables. -/
def bothTables : ListOutput := ⟨"both.out", .long, [(.vTable, ⟨"OBS"⟩), (.vTable, ⟨"SIM"⟩)]⟩

def listedSession : Session := ((Command.listOutput bothTables).run.perform calibrationSession).2

theorem reached_listed : Reached listedSession := .run _ (.start rfl)

theorem ready_listed : listedSession.listing.map (ready listedSession) = some (some (), some true) := by
  decide +kernel

/-- The names in the report, and in the observation data. -/
theorem names_of_listed : (listedSession.listing.map fun l =>
    (l.observed.map (fun o => o.2.name), dataNames calibrationPairs l)) =
      some (["obs1", "sim1"], ["sim1"]) := by
  decide +kernel

theorem files_of_listed : ∃ head s' control files, ∃ listing : Listing,
    FilesBlock.ofParams calibrationParams = .ok (calibrationBlock head) ∧
    (Command.WritePestFiles.run (calibrationBlock head)).perform listedSession = (.ok (), s') ∧
    listedSession.files.write (listedSession.resolve "ins") listing.instructions = .ok files ∧
    files.write (listedSession.resolve "pst") control = .ok s'.files ∧
    ReadsNames listing.instructions ["obs1", "sim1"] ∧ HoldsNames control ["sim1"] := by
  obtain ⟨head, hbuild⟩ := build_calibration
  obtain ⟨s', hrun⟩ := exists_run ready_listed head
  obtain ⟨listing, control, files, hlisting, hinstructions, hcontrol, hreads, hholds, -⟩ :=
    files_of_run reached_listed hbuild hrun
  have hnames := names_of_listed
  rw [hlisting] at hnames
  obtain ⟨hread, hdata⟩ := Prod.mk.inj (Option.some.inj hnames)
  rw [hread] at hreads
  rw [calibrationBlock, hdata] at hholds
  exact ⟨head, s', control, files, listing, hbuild, hrun, hinstructions, hcontrol, hreads, hholds⟩

/-- The block succeeds, with two instructions in the one file and one line of observation data in the
other. -/
theorem files_of_listed_differ : Reached listedSession ∧ ∃ head s' a files, ∃ listing : Listing,
    FilesBlock.ofParams calibrationParams = .ok (calibrationBlock head) ∧
    (Command.WritePestFiles.run (calibrationBlock head)).perform listedSession = (.ok (), s') ∧
    listedSession.files.write (listedSession.resolve "ins") listing.instructions = .ok files ∧
    files.write (listedSession.resolve "pst")
      ((calibrationBlock head).controlText a listing.file) = .ok s'.files ∧
    listing.observed.length = 2 ∧ a.observations.length = 1 := by
  obtain ⟨head, hbuild⟩ := build_calibration
  obtain ⟨s', hrun⟩ := exists_run ready_listed head
  obtain ⟨listing, a, files, files', hlisting, hassemble, hinstructions, hcontrol, rfl⟩ :=
    Command.WritePestFiles.run_eq_ok.mp hrun
  obtain ⟨lines, hlines, hobservations⟩ := Command.WritePestFiles.observations_of_assemble hassemble
  have hnames := names_of_listed
  rw [hlisting] at hnames
  obtain ⟨hread, hdata⟩ := Prod.mk.inj (Option.some.inj hnames)
  refine ⟨reached_listed, head, _, a, files, listing, hbuild, hrun, hinstructions, hcontrol, ?_, ?_⟩
  · simpa using congrArg List.length hread
  · have hlength := (names_of_pairs hlines).length_eq
    rw [← hobservations, calibrationBlock, hdata] at hlength
    exact hlength.symm

end Hydroseries.Pest
