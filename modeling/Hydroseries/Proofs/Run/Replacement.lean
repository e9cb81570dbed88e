import Hydroseries.Proofs.DataFile.Columns
import Hydroseries.Proofs.Run.Columns

/-!
# Readers of several columns

A block that reads several columns of a file at once can be replaced by one that is unrolled, with
the same lines: both fail or both succeed, and they leave the same session
(`replace_severalReader`). For curves this is so only if the block lists one: a line of labels is one
label there, as labels may hold blanks.
-/

namespace Hydroseries

open Action (changeAll)
open Command (GetSeries TextFormat)
open Command.GetSeries (columnKeywords columnReader readers_of_columnKeywords severalReader)
open Control (Block Filled Invocation Line Lists Script blocksOf invocationAt singleInvocation)
open Stateful (exec)

namespace Run

variable {s : Session} {settings : Settings} {runContext : String} {steps : List Step}

/-! ## Blocks and their slices -/

variable {format : String} {labels : List String} {n position : Nat} {step step' : Step}
  {m r : Invocation}

/-- The step of a block of several columns, and that of its slice at a position. -/
inductive StepSlice (format : String) (labels : List String) (n position : Nat) : Step → Step → Prop
  | skip {origin origin'} : StepSlice format labels n position (.skip origin) (.skip origin')
  | perform {p q : Params} : p.command = severalReader format → q.command = columnReader format →
      p.Slice ("new_series_name" :: labels) n position q →
      StepSlice format labels n position (.perform p) (.perform q)

theorem performSteps_skipped (hsteps : ∀ step ∈ steps, ∃ origin, step = .skip origin)
    (s : Session) : ∃ q, (performSteps steps).perform s = (.ok q, s) := by
  induction steps with
  | nil => exact ⟨_, rfl⟩
  | cons step steps ih =>
    rw [List.forall_mem_cons] at hsteps
    obtain ⟨⟨origin, rfl⟩, hrest⟩ := hsteps
    obtain ⟨q, hq⟩ := ih hrest
    exact ⟨_, performSteps_skip_eq_ok.mpr ⟨q, hq, rfl⟩⟩

/-- The step of a block has the effect of the steps of its slices, one for each position. -/
theorem performSteps_slices (hformat : (format, labels) ∈ columnKeywords)
    (hcurve : format = "PLOTGEN" → n = 1) (hn : n ≠ 0) (hlength : steps.length = n)
    (hsteps : ∀ position step', steps[position]? = some step' →
      StepSlice format labels n position step step') (s : Session) :
    SameEffect ((performSteps [step]).perform s) ((performSteps steps).perform s) := by
  have hsome : steps ≠ [] := by
    rintro rfl
    exact hn hlength.symm
  obtain ⟨first, rest, hcons⟩ := List.exists_cons_of_ne_nil hsome
  have hfirst := hsteps 0 first (by rw [hcons]; rfl)
  cases step with
  | skip origin =>
    have hall : ∀ step' ∈ steps, ∃ origin', step' = .skip origin' := by
      intro step' hmem
      obtain ⟨position, hposition⟩ := List.mem_iff_getElem?.mp hmem
      cases hsteps position step' hposition
      exact ⟨_, rfl⟩
    obtain ⟨q, hq⟩ := performSteps_skipped hall s
    rw [hq]
    exact ⟨rfl, rfl⟩
  | perform p =>
    cases hfirst with
    | @perform _ q hp hq hslice =>
    rcases GetSeries.readers_slice hformat hp hq hslice hcurve s.dateFormat with
      ⟨fault, fault', hfault, hfault'⟩ | ⟨c, hc, hpicks, -⟩
    · have hblock : SameEffect ((performSteps [.perform p]).perform s)
          ((.error fault, s) : Outcome Unit × Session) :=
        performSteps_failed (performBlock_unread hfault)
      have hblock' : SameEffect ((performSteps (.perform q :: rest)).perform s)
          ((.error fault', s) : Outcome Unit × Session) :=
        performSteps_failed (performBlock_unread hfault')
      rw [hcons]
      exact hblock.trans ((sameEffect_errors _ _ _).trans hblock'.symm)
    · apply performSteps_reading hc _ hsome
      apply List.forall₂_of_length_eq_of_get (hlength.trans hpicks.symm)
      intro position hstep hpick
      have hposition := hsteps position _ (List.getElem?_eq_getElem hstep)
      rw [List.get_eq_getElem]
      generalize steps[position] = step' at hposition ⊢
      cases hposition with
      | @perform _ q' _ hq' hslice' =>
      rcases GetSeries.readers_slice hformat hp hq' hslice' hcurve s.dateFormat with
        ⟨fault, -, hfault, -⟩ | ⟨c', hc', -, hread⟩
      · rw [hc] at hfault
        cases hfault
      · rw [hc] at hc'
        cases hc'
        exact ⟨q', rfl, hread _ (List.getElem?_eq_getElem hpick)⟩

/-! ## Plans -/

theorem names_of_columnKeywords : ∀ e ∈ columnKeywords, "context" ∉ "new_series_name" :: e.2 ∧
    severalReader e.1 ≠ "SETTINGS" ∧ columnReader e.1 ≠ "SETTINGS" := by
  decide

/-- Neither a block nor its slice can be planned, or both have steps. -/
theorem planBlock_slice (hformat : (format, labels) ∈ columnKeywords)
    (hm : m.command = severalReader format) (hr : r.command = columnReader format)
    (h : Control.Slice ("new_series_name" :: labels) n position m r) (hfilled : Filled m)
    (hfilled' : Filled r) (runContext : String) :
    (∃ fault fault', planBlock runContext m = .error fault ∧
      planBlock runContext r = .error fault') ∨
    ∃ out out', planBlock runContext m = .ok out ∧ planBlock runContext r = .ok out' ∧
      StepSlice format labels n position out.1 out'.1 := by
  obtain ⟨d, hd, d', hd', hfind, hfind', hname, hname', hrequired, hoptional, hpatterns⟩ :=
    readers_of_columnKeywords _ hformat
  obtain ⟨hnot, hsettings, hsettings'⟩ := names_of_columnKeywords _ hformat
  rw [← hm] at hfind hname hsettings
  rw [← hr] at hfind' hname' hsettings'
  have hcontext := h.context? hnot
  cases hmc : m.context? with
  | none =>
    rw [hmc] at hcontext
    refine .inl ⟨.missingContext m.command m.startLine,
      .missingContext r.command r.startLine, ?_, ?_⟩
    · rw [planBlock, hmc]
    · rw [planBlock, hcontext]
  | some context =>
    rw [hmc] at hcontext
    have hselected : Selected runContext r ↔ Selected runContext m := by
      simp only [Selected, hmc, hcontext, hsettings, hsettings']
    by_cases hsel : Selected runContext m
    · rw [planBlock_of_selected hsel, planBlock_of_selected (hselected.mpr hsel), hfind, hfind']
      have hresolve := Params.resolve_congr hrequired hoptional hpatterns
        (h.isSome hfilled hfilled')
      cases hp : Params.resolve d m with
      | error fault =>
        rw [hp] at hresolve
        cases hq : Params.resolve d' r with
        | error fault' => exact .inl ⟨fault, fault', by simp only [hp]; rfl, by simp only [hq]; rfl⟩
        | ok q =>
          obtain ⟨p, hp'⟩ := hresolve.mp ⟨q, hq⟩
          cases hp'
      | ok p =>
        obtain ⟨q, hq⟩ := hresolve.mpr ⟨p, hp⟩
        have hslice := Params.slice_of_resolve hd hd' hoptional h hfilled hfilled' hnot hp hq
        refine .inr ⟨(.perform p, noticesOf d m), (.perform q, noticesOf d' r), ?_, ?_, ?_⟩
        · simp only [hp]
          rfl
        · simp only [hq]
          rfl
        · apply StepSlice.perform _ _ hslice
          · rw [(params_of_resolve hname hp).1, hm]
          · rw [(params_of_resolve hname' hq).1, hr]
    · exact .inr ⟨_, _, planBlock_of_not_selected hmc hsel,
        planBlock_of_not_selected hcontext (mt hselected.mp hsel), .skip⟩

theorem plan_slices {slice : Nat → Invocation} (hn : n ≠ 0)
    (h : ∀ position < n,
      (∃ fault fault', planBlock runContext m = .error fault ∧
        planBlock runContext (slice position) = .error fault') ∨
      ∃ out out', planBlock runContext m = .ok out ∧
        planBlock runContext (slice position) = .ok out' ∧
        StepSlice format labels n position out.1 out'.1) :
    (∃ fault fault', plan runContext [m] = .error fault ∧
      plan runContext ((List.range n).map slice) = .error fault') ∨
    ∃ step steps notices notices', plan runContext [m] = .ok ([step], notices) ∧
      plan runContext ((List.range n).map slice) = .ok (steps, notices') ∧ steps.length = n ∧
      ∀ position step', steps[position]? = some step' →
        StepSlice format labels n position step step' := by
  have hzero := h 0 (Nat.pos_of_ne_zero hn)
  cases hm : planBlock runContext m with
  | error fault =>
    rw [hm] at hzero
    rcases hzero with ⟨-, fault', -, hfault'⟩ | ⟨out, -, hout, -⟩
    · refine .inl ⟨fault, fault', ?_, ?_⟩
      · rw [plan, List.mapM_cons, hm]
        rfl
      · obtain ⟨k, rfl⟩ := Nat.exists_eq_succ_of_ne_zero hn
        rw [plan, List.range_succ_eq_map, List.map_cons, List.mapM_cons, hfault']
        rfl
    · cases hout
  | ok out =>
    have hslices : ∀ position < n, ∃ out', planBlock runContext (slice position) = .ok out' ∧
        StepSlice format labels n position out.1 out'.1 := by
      intro position hposition
      rcases h position hposition with ⟨fault, -, hfault, -⟩ | ⟨out₁, out', hout, hout', hstep⟩
      · rw [hm] at hfault
        cases hfault
      · rw [hm] at hout
        obtain rfl := Except.ok.inj hout
        exact ⟨out', hout', hstep⟩
    have hall : ∀ i ∈ (List.range n).map slice, ∃ out', planBlock runContext i = .ok out' := by
      intro i hi
      obtain ⟨position, hposition, rfl⟩ := List.mem_map.mp hi
      obtain ⟨out', hout', -⟩ := hslices position (List.mem_range.mp hposition)
      exact ⟨out', hout'⟩
    obtain ⟨outs, houts⟩ := exists_mapM hall
    have hlength : outs.length = n := by
      rw [← (mapM_eq_ok.mp houts).length_eq, List.length_map, List.length_range]
    refine .inr ⟨out.1, outs.map Prod.fst, out.2, outs.flatMap Prod.snd, ?_, ?_, ?_, ?_⟩
    · rw [plan, List.mapM_cons, hm]
      show Except.ok ([out.1], out.2 ++ []) = _
      rw [List.append_nil]
    · rw [plan, houts]
      rfl
    · rw [List.length_map, hlength]
    · intro position step' hstep'
      rw [List.getElem?_map] at hstep'
      obtain ⟨out', hout', rfl⟩ := Option.map_eq_some_iff.mp hstep'
      have hposition : position < n := hlength ▸ (List.getElem?_eq_some_iff.mp hout').1
      obtain ⟨out₁, hout₁, hstep⟩ := hslices position hposition
      obtain ⟨out₂, hout₂, hplan⟩ := getElem?_of_mapM houts
        (show ((List.range n).map slice)[position]? = some (slice position) by simp [hposition])
      rw [hout'] at hout₂
      rw [hout₁] at hplan
      obtain rfl := Option.some.inj hout₂
      obtain rfl := Except.ok.inj hplan
      exact hstep

/-! ## Control files -/

theorem commands_of_columnKeywords : ∀ e ∈ columnKeywords,
    Text.upper (Text.lower (severalReader e.1)) = severalReader e.1 ∧
      Text.upper (Text.lower (columnReader e.1)) = columnReader e.1 ∧
      Control.collecting.contains (Text.lower (severalReader e.1)) = true ∧
      Control.isRollable (Text.lower (columnReader e.1)) = true ∧
      Text.lower (severalReader e.1) ≠ "write_pest_files" ∧
      Text.lower (columnReader e.1) ≠ "write_pest_files" ∧
      Text.lower (columnReader e.1) ≠ "settings" := by
  decide +kernel

/-- One control file reads several columns of a data file at once, with `n` labels and as many names
on one line each and one value of every other keyword. The other one has the same lines in a block
that is unrolled, with no more than `n` words on the line that opens it. -/
structure Replacement (format : String) (labels : List String) (n : Nat) (a b : String)
    (several column : Block) : Prop where
  format_mem : (format, labels) ∈ columnKeywords
  blocks_several : blocksOf a = .ok [several]
  blocks_column : blocksOf b = .ok [column]
  command_several : several.command = Text.lower (severalReader format)
  command_column : column.command = Text.lower (columnReader format)
  entries_eq : column.entries = several.entries
  lists : Lists ("new_series_name" :: labels) n several.entries
  start_short : ∀ start ∈ column.body.head?, start.values.length ≤ n

variable {a b : String} {several column : Block}

theorem settingsContext?_of_commands {sc : Script}
    (h : ∀ i ∈ sc.invocations, i.command ≠ "SETTINGS") : sc.settingsContext? = none := by
  have hnone : (sc.invocations.find? fun i => i.command = "SETTINGS") = none := by
    simpa using h
  rw [Script.settingsContext?, hnone]
  rfl

theorem Replacement.wordy (h : Replacement format labels n a b several column) :
    Control.Wordy several.entries := by
  obtain ⟨first, entries, hbody, -, hentries⟩ :=
    Control.entries_of_blocksOf h.blocks_several List.mem_cons_self
  rw [Block.entries, hbody]
  exact hentries

/-- The block that reads the columns at once is run once. -/
theorem Replacement.read_several (h : Replacement format labels n a b several column) :
    ∃ notices, Script.read a = .ok ⟨[several],
      [singleInvocation several.command several.origin several.entries], notices⟩ := by
  obtain ⟨-, -, hcollecting, -, hpest, -⟩ := commands_of_columnKeywords _ h.format_mem
  rw [← h.command_several] at hcollecting hpest
  obtain ⟨notices, hunroll⟩ := Control.unroll_of_collecting hcollecting hpest
  exact ⟨notices, Script.read_of_block h.blocks_several hpest hunroll⟩

/-- The other one is run for each position. -/
theorem Replacement.read_column (h : Replacement format labels n a b several column) :
    n ≠ 0 ∧ Script.read b = .ok ⟨[column],
      (List.range n).map (invocationAt column.origin several.entries), []⟩ := by
  obtain ⟨-, -, -, hrollable, -, hpest, hsettings⟩ := commands_of_columnKeywords _ h.format_mem
  rw [← h.command_column] at hrollable hpest hsettings
  obtain ⟨start, entries, last, -, hbody, -, -, -, hvalues⟩ :=
    Control.lines_of_blocksOf h.blocks_column List.mem_cons_self
  obtain rfl : several.entries = entries := by
    rw [← h.entries_eq, Block.entries, hbody]
    rfl
  have hstart : start.values ≠ [] := hvalues start List.mem_cons_self
  have hshort : start.values.length ≤ n := h.start_short start (by rw [hbody]; rfl)
  have hunroll := Control.unroll_of_lists hrollable hsettings hbody hstart hshort h.wordy h.lists
    (List.cons_ne_nil _ _)
  exact ⟨Nat.ne_of_gt (Nat.lt_of_lt_of_le (List.length_pos_iff.mpr hstart) hshort),
    Script.read_of_block h.blocks_column hpest hunroll⟩

/-- Both files are read, and either neither can be planned or the step of the one has its slices in
the steps of the other. -/
theorem Replacement.plans (h : Replacement format labels n a b several column) :
    ∃ sa sb, Script.read a = .ok sa ∧ Script.read b = .ok sb ∧ sa.settingsContext? = none ∧
      sb.settingsContext? = none ∧ n ≠ 0 ∧ ∀ runContext,
        (∃ fault fault', plan runContext sa.invocations = .error fault ∧
          plan runContext sb.invocations = .error fault') ∨
        ∃ step steps notices notices', plan runContext sa.invocations = .ok ([step], notices) ∧
          plan runContext sb.invocations = .ok (steps, notices') ∧ steps.length = n ∧
          ∀ position step', steps[position]? = some step' →
            StepSlice format labels n position step step' := by
  obtain ⟨htitle, htitle', hcollecting, -⟩ := commands_of_columnKeywords _ h.format_mem
  obtain ⟨-, hnot, hnot'⟩ := names_of_columnKeywords _ h.format_mem
  rw [← h.command_several] at hcollecting htitle
  rw [← h.command_column] at htitle'
  obtain ⟨notices, hread⟩ := h.read_several
  obtain ⟨hn, hread'⟩ := h.read_column
  refine ⟨_, _, hread, hread', ?_, ?_, hn, fun runContext => ?_⟩
  · apply settingsContext?_of_commands
    intro i hi
    obtain rfl := List.mem_singleton.mp hi
    exact htitle.trans_ne hnot
  · apply settingsContext?_of_commands
    intro i hi
    obtain ⟨position, -, rfl⟩ := List.mem_map.mp hi
    exact htitle'.trans_ne hnot'
  · apply plan_slices hn
    intro position hposition
    apply planBlock_slice h.format_mem htitle htitle'
    · exact Control.slice_of_lists hcollecting h.wordy h.lists hposition
    · exact Control.filled_collected hcollecting h.wordy
    · exact Control.filled_invocationAt h.wordy

/-! ## Files of two columns -/

/-- A control file of a single block. -/
def blockText (command : String) (entries : List Line) : String :=
  let lines := entries.map fun l => l.keyword ++ " " ++ l.joined ++ "\n"
  "START " ++ command ++ "\n" ++ Text.join "" lines ++ "END " ++ command ++ "\n"

/-- The block of such a file. -/
def blockOf (command : String) (entries : List Line) : Block where
  command := Text.lower command
  startLine := 1
  lines := ⟨"start", [command]⟩ :: entries ++ [⟨"end", [command]⟩]

theorem body_blockOf (command : String) (entries : List Line) :
    (blockOf command entries).body = ⟨"start", [command]⟩ :: entries := by
  rw [Block.body, blockOf, List.getLast?_concat, List.dropLast_concat]
  exact if_pos rfl

theorem entries_blockOf (command : String) (entries : List Line) :
    (blockOf command entries).entries = entries := by
  rw [Block.entries, body_blockOf]
  rfl

theorem replacement_of_lists {entries : List Line} (hformat : (format, labels) ∈ columnKeywords)
    (hseveral : blocksOf (blockText (severalReader format) entries) =
      .ok [blockOf (severalReader format) entries])
    (hcolumn : blocksOf (blockText (columnReader format) entries) =
      .ok [blockOf (columnReader format) entries])
    (hlists : Lists ("new_series_name" :: labels) n entries) (hn : 1 ≤ n) :
    Replacement format labels n (blockText (severalReader format) entries)
      (blockText (columnReader format) entries) (blockOf (severalReader format) entries)
      (blockOf (columnReader format) entries) where
  format_mem := hformat
  blocks_several := hseveral
  blocks_column := hcolumn
  command_several := rfl
  command_column := rfl
  entries_eq := by rw [entries_blockOf, entries_blockOf]
  lists := by rwa [entries_blockOf]
  start_short := by
    rw [body_blockOf]
    rintro start ⟨⟩
    exact hn

/-- The lines of a block that reads two columns. -/
def columnEntries (file : String) (labels : List Line) : List Line :=
  [⟨"context", ["all"]⟩, ⟨"file", [file]⟩] ++ labels ++ [⟨"new_series_name", ["first", "second"]⟩]

/-- The lines of a block that reads two variables. -/
def variableEntries : List Line :=
  columnEntries "v.dat" [⟨"variable_name", ["flow", "flow"]⟩, ⟨"location_id", ["1", "2"]⟩]

/-- The lines of a block that reads two curves. -/
def curveEntries : List Line := columnEntries "c.plt" [⟨"label", ["A", "B"]⟩]

theorem replacement_variables : Replacement "STATVAR" ["variable_name", "location_id"] 2
    (blockText (severalReader "STATVAR") variableEntries)
    (blockText (columnReader "STATVAR") variableEntries)
    (blockOf (severalReader "STATVAR") variableEntries)
    (blockOf (columnReader "STATVAR") variableEntries) := by
  apply replacement_of_lists (by decide) (by decide +kernel) (by decide +kernel) _ (by decide)
  constructor <;> simp [variableEntries, columnEntries]

theorem replacement_curves : Replacement "PLOTGEN" ["label"] 2
    (blockText (severalReader "PLOTGEN") curveEntries)
    (blockText (columnReader "PLOTGEN") curveEntries)
    (blockOf (severalReader "PLOTGEN") curveEntries)
    (blockOf (columnReader "PLOTGEN") curveEntries) := by
  apply replacement_of_lists (by decide) (by decide +kernel) (by decide +kernel) _ (by decide)
  constructor <;> simp [curveEntries, columnEntries]

/-- A file of statistic variables with one value of each of two variables. -/
def variableFile : String := "2\nflow 1\nflow 2\n1 1988 10 01 00 00 00 1 2\n"

/-- A plot file with one value of each of two curves. -/
def curveFile : String :=
  "Label LINTYP\nA 1 4 1 SUM 1\nB 1 4 1 SUM 1\n\nDate/time\nR 1988 10 01 00 00 1 2\n"

/-- A session that sees both files. -/
def columnSession : Session where
  baseDir := ""
  files := { files := ⟨[(["v.dat"], variableFile.toUTF8), (["c.plt"], curveFile.toUTF8)]⟩ }

/-- Reads two columns of a file. -/
def twoColumns (format : TextFormat) (file first second : String) : GetSeries where
  format := format
  file := file
  picks := [(first, .ofSpelling "first"), (second, .ofSpelling "second")]
  window := .unbounded
  dates := .iso

/-- The step that reads one of the columns. -/
def columnStep (format file : String) (labels : List (String × String)) (name : String) : Step :=
  let keywords := [("file", file)] ++ labels ++ [("new_series_name", name)]
  .perform ⟨columnReader format, 1, ⟨keywords.map fun e => (e.1, .scalar e.2)⟩⟩

/-- Reads both variables. -/
def twoVariables : GetSeries := twoColumns .statVar "v.dat" "flow_1" "flow_2"

/-- Reads both curves. -/
def twoCurves : GetSeries := twoColumns .plotgen "c.plt" "A" "B"

theorem isOk_twoVariables : (exec twoVariables.run columnSession).1.isOk = true := by
  have hplace : columnSession.files.locate "v.dat" = .ok ["v.dat"] := by decide +kernel
  have hfile : columnSession.files.read "v.dat" = .ok variableFile :=
    FileTree.read_of_find? hplace rfl
  have hlines : DataFile.StatVar.countAndRest "v.dat" "variables" variableFile =
      .ok (2, [("flow 1", 2), ("flow 2", 3), ("1 1988 10 01 00 00 00 1 2", 4)]) := by
    decide +kernel
  have hadd : (DataFile.StatVar.row "v.dat" 2 4 "1 1988 10 01 00 00 00 1 2").toOption.map
      (fun r => (changeAll (twoVariables.add "v.dat" (OrderedMap.ofList
        (["flow_1", "flow_2"].zipIdx.map fun e => (e.1, ⟨DataFile.columnPoints [r] e.2⟩))))
        twoVariables.picks .empty).1.isOk) = some true := by
    decide +kernel
  obtain ⟨r, hrow, hadd⟩ := ok_of_toOption_map hadd
  have htable := DataFile.StatVar.read_of_parts hlines (by decide)
    (show _ = ["flow_1", "flow_2"] by decide +kernel) (.cons hrow .nil)
  have hincreasing : Increasing ([r].map Prod.fst) := List.pairwise_singleton _ _
  have hcolumns := htable.trans (DataFile.tableOfRows_of_increasing hincreasing "v.dat" _)
  exact isOk_reading hfile hcolumns hadd

theorem isOk_twoCurves : (exec twoCurves.run columnSession).1.isOk = true := by
  have hplace : columnSession.files.locate "c.plt" = .ok ["c.plt"] := by decide +kernel
  have hfile : columnSession.files.read "c.plt" = .ok curveFile :=
    FileTree.read_of_find? hplace rfl
  have hlines : DataFile.Plotgen.linesAfter? "Label" (DataFile.numberedLines curveFile) =
      some [("A 1 4 1 SUM 1", 2), ("B 1 4 1 SUM 1", 3), ("", 4), ("Date/time", 5),
        ("R 1988 10 01 00 00 1 2", 6)] := by
    decide +kernel
  have hnames : DataFile.Plotgen.labels "c.plt" [("A 1 4 1 SUM 1", 2), ("B 1 4 1 SUM 1", 3),
        ("", 4), ("Date/time", 5), ("R 1988 10 01 00 00 1 2", 6)] =
      .ok (["A", "B"], [("", 4), ("Date/time", 5), ("R 1988 10 01 00 00 1 2", 6)]) := by
    decide +kernel
  have hdata : DataFile.Plotgen.linesAfter? "Date/time"
      [("", 4), ("Date/time", 5), ("R 1988 10 01 00 00 1 2", 6)] =
      some [("R 1988 10 01 00 00 1 2", 6)] := by
    decide +kernel
  have hadd : (DataFile.Plotgen.row "c.plt" 2 6 "R 1988 10 01 00 00 1 2").toOption.map
      (fun row => (changeAll (twoCurves.add "c.plt" (OrderedMap.ofList
        (["A", "B"].zipIdx.map fun e => (e.1, ⟨DataFile.columnPoints ([row].filterMap id) e.2⟩))))
        twoCurves.picks .empty).1.isOk) = some true := by
    decide +kernel
  obtain ⟨row, hrow, hadd⟩ := ok_of_toOption_map hadd
  have hincreasing : Increasing (([row].filterMap id).map Prod.fst) := by
    cases row with
    | none => exact .nil
    | some r => exact List.pairwise_singleton _ _
  have htable := DataFile.Plotgen.read_of_parts hlines hnames (by decide) hdata (.cons hrow .nil)
  have hcolumns := htable.trans (DataFile.tableOfRows_of_increasing hincreasing "c.plt" _)
  exact isOk_reading hfile hcolumns hadd

theorem isOk_unrolledVariables : ((text ⟨some "calib", false⟩
    (blockText (columnReader "STATVAR") variableEntries)).perform columnSession).1.isOk = true := by
  obtain ⟨-, hread⟩ := replacement_variables.read_column
  rw [entries_blockOf] at hread
  have hplan : (plan "calib" ((List.range 2).map (invocationAt
        (blockOf (columnReader "STATVAR") variableEntries).origin variableEntries))).toOption.map
          Prod.fst =
      some [columnStep "STATVAR" "v.dat" [("variable_name", "flow"), ("location_id", "1")] "first",
        columnStep "STATVAR" "v.dat" [("variable_name", "flow"), ("location_id", "2")] "second"] := by
    decide +kernel
  apply isOk_text_columns hread hplan _ (by simp) isOk_twoVariables
  exact .cons (readsColumn_perform (by decide) (by decide +kernel))
    (.cons (readsColumn_perform (by decide) (by decide +kernel)) .nil)

theorem isOk_unrolledCurves : ((text ⟨some "calib", false⟩
    (blockText (columnReader "PLOTGEN") curveEntries)).perform columnSession).1.isOk = true := by
  obtain ⟨-, hread⟩ := replacement_curves.read_column
  rw [entries_blockOf] at hread
  have hplan : (plan "calib" ((List.range 2).map (invocationAt
        (blockOf (columnReader "PLOTGEN") curveEntries).origin curveEntries))).toOption.map
          Prod.fst =
      some [columnStep "PLOTGEN" "c.plt" [("label", "A")] "first",
        columnStep "PLOTGEN" "c.plt" [("label", "B")] "second"] := by
    decide +kernel
  apply isOk_text_columns hread hplan _ (by simp) isOk_twoCurves
  exact .cons (readsColumn_perform (by decide) (by decide +kernel))
    (.cons (readsColumn_perform (by decide) (by decide +kernel)) .nil)

/-! ## Replacing a reader -/

/-- A block that reads several columns at once can be replaced by one that is unrolled: in any
session both fail or both succeed, and they leave the same session. This holds for curves only if
there is one. A block that lists several curves fails and does nothing, unless it is passed over. -/
theorem replace_severalReader (h : Replacement format labels n a b several column)
    (settings : Settings) (s : Session) :
    ((format = "PLOTGEN" → n = 1) →
      SameEffect ((text settings a).perform s) ((text settings b).perform s)) ∧
    (format = "PLOTGEN" → n ≠ 1 →
      ((text settings a).perform s).2 = s ∧
        ∀ report, ((text settings a).perform s).1 = .ok report → report.executed = []) := by
  obtain ⟨sa, sb, hreadA, hreadB, hcontextA, hcontextB, hn, hplans⟩ := h.plans
  constructor
  · intro hcurve
    apply sameEffect_text hreadA hreadB (hcontextA.trans hcontextB.symm)
    intro runContext
    rcases hplans runContext with hfaults |
      ⟨step, steps, notices, notices', hplan, hplan', hlength, hsteps⟩
    · exact .inl hfaults
    · exact .inr ⟨_, _, hplan, hplan',
        performSteps_slices h.format_mem hcurve hn hlength hsteps s⟩
  · intro hcurves hmany
    rw [perform_text hreadA]
    cases contextOf settings sa with
    | error fault => exact ⟨rfl, fun report hreport => by cases hreport⟩
    | ok runContext =>
      dsimp only
      rcases hplans runContext with ⟨fault, -, hfault, -⟩ |
        ⟨step, steps, notices, notices', hplan, -, hlength, hsteps⟩
      · rw [hfault]
        exact ⟨rfl, fun report hreport => by cases hreport⟩
      · rw [hplan]
        dsimp only
        obtain ⟨step', hstep'⟩ : ∃ step', steps[0]? = some step' :=
          ⟨_, List.getElem?_eq_getElem (hlength ▸ Nat.pos_of_ne_zero hn)⟩
        cases hsteps 0 step' hstep' with
        | skip =>
          refine ⟨rfl, fun report hreport => ?_⟩
          rw [← Except.ok.inj hreport]
        | @perform p q hp hq hslice =>
          subst hcurves
          obtain rfl : labels = ["label"] := by simpa [columnKeywords] using h.format_mem
          obtain ⟨fault, hfault⟩ := GetSeries.ofParams_curves hp hslice hmany s.dateFormat
          obtain ⟨fault', hfailed⟩ :=
            ((performSteps_single p s).trans (performBlock_unread hfault)).eq_error
          rw [hfailed]
          exact ⟨rfl, fun report hreport => by cases hreport⟩

/-- Two variables are read, at once as well as one after the other. -/
theorem replace_severalReader_variables :
    Replacement "STATVAR" ["variable_name", "location_id"] 2
      (blockText (severalReader "STATVAR") variableEntries)
      (blockText (columnReader "STATVAR") variableEntries)
      (blockOf (severalReader "STATVAR") variableEntries)
      (blockOf (columnReader "STATVAR") variableEntries) ∧
    SameEffect
      ((text ⟨some "calib", false⟩
        (blockText (severalReader "STATVAR") variableEntries)).perform columnSession)
      ((text ⟨some "calib", false⟩
        (blockText (columnReader "STATVAR") variableEntries)).perform columnSession) ∧
    ((text ⟨some "calib", false⟩
      (blockText (columnReader "STATVAR") variableEntries)).perform columnSession).1.isOk = true :=
  ⟨replacement_variables,
    (replace_severalReader replacement_variables ⟨some "calib", false⟩ columnSession).1 (by simp),
    isOk_unrolledVariables⟩

/-- Two curves are read one after the other, but not at once. -/
theorem curves_not_replaced :
    Replacement "PLOTGEN" ["label"] 2 (blockText (severalReader "PLOTGEN") curveEntries)
      (blockText (columnReader "PLOTGEN") curveEntries)
      (blockOf (severalReader "PLOTGEN") curveEntries)
      (blockOf (columnReader "PLOTGEN") curveEntries) ∧
    ((text ⟨some "calib", false⟩
      (blockText (severalReader "PLOTGEN") curveEntries)).perform columnSession).1.isOk = false ∧
    ((text ⟨some "calib", false⟩
      (blockText (columnReader "PLOTGEN") curveEntries)).perform columnSession).1.isOk = true :=
  ⟨replacement_curves, by decide +kernel, isOk_unrolledCurves⟩

end Run

end Hydroseries
