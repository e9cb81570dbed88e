import Hydroseries.Catalog.Commands
import Hydroseries.Proofs.Control.Weights
import Hydroseries.Proofs.Pest.Block

/-!
# Pairs and their bounds

The lines of a keyword are collected and paired up by position. Observations, models and equations
come in equal numbers, so each pair has those of its own run of lines. The numbers of bounds are not
compared: behind a stray line of bounds no pair of the family has the bounds of its own equation, but
some that stand before its run (`pair_of_lines`).
-/

namespace Hydroseries.Pest

open Hydroseries.Control

variable {p : Params} {kind : EntityKind} {pairs : List WeightedPair}

/-! ## Pairs of a family -/

/-- A pair with the observation, the model and the equation of three texts. -/
structure WeightedPair.Of (w : WeightedPair) (observation model equation : String) : Prop where
  observation : w.observation = .ofSpelling observation
  model : w.model = .ofSpelling model
  equation : Equation.read equation = .ok w.equation

/-- The entries of a kind are as many models and equations as observations, and they are paired up in
their order. -/
theorem ofFamily_eq_ok (h : WeightedPair.ofFamily p kind = .ok pairs) :
    (p.entries (modelKeyword kind.label)).length =
      (p.entries (observationKeyword kind.label)).length ∧
    (p.entries (equationKeyword kind.label)).length =
      (p.entries (observationKeyword kind.label)).length ∧
    pairs.length = (p.entries (observationKeyword kind.label)).length ∧
    ∀ (n : Nat) (observation model equation : String),
      (p.entries (observationKeyword kind.label))[n]? = some observation →
      (p.entries (modelKeyword kind.label))[n]? = some model →
      (p.entries (equationKeyword kind.label))[n]? = some equation →
      ∃ w : WeightedPair, pairs[n]? = some w ∧ w.Of observation model equation ∧
        WeightedPair.readBounds (p.entries (boundsKeyword kind.label))[n]? =
          .ok (w.lower, w.upper) := by
  unfold WeightedPair.ofFamily at h
  simp only at h
  split at h
  next =>
    cases h
  next hlengths =>
    obtain ⟨hmodels, hequations⟩ := not_or.mp hlengths
    have hmodels := not_ne_iff.mp hmodels
    have hequations := not_ne_iff.mp hequations
    refine ⟨hmodels, hequations, ?_, fun n observation model equation ho hm he => ?_⟩
    · have hlength := (mapM_eq_ok.mp h).length_eq
      rw [List.length_zipIdx, List.length_zip, List.length_zip] at hlength
      rw [← hlength]
      exact (Nat.min_eq_left (Nat.le_min.mpr ⟨Nat.le_of_eq hmodels.symm, Nat.le_of_eq hequations.symm⟩))
    · have hentry : ((p.entries (observationKeyword kind.label)).zip
          ((p.entries (modelKeyword kind.label)).zip
            (p.entries (equationKeyword kind.label)))).zipIdx[n]? =
          some ((observation, model, equation), n) := by
        have htexts := List.getElem?_zip_eq_some (z := (observation, model, equation)).mpr
          ⟨ho, List.getElem?_zip_eq_some (z := (model, equation)).mpr ⟨hm, he⟩⟩
        rw [List.getElem?_zipIdx, htexts, Option.map_some, Nat.zero_add]
      obtain ⟨w, hw, hread⟩ := getElem?_of_mapM h hentry
      obtain ⟨bounds, hbounds, hread⟩ := bind_eq_ok.mp hread
      obtain ⟨expr, hexpr, hread⟩ := bind_eq_ok.mp hread
      obtain rfl := Except.ok.inj hread
      exact ⟨_, hw, ⟨rfl, rfl, hexpr⟩, hbounds⟩

theorem kind_of_ofFamily (h : WeightedPair.ofFamily p kind = .ok pairs) :
    ∀ w ∈ pairs, w.kind = kind := by
  unfold WeightedPair.ofFamily at h
  simp only at h
  split at h
  next => cases h
  next =>
    intro w hw
    obtain ⟨entry, -, hread⟩ := mem_of_mapM h hw
    obtain ⟨bounds, -, hread⟩ := bind_eq_ok.mp hread
    obtain ⟨expr, -, hread⟩ := bind_eq_ok.mp hread
    rw [← Except.ok.inj hread]

/-- The pairs of a kind are those that its entries make. -/
theorem ofFamily_of_ofParams (h : WeightedPair.ofParams p = .ok pairs)
    (hkind : kind ∈ WeightedPair.families) :
    WeightedPair.ofFamily p kind = .ok (pairs.filter fun w => w.kind = kind) := by
  obtain ⟨parts, hparts, hflatten⟩ := bind_eq_ok.mp h
  obtain rfl := Except.ok.inj hflatten
  have hdistinct : WeightedPair.families.Nodup := by decide
  have hall := mapM_eq_ok.mp hparts
  clear hparts hflatten h
  generalize WeightedPair.families = kinds at hkind hdistinct hall
  have hothers : ∀ {kinds : List EntityKind} {parts : List (List WeightedPair)},
      List.Forall₂ (fun k ws => WeightedPair.ofFamily p k = .ok ws) kinds parts → kind ∉ kinds →
      parts.flatten.filter (fun w => w.kind = kind) = [] := by
    intro kinds parts hall hnot
    induction hall with
    | nil => rfl
    | @cons k ws kinds parts hws _ ih =>
      rw [List.mem_cons, not_or] at hnot
      rw [List.flatten_cons, List.filter_append, ih hnot.2, List.append_nil]
      refine List.filter_eq_nil_iff.mpr fun w hw => ?_
      rw [kind_of_ofFamily hws w hw]
      simpa using Ne.symm hnot.1
  induction hall with
  | nil => cases hkind
  | @cons k ws kinds parts hws hrest ih =>
    rw [List.nodup_cons] at hdistinct
    rw [List.flatten_cons, List.filter_append]
    rcases List.mem_cons.mp hkind with rfl | hmem
    · have hown : ws.filter (fun w => w.kind = kind) = ws :=
        List.filter_eq_self.mpr fun w hw => by simpa using kind_of_ofFamily hws w hw
      rw [hown, hothers hrest hdistinct.1, List.append_nil]
      exact hws
    · have hnone : ws.filter (fun w => w.kind = kind) = [] := by
        refine List.filter_eq_nil_iff.mpr fun w hw => ?_
        rw [kind_of_ofFamily hws w hw]
        have hne : k ≠ kind := fun heq => hdistinct.1 (heq ▸ hmem)
        simpa using hne
      rw [hnone, List.nil_append]
      exact ih hmem hdistinct.2

/-! ## Pairs of a block -/

/-- The kinds of pairs and their keywords. -/
theorem label_mem_weightFamilies : ∀ kind ∈ WeightedPair.families, kind.label ∈ weightFamilies := by
  decide

theorem keywords_ne_context : ∀ family ∈ weightFamilies,
    observationKeyword family ≠ "context" ∧ modelKeyword family ≠ "context" ∧
      equationKeyword family ≠ "context" ∧ boundsKeyword family ≠ "context" := by
  decide

theorem find?_title {b : Block} (hcommand : b.command = "write_pest_files") :
    Catalog.find? b.title = some Catalog.writePestFiles := by
  rw [Block.title, hcommand]
  decide +kernel

/-- What a block reads under a keyword are the texts of its lines, with the bounds that are put in. -/
theorem entries_of_block {source : String} {blocks : List Block} {b : Block}
    {out : List Invocation × List Notice} {i : Invocation} {d : Catalog.Descriptor}
    (hblocks : blocksOf source = .ok blocks) (hb : b ∈ blocks)
    (hcommand : b.command = "write_pest_files") (hunroll : unroll b = .ok out) (hi : i ∈ out.1)
    (hfind : Catalog.find? i.command = some d) (hresolve : Params.resolve d i = .ok p)
    {key : String} (hkey : key ≠ "context") :
    p.entries key = textsAt key (insertBounds (b.body.drop 1)) := by
  obtain ⟨-, hinvocations, hlines⟩ := lines_of_pest hblocks hb hcommand hunroll
  obtain ⟨htitle, hentries⟩ := hinvocations i hi
  rw [htitle, find?_title hcommand] at hfind
  obtain rfl := Option.some.inj hfind
  have hpresets : Params.presets Catalog.writePestFiles = [] := by decide
  exact Params.entries_of_collected (by simp [Catalog.commands]) hresolve hentries hkey
    (by simp [hpresets]) hlines

/-- Each observation line of a block makes one pair of its kind, with the model and the equation on
the two lines behind it. If no stray bounds stand before it, its bounds are those on the line behind
the equation, or else loose ones; otherwise they are some that are there, or put in, for the lines
before it. -/
theorem pair_of_lines {source : String} {blocks : List Block} {b : Block}
    {out : List Invocation × List Notice} {i : Invocation} {d : Catalog.Descriptor} {p : Params}
    {f : FilesBlock} {kind : EntityKind} (hblocks : blocksOf source = .ok blocks) (hb : b ∈ blocks)
    (hcommand : b.command = "write_pest_files") (hunroll : unroll b = .ok out) (hi : i ∈ out.1)
    (hfind : Catalog.find? i.command = some d) (hresolve : Params.resolve d i = .ok p)
    (hbuild : FilesBlock.ofParams p = .ok f) (hkind : kind ∈ WeightedPair.families) :
    (f.pairs.filter fun w => w.kind = kind).length =
      (textsAt (observationKeyword kind.label) (b.body.drop 1)).length ∧
    ∀ front o rest, b.body.drop 1 = front ++ o :: rest →
      o.keyword = observationKeyword kind.label →
      ∃ m e behind w, rest = m :: e :: behind ∧ m.keyword = modelKeyword kind.label ∧
        e.keyword = equationKeyword kind.label ∧
        (f.pairs.filter fun w => w.kind = kind)[
          (textsAt (observationKeyword kind.label) front).length]? = some w ∧
        w.Of o.joined m.joined e.joined ∧
        (strays kind.label front = [] →
          WeightedPair.readBounds (some (boundsBehind kind.label behind)) =
            .ok (w.lower, w.upper)) ∧
        (strays kind.label front ≠ [] →
          ∃ text, (textsAt (boundsKeyword kind.label) (insertBounds front))[
              (textsAt (observationKeyword kind.label) front).length]? = some text ∧
            WeightedPair.readBounds (some text) = .ok (w.lower, w.upper)) := by
  have hfamily := label_mem_weightFamilies kind hkind
  obtain ⟨hobservation, hmodel, hequation, hbounds⟩ := keywords_ne_context kind.label hfamily
  obtain ⟨harranged, -, -⟩ := lines_of_pest hblocks hb hcommand hunroll
  have hentries : ∀ {key : String}, key ≠ "context" →
      p.entries key = textsAt key (insertBounds (b.body.drop 1)) :=
    entries_of_block hblocks hb hcommand hunroll hi hfind hresolve
  have hpairs := ofFamily_of_ofParams (ofParams_eq_ok.mp hbuild).2.2.2.2.2.2.1 hkind
  obtain ⟨hmodels, hequations, hlength, hpair⟩ := ofFamily_eq_ok hpairs
  rw [hentries hobservation, textsAt_insertBounds fun other hother =>
    (observation_ne_bounds _ hfamily _ hother).symm] at hmodels hequations hlength hpair
  rw [hentries hmodel, textsAt_insertBounds fun other hother =>
    (model_ne_bounds _ hfamily _ hother).symm] at hmodels hpair
  rw [hentries hequation, textsAt_insertBounds fun other hother =>
    (equation_ne_bounds _ hfamily _ hother).symm] at hequations hpair
  rw [hentries hbounds] at hpair
  refine ⟨hlength, fun front o rest hlines ho => ?_⟩
  have harranged := harranged kind.label hfamily
  obtain ⟨m, e, behind, rfl, hm, he⟩ := harranged front o rest hlines ho
  rw [hlines] at harranged hmodels hequations hpair
  -- The three texts of the run stand at one position, which its bounds share without stray ones.
  obtain ⟨hmodelText, hequationText⟩ :=
    harranged.texts_of_run hfamily ho hm he hmodels hequations
  obtain ⟨w, hw, hof, hread⟩ :=
    hpair _ o.joined m.joined e.joined (getElem?_textsAt ho) hmodelText hequationText
  obtain ⟨hown, hother⟩ := bounds_of_run hfamily ho hm he front behind
  rw [(harranged.length_eq hfamily ho hmodels hequations).2] at hown hother
  refine ⟨m, e, behind, w, rfl, hm, he, hw, hof, fun hnone => hown hnone ▸ hread, fun hsome => ?_⟩
  obtain ⟨text, hbefore, htext⟩ := hother hsome
  exact ⟨text, hbefore, htext ▸ hread⟩

/-! ## A block with stray bounds -/

/-- The lines of a block whose first bounds stand behind no equation. -/
def strayLines : List Line :=
  [⟨"context", ["all"]⟩, ⟨"new_pest_control_file", ["pest.pst"]⟩,
   ⟨"new_instruction_file", ["pest.ins"]⟩, ⟨"template_file", ["model.tpl"]⟩,
   ⟨"model_input_file", ["model.in"]⟩, ⟨"parameter_group_file", ["groups.txt"]⟩,
   ⟨"parameter_data_file", ["parameters.txt"]⟩, ⟨"doaui", ["noaui"]⟩,
   ⟨"model_command_line", ["model"]⟩,
   ⟨"series_weights_min_max", ["-inf", "-inf"]⟩,
   ⟨"observation_series_name", ["flow"]⟩, ⟨"model_series_name", ["flow"]⟩,
   ⟨"series_weights_equation", ["1"]⟩, ⟨"series_weights_min_max", ["-inf", "inf"]⟩,
   ⟨"observation_s_table_name", ["mean"]⟩, ⟨"model_s_table_name", ["mean"]⟩,
   ⟨"s_table_weights_equation", ["1"]⟩, ⟨"s_table_weights_min_max", ["-inf", "inf"]⟩]

def strayBlock : Block := namedBlock "write_pest_files" 1 strayLines

def strayInvocation : Invocation := ⟨"WRITE_PEST_FILES", 1, strayLines.foldl collectLine []⟩

/-- What the block says, but for its context. -/
def strayParams : Params :=
  ⟨"WRITE_PEST_FILES", 1, ⟨(strayLines.drop 1).foldl collectLine []⟩⟩

def strayText : String := String.ofList (blockChars "write_pest_files" strayLines)

theorem blocksOf_stray : blocksOf strayText = .ok [strayBlock] := by
  rw [blocksOf, strayText, String.toList_ofList]
  decide +kernel

theorem unroll_stray : unroll strayBlock = .ok ([strayInvocation], []) := by decide +kernel

theorem resolve_stray : Params.resolve Catalog.writePestFiles strayInvocation = .ok strayParams := by
  decide +kernel

/-- The kinds of the pairs and their upper bounds. -/
def uppers (pairs : List WeightedPair) : List (EntityKind × Option UInt64) :=
  pairs.map fun w => (w.kind, w.upper.map Double.bits)

theorem pairs_of_stray : ∃ pairs, WeightedPair.ofParams strayParams = .ok pairs ∧
    uppers pairs =
      [(.series, some (-Double.infinity).bits), (.sTable, some Double.infinity.bits)] := by
  obtain ⟨series, hseries, huppers⟩ : ∃ series, WeightedPair.ofFamily strayParams .series =
      .ok series ∧ uppers series = [(.series, some (-Double.infinity).bits)] :=
    ok_of_toOption_map (by decide +kernel)
  obtain ⟨tables, htables, huppers'⟩ : ∃ tables, WeightedPair.ofFamily strayParams .sTable =
      .ok tables ∧ uppers tables = [(.sTable, some Double.infinity.bits)] :=
    ok_of_toOption_map (by decide +kernel)
  have hnone : ∀ kind ∈ [EntityKind.vTable, .eTable, .gTable],
      WeightedPair.ofFamily strayParams kind = .ok [] := by
    intro kind hkind
    have hempty : ∀ kind ∈ [EntityKind.vTable, .eTable, .gTable],
        (WeightedPair.ofFamily strayParams kind).toOption.map List.length = some 0 := by
      decide +kernel
    obtain ⟨pairs, hpairs, hlength⟩ := ok_of_toOption_map (hempty kind hkind)
    rw [hpairs, List.length_eq_zero_iff.mp hlength]
  have hparts : WeightedPair.families.mapM (WeightedPair.ofFamily strayParams) =
      .ok [series, tables, [], [], []] :=
    mapM_eq_ok.mpr (.cons hseries (.cons htables (.cons (hnone _ (by decide))
      (.cons (hnone _ (by decide)) (.cons (hnone _ (by decide)) .nil)))))
  refine ⟨series ++ tables, ?_, ?_⟩
  · have hflatten : [series, tables, [], [], []].flatten = series ++ tables := by simp
    rw [WeightedPair.ofParams, hparts, ← hflatten]
    rfl
  · rw [uppers, List.map_append, ← uppers, ← uppers, huppers, huppers']
    rfl

theorem build_stray : ∃ f, FilesBlock.ofParams strayParams = .ok f ∧ uppers f.pairs =
    [(.series, some (-Double.infinity).bits), (.sTable, some Double.infinity.bits)] := by
  obtain ⟨pairs, hpairs, hupper⟩ := pairs_of_stray
  obtain ⟨head, hhead⟩ : ∃ head, ControlHead.ofParams strayParams = .ok head := by
    refine exists_head 0.0 ?_ rfl ?_ <;> decide +kernel
  refine ⟨⟨1, "pest.pst", "pest.ins", [("model.tpl", "model.in")], "groups.txt", "parameters.txt",
    pairs, "model", head⟩, ofParams_eq_ok.mpr ?_, hupper⟩
  obtain ⟨hcontrol, hinstruction, hgroup, hparameter, hcommand⟩ :
      strayParams.text "new_pest_control_file" = .ok "pest.pst" ∧
      strayParams.text "new_instruction_file" = .ok "pest.ins" ∧
      strayParams.text "parameter_group_file" = .ok "groups.txt" ∧
      strayParams.text "parameter_data_file" = .ok "parameters.txt" ∧
      strayParams.joined? "model_command_line" = some "model" := by
    decide +kernel
  exact ⟨by decide +kernel, by decide +kernel, hcontrol, hinstruction, hgroup, hparameter, hpairs,
    hcommand, hhead, rfl, rfl⟩

theorem invocation_of_stray : Catalog.find? strayInvocation.command = some Catalog.writePestFiles :=
  find?_title (b := strayBlock) rfl

/-- No stray bounds of the other family stand before its run, which has its own bounds. -/
theorem pair_of_stray : ∃ f w, FilesBlock.ofParams strayParams = .ok f ∧
    (f.pairs.filter fun w => w.kind = .sTable)[0]? = some w ∧
    WeightedPair.readBounds (some "-inf inf") = .ok (w.lower, w.upper) := by
  obtain ⟨f, hbuild, -⟩ := build_stray
  have hpair := (pair_of_lines blocksOf_stray List.mem_cons_self rfl unroll_stray
    List.mem_cons_self invocation_of_stray resolve_stray hbuild
    (by decide : EntityKind.sTable ∈ WeightedPair.families)).2
  obtain ⟨m, e, behind, w, hrest, -, -, hw, -, hown, -⟩ := hpair (strayLines.take 14)
    ⟨"observation_s_table_name", ["mean"]⟩ (strayLines.drop 15) (by decide +kernel) (by decide)
  have hcount : textsAt (observationKeyword EntityKind.sTable.label) (strayLines.take 14) = [] := by
    decide +kernel
  have hstrays : strays EntityKind.sTable.label (strayLines.take 14) = [] := by decide +kernel
  have hbehind : behind = strayLines.drop 17 := by
    obtain ⟨-, hrest⟩ := List.cons.inj hrest
    obtain ⟨-, hrest⟩ := List.cons.inj hrest
    exact hrest.symm
  have hbounds : boundsBehind EntityKind.sTable.label behind = "-inf inf" := by
    rw [hbehind]
    decide +kernel
  rw [hcount] at hw
  rw [hbounds] at hown
  exact ⟨f, w, hbuild, hw, hown hstrays⟩

/-- The series has the line `-inf inf` behind its equation, but another upper bound. -/
theorem bounds_of_stray : blocksOf strayText = .ok [strayBlock] ∧
    unroll strayBlock = .ok ([strayInvocation], []) ∧
    Params.resolve Catalog.writePestFiles strayInvocation = .ok strayParams ∧
    (strayBlock.body.drop 1).drop 10 = ⟨"observation_series_name", ["flow"]⟩ ::
      ⟨"model_series_name", ["flow"]⟩ :: ⟨"series_weights_equation", ["1"]⟩ ::
      ⟨"series_weights_min_max", ["-inf", "inf"]⟩ :: strayLines.drop 14 ∧
    ∃ f w, FilesBlock.ofParams strayParams = .ok f ∧
      (f.pairs.filter fun w => w.kind = .series)[0]? = some w ∧
      WeightedPair.readBounds (some "-inf inf") ≠ .ok (w.lower, w.upper) := by
  refine ⟨blocksOf_stray, unroll_stray, resolve_stray, by decide +kernel, ?_⟩
  obtain ⟨f, hbuild, hupper⟩ := build_stray
  obtain ⟨w, rest, hpairs, hw, hrest⟩ := List.map_eq_cons_iff.mp hupper
  obtain ⟨w', rest', rfl, hw', hrest'⟩ := List.map_eq_cons_iff.mp hrest
  obtain ⟨hseries, hlow⟩ := Prod.mk.inj hw
  refine ⟨f, w, hbuild, by rw [hpairs, List.filter_cons_of_pos (by simpa using hseries)]; rfl, ?_⟩
  intro hread
  have hown : (WeightedPair.readBounds (some "-inf inf")).toOption.map (fun r =>
      r.2.map Double.bits) = some (some Double.infinity.bits) := by
    decide +kernel
  rw [hread] at hown
  have heq := hlow.symm.trans (Option.some.inj hown)
  exact absurd heq (by decide)

end Hydroseries.Pest
