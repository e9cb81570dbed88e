import Hydroseries.Command.Output
import Hydroseries.Proofs.Report.Cells
import Hydroseries.Proofs.Report.Instructions

/-!
# Reading the values of a report

The lines with a value in a report are those of the values of its entities, in order
(`shown_of_layOut`), and each shows its value in the columns that are noted for it (`ShownOn`). So
following the instructions over the text of the report gives the values back, rounded to the digits
of their forms (`values_found_in_report`), except for volumes that are crowded out
(`volume_not_found`).
-/

namespace Hydroseries.Report

open Record (Format Shows)

variable {st : Store} {dates : DateFormat} {format : SeriesFormat} {kind : EntityKind}
  {name : EntityName}

/-! ## One value -/

/-- A value of an entity under the name of its observation. -/
structure Reported where
  kind : EntityKind
  name : String
  value : Double

/-- What is found in the report shows the value, in the form of its kind. -/
structure Recovers (r : Reported) (found : String × List Char) : Prop where
  name : found.1 = r.name
  shows : Shows (valueWidth r.kind) (valueDigits r.kind) (valueScale r.kind) r.value found.2

theorem valueText_shows {v : Double} (hv : v.isFinite = true) (kind : EntityKind) :
    Shows (valueWidth kind) (valueDigits kind) (valueScale kind) v (valueText kind v).toList :=
  Record.editGeneral_shows (by cases kind <;> decide) (by cases kind <;> decide) hv

/-- Only volumes are written in columns too few for their digits. -/
theorem not_crowded {kind : EntityKind} (hkind : kind ≠ .vTable) (v : Double) :
    ¬ Record.Crowded (valueWidth kind) (valueDigits kind) v := by
  rintro ⟨hwidth, -⟩
  cases kind with
  | vTable => exact hkind rfl
  | _ => exact absurd hwidth (by decide)

/-- The columns of a cell hold the cell, but for blanks at its end. -/
theorem trimChars_cut (front cell rest : List Char) :
    Text.trimChars (cut (front.length + 1, front.length + cell.length)
      (Text.trimBack (front ++ cell ++ rest))) = Text.trimChars cell := by
  have hlength : front.length + cell.length + 1 - (front.length + 1) = cell.length := by omega
  rw [cut, Nat.add_sub_cancel, hlength, Text.trimChars_columns]

/-- A line is that of a value: it is observed under its name, and its columns show it. -/
def ShownOn (r : Reported) (line : Line) : Prop :=
  ∃ columns, line.observation = some ⟨r.name, columns, r.value⟩ ∧
    (r.value.isFinite = true → Recovers r (r.name, cut columns (shownLine line)))

theorem shownOn_of_line {e : Entry} {n : ℕ} {line : Line} (he : IsEntry kind e)
    (h : e.line name n = .ok line) :
    ShownOn ⟨kind, observationName name n, e.value⟩ line := by
  obtain ⟨written, columns, hwritten, hcolumns, rfl⟩ := line_eq_ok.mp h
  obtain ⟨front, rest, htext, hspan⟩ := hasCell_of_isEntry he hwritten
  obtain rfl := Option.some.inj (hcolumns.symm.trans hspan)
  refine ⟨_, rfl, fun hfinite => ⟨rfl, (valueText_shows hfinite kind).congr ?_⟩⟩
  rw [shownLine, htext, trimChars_cut]

/-! ## All values -/

/-- The values of an entity, numbered. -/
def reportedOf (kind : EntityKind) (name : EntityName) (values : List Double) : List Reported :=
  values.zipIdx.map fun (v, n) => ⟨kind, observationName name n, v⟩

/-- The values that a report of some entities is about, in its order. -/
def reported (st : Store) (entities : List (EntityKind × EntityName)) : Outcome (List Reported) := do
  let parts ← (inOrder entities).mapM fun (kind, name) => do
    pure (reportedOf kind name (← valuesOf st kind name))
  pure parts.flatten

/-- The lines with a value. -/
def valued (lines : List Line) : List Line := lines.filter fun line => line.observation.isSome

theorem valued_append (xs ys : List Line) : valued (xs ++ ys) = valued xs ++ valued ys :=
  List.filter_append ..

/-- The lines with a value in a section are those of its values. -/
theorem shown_of_part {heading : List String} {entries : List Entry} {p : Part}
    (hentries : ∀ e ∈ entries, IsEntry kind e) (h : part kind name heading entries = .ok p) :
    List.Forall₂ ShownOn (reportedOf kind name (entries.map Entry.value)) (valued p.lines) := by
  obtain ⟨rows, hrows, rfl⟩ := part_eq_ok.mp h
  have hhead : valued (headLines name heading) = [] :=
    List.filter_eq_nil_iff.mpr fun line hline => by simp [observation_of_headLines hline]
  have hitems : reportedOf kind name (entries.map Entry.value) =
      entries.zipIdx.map fun e => ⟨kind, observationName name e.2, e.1.value⟩ := by
    rw [reportedOf, List.zipIdx_map, List.map_map]
    rfl
  have hmembers : ∀ e ∈ entries.zipIdx, IsEntry kind e.1 := fun e he =>
    hentries e.1 (List.fst_mem_of_mem_zipIdx he)
  rw [valued_append, hhead, List.nil_append, hitems]
  clear hitems h
  generalize entries.zipIdx = numbered at hrows hmembers
  induction hrows with
  | nil => exact .nil
  | cons hrow _ ih =>
    have hshown := shownOn_of_line (hmembers _ List.mem_cons_self) hrow
    obtain ⟨columns, hobserved, -⟩ := id hshown
    rw [List.map_cons, valued, List.filter_cons_of_pos (by simp [hobserved])]
    exact .cons hshown (ih fun e he => hmembers e (List.mem_cons_of_mem _ he))

/-- Lines without a value have nothing to be found. -/
theorem filterMap_valued {β : Type} (f : Line → Observation → β) (lines : List Line) :
    (valued lines).filterMap (fun line => line.observation.map (f line)) =
      lines.filterMap fun line => line.observation.map (f line) := by
  rw [valued, List.filterMap_filter]
  refine List.filterMap_congr fun line _ => ?_
  cases line.observation <;> rfl

section

variable {items : List Reported} {lines : List Line}
  (h : List.Forall₂ ShownOn items (valued lines))

include h

theorem observations_of_shown :
    (lines.filterMap fun line => line.observation.map fun o => (o.name, o.value)) =
      items.map fun r => (r.name, r.value) := by
  rw [← filterMap_valued fun _ o => (o.name, o.value)]
  generalize valued lines = shown at h ⊢
  induction h with
  | nil => rfl
  | cons hshown _ ih =>
    obtain ⟨columns, hobserved, -⟩ := hshown
    rw [List.filterMap_cons_some (by rw [hobserved]; rfl), ih]
    rfl

theorem recovers_of_shown (hfinite : ∀ r ∈ items, r.value.isFinite = true) :
    List.Forall₂ Recovers items (marked lines) := by
  rw [marked, ← filterMap_valued fun line o => (o.name, cut o.columns (shownLine line))]
  generalize valued lines = shown at h ⊢
  induction h with
  | nil => exact .nil
  | cons hshown _ ih =>
    obtain ⟨columns, hobserved, hrecovers⟩ := hshown
    rw [List.filterMap_cons_some (by rw [hobserved]; rfl)]
    exact .cons (hrecovers (hfinite _ List.mem_cons_self))
      (ih fun r hr => hfinite r (List.mem_cons_of_mem _ hr))

end

/-- The lines with a value in a report are those of its values. -/
theorem shown_of_layOut {entities : List (EntityKind × EntityName)} {file : String}
    {listing : Listing} (h : layOut st dates format entities file = .ok listing) :
    ∃ items, reported st entities = .ok items ∧
      List.Forall₂ ShownOn items (valued listing.lines) := by
  obtain ⟨parts, hparts, rfl⟩ := layOut_eq_ok.mp h
  suffices hsections : ∃ sections : List (List Reported),
      List.Forall₂ (fun e items => (do pure (reportedOf e.1 e.2 (← valuesOf st e.1 e.2))) = .ok items)
        (inOrder entities) sections ∧
      List.Forall₂ ShownOn sections.flatten (valued (parts.flatMap Part.lines)) by
    obtain ⟨sections, hreported, hshown⟩ := hsections
    exact ⟨sections.flatten, bind_eq_ok.mpr ⟨sections, mapM_eq_ok.mpr hreported, rfl⟩, hshown⟩
  clear h
  generalize inOrder entities = ordered at hparts ⊢
  induction hparts with
  | nil => exact ⟨[], .nil, .nil⟩
  | cons hpart _ ih =>
    obtain ⟨sections, hreported, hshown⟩ := ih
    obtain ⟨heading, entries, hentity, hvalues, hentries⟩ := entityPart_eq_ok hpart
    refine ⟨_, .cons (bind_eq_ok.mpr ⟨_, hvalues, rfl⟩) hreported, ?_⟩
    rw [List.flatten_cons, List.flatMap_cons, valued_append]
    exact List.rel_append (shown_of_part hentries hentity) hshown

/-- The values of the entities are finite. -/
def FiniteValues (st : Store) (entities : List (EntityKind × EntityName)) : Prop :=
  ∀ e ∈ entities, ∀ values, valuesOf st e.1 e.2 = .ok values → ∀ v ∈ values, v.isFinite = true

theorem isFinite_of_reported {entities : List (EntityKind × EntityName)} {items : List Reported}
    (h : reported st entities = .ok items) (hfinite : FiniteValues st entities) :
    ∀ r ∈ items, r.value.isFinite = true := by
  obtain ⟨sections, hsections, h⟩ := bind_eq_ok.mp h
  obtain rfl := Except.ok.inj h
  intro r hr
  obtain ⟨group, hgroup, hr⟩ := List.mem_flatten.mp hr
  obtain ⟨⟨kind, name⟩, he, h⟩ := mem_of_mapM hsections hgroup
  obtain ⟨values, hvalues, h⟩ := bind_eq_ok.mp h
  obtain rfl := Except.ok.inj h
  obtain ⟨⟨v, n⟩, hv, rfl⟩ := List.mem_map.mp hr
  exact hfinite _ ((inOrder_perm entities).mem_iff.mp he) values hvalues v
    (List.fst_mem_of_mem_zipIdx hv)

/-! ## Reading the report -/

section

variable {entities : List (EntityKind × EntityName)} {file : String} {listing : Listing}
  (h : layOut st dates format entities file = .ok listing)
  (hlines : ∀ line ∈ listing.lines, '\n' ∉ line.text.toList)

include h hlines

/-- Names stand in the titles of sections, so they have no line feeds if the lines have none. -/
theorem lineFeed_not_mem_name : ∀ o ∈ listing.observed, '\n' ∉ o.2.name.toList := by
  intro o ho
  have hobserved : o.2 ∈ listing.lines.filterMap Line.observation := by
    rw [← map_snd_observed]
    exact List.mem_map_of_mem ho
  obtain ⟨line, hline, hobservation⟩ := List.mem_filterMap.mp hobserved
  obtain ⟨parts, hparts, rfl⟩ := layOut_eq_ok.mp h
  obtain ⟨p, hp, hline⟩ := List.mem_flatMap.mp hline
  obtain ⟨⟨kind, name⟩, -, hpart⟩ := mem_of_mapM (mapM_eq_ok.mpr hparts) hp
  obtain ⟨heading, entries, hentity, -⟩ := entityPart_eq_ok hpart
  obtain ⟨rows, hrows, rfl⟩ := part_eq_ok.mp hentity
  have htitle : '\n' ∉ (" " ++ heading.headD "" ++ " \"" ++ name.lower ++ "\" ---->").toList :=
    hlines ⟨_, none⟩ (List.mem_flatMap.mpr
      ⟨_, hp, List.mem_append_left _ (List.mem_cons_of_mem _ List.mem_cons_self)⟩)
  have hname : '\n' ∉ name.lower.toList := fun hmem => htitle (by simp [hmem])
  rcases List.mem_append.mp hline with hhead | hrow
  · rw [observation_of_headLines hhead] at hobservation
    cases hobservation
  · obtain ⟨e, -, hrow⟩ := mem_of_mapM (f := fun e : Entry × ℕ => e.1.line name e.2)
      (mapM_eq_ok.mpr hrows) hrow
    obtain ⟨written, columns, -, -, rfl⟩ := line_eq_ok.mp hrow
    rw [← Option.some.inj hobservation]
    have hdigits : '\n' ∉ Nat.toDigits 10 (e.2 + 1) := fun hmem =>
      absurd (Text.isDigit_of_mem_toDigits hmem) (by decide)
    simp [observationName, hname, hdigits]

end

/-- Following the instructions of a report over its text leads to its values, in their order: each is
found under its name, as a number that is the value rounded to the digits of its form. Only a volume
between minus one and zero that is not written with an exponent has asterisks in its place. -/
theorem values_found_in_report {c : Command.ListOutput} {s : Session} {listing : Listing}
    (h : c.layOut s = .ok listing) (hlines : ∀ line ∈ listing.lines, '\n' ∉ line.text.toList)
    (hfinite : FiniteValues s.store c.entities) :
    ∃ items found, reported s.store c.entities = .ok items ∧
      listing.observed.map (fun o => (o.2.name, o.2.value)) =
        items.map (fun r => (r.name, r.value)) ∧
      follow listing.instructions listing.text = some found ∧
      List.Forall₂ Recovers items found := by
  obtain ⟨items, hitems, hshown⟩ := shown_of_layOut h
  refine ⟨items, marked listing.lines, hitems, ?_,
    follow_instructions listing hlines (lineFeed_not_mem_name h hlines),
    recovers_of_shown hshown (isFinite_of_reported hitems hfinite)⟩
  rw [← observations_of_shown hshown, ← List.map_filterMap, ← map_snd_observed, List.map_map]
  rfl

/-! ## Volumes -/

/-- Rows over two days. -/
def volumeRows (volumes : List Double) : List (VolumeRow Double) :=
  volumes.map fun v => ⟨.ofDate ⟨18262⟩ 0, .ofDate ⟨18264⟩ 0, v⟩

/-- A session with a table of volumes. -/
def volumeSession (volumes : List Double) : Session where
  store := { Store.empty with vTables := ⟨[(⟨"VOL"⟩, ⟨volumeRows volumes, "FLOW"⟩)]⟩ }
  baseDir := ""
  files := .empty

/-- Lists the volumes. -/
def volumeBlock : Command.ListOutput where
  file := "volumes.out"
  format := .long
  entities := [(.vTable, ⟨"VOL"⟩)]

theorem finiteValues_volumeSession {volumes : List Double} (h : ∀ v ∈ volumes, v.isFinite = true) :
    FiniteValues (volumeSession volumes).store volumeBlock.entities := by
  intro e he values hvalues v hv
  obtain rfl := List.mem_singleton.mp he
  have hvolumes : valuesOf (volumeSession volumes).store .vTable ⟨"VOL"⟩ =
      .ok ((volumeRows volumes).map VolumeRow.volume) := rfl
  obtain rfl := Except.ok.inj (hvolumes.symm.trans hvalues)
  rw [volumeRows, List.map_map, List.mem_map] at hv
  obtain ⟨v, hmem, rfl⟩ := hv
  exact h v hmem

theorem layOut_volumes : ∃ listing, volumeBlock.layOut (volumeSession [12.75, -0.5]) = .ok listing ∧
    (∀ line ∈ listing.lines, '\n' ∉ line.text.toList) ∧
    marked listing.lines =
      [("vol1", " 12.7500000000".toList), ("vol2", "**************".toList)] := by
  have hlaid : (volumeBlock.layOut (volumeSession [12.75, -0.5])).toOption.map (fun l =>
      (decide (∀ line ∈ l.lines, '\n' ∉ line.text.toList), marked l.lines)) =
      some (true, [("vol1", " 12.7500000000".toList), ("vol2", "**************".toList)]) := by
    decide +kernel
  obtain ⟨listing, hlayout, hread⟩ := ok_of_toOption_map hlaid
  obtain ⟨hlines, hmarked⟩ := Prod.mk.inj hread
  exact ⟨listing, hlayout, of_decide_eq_true hlines, hmarked⟩

theorem finiteValues_volumes :
    FiniteValues (volumeSession [12.75, -0.5]).store volumeBlock.entities :=
  finiteValues_volumeSession (by decide +kernel)

theorem values_found_of_volumes : ∃ listing items found,
    volumeBlock.layOut (volumeSession [12.75, -0.5]) = .ok listing ∧
      (∀ line ∈ listing.lines, '\n' ∉ line.text.toList) ∧
      FiniteValues (volumeSession [12.75, -0.5]).store volumeBlock.entities ∧
      reported (volumeSession [12.75, -0.5]).store volumeBlock.entities = .ok items ∧
      follow listing.instructions listing.text = some found ∧ List.Forall₂ Recovers items found := by
  obtain ⟨listing, hlayout, hlines, -⟩ := layOut_volumes
  obtain ⟨items, found, hitems, -, hfollow, hrecovers⟩ :=
    values_found_in_report hlayout hlines finiteValues_volumes
  exact ⟨listing, items, found, hlayout, hlines, finiteValues_volumes, hitems, hfollow, hrecovers⟩

/-- Where half a unit of volume is lost, the report has no number. -/
theorem volume_not_found : FiniteValues (volumeSession [12.75, -0.5]).store volumeBlock.entities ∧
    ∃ listing found cell, volumeBlock.layOut (volumeSession [12.75, -0.5]) = .ok listing ∧
      follow listing.instructions listing.text = some found ∧ ("vol2", cell) ∈ found ∧
      Record.readReal? cell = none := by
  obtain ⟨listing, hlayout, hlines, hmarked⟩ := layOut_volumes
  have hfollow := follow_instructions listing hlines (lineFeed_not_mem_name hlayout hlines)
  refine ⟨finiteValues_volumes, listing, _, "**************".toList, hlayout, hfollow, ?_, by decide⟩
  rw [hmarked]
  simp

end Hydroseries.Report
