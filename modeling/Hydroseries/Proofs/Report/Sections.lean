import Hydroseries.Proofs.Outcome
import Hydroseries.Report.Layout
import Mathlib.Data.List.Perm.Basic

/-!
# Sections of a report

A report that is laid out has one section for each entity that it lists (`layOut_eq_ok`), in the
order of the kinds. The section of an entity has some lines without values, and then one line for
each value of the entity, in order (`entityPart_eq_ok`, `part_eq_ok`). So the observations of a
report, read from top to bottom, are those of its sections (`names_of_layOut`).
-/

namespace Hydroseries.Report

open Record (Format)

variable {st : Store} {dates : DateFormat} {format : SeriesFormat} {kind : EntityKind}
  {name : EntityName} {heading : List String} {entries : List Entry} {p : Part}

/-! ## Lines -/

/-- The line of a value is its record, observed where its field stands. -/
theorem line_eq_ok {e : Entry} {n : Nat} {line : Line} :
    e.line name n = .ok line ↔ ∃ written columns, Format.write e.format e.fields = .ok written ∧
      written.spans[e.position]? = some columns ∧
      line = ⟨written.text, some ⟨observationName name n, columns, e.value⟩⟩ := by
  rw [Entry.line, bind_eq_ok]
  constructor
  · rintro ⟨written, hwritten, hline⟩
    split at hline
    next columns hcolumns =>
      exact ⟨written, columns, hwritten, hcolumns, (Except.ok.inj hline).symm⟩
    next => cases hline
  · rintro ⟨written, columns, hwritten, hcolumns, rfl⟩
    refine ⟨written, hwritten, ?_⟩
    rw [hcolumns]
    rfl

/-- The lines of a section that stand over its values. -/
def headLines (name : EntityName) (heading : List String) : List Line :=
  ("" :: (" " ++ heading.headD "" ++ " \"" ++ name.lower ++ "\" ---->") :: heading.drop 1).map
    fun text => { text }

theorem observation_of_headLines {line : Line} (h : line ∈ headLines name heading) :
    line.observation = none := by
  obtain ⟨text, -, rfl⟩ := List.mem_map.mp h
  rfl

/-! ## One section -/

/-- A section is laid out if all its values are. -/
theorem part_eq_ok : part kind name heading entries = .ok p ↔
    ∃ rows, List.Forall₂ (fun e row => Entry.line e.1 name e.2 = .ok row) entries.zipIdx rows ∧
      p = ⟨headLines name heading ++ rows,
        ⟨kind, name, (List.range entries.length).map (observationName name)⟩⟩ := by
  simp only [part, bind_eq_ok, mapM_eq_ok, pure, Except.pure, Except.ok.injEq]
  constructor
  · rintro ⟨rows, hrows, rfl⟩
    exact ⟨rows, hrows, rfl⟩
  · rintro ⟨rows, hrows, rfl⟩
    exact ⟨rows, hrows, rfl⟩

/-- The names in the lines of a section are those that are listed for it. -/
theorem names_of_part (h : part kind name heading entries = .ok p) :
    (p.lines.filterMap Line.observation).map Observation.name = p.sectionOf.observations := by
  obtain ⟨rows, hrows, rfl⟩ := part_eq_ok.mp h
  have hhead : (headLines name heading).filterMap Line.observation = [] :=
    List.filterMap_eq_nil_iff.mpr fun line => observation_of_headLines
  have hnames : ∀ {es : List (Entry × Nat)} {rows : List Line},
      List.Forall₂ (fun e row => Entry.line e.1 name e.2 = .ok row) es rows →
      (rows.filterMap Line.observation).map Observation.name =
        es.map fun e => observationName name e.2 := by
    intro es rows hrows
    induction hrows with
    | nil => rfl
    | cons hrow _ ih =>
      obtain ⟨written, columns, -, -, rfl⟩ := line_eq_ok.mp hrow
      rw [List.filterMap_cons_some (by rfl), List.map_cons, List.map_cons, ih]
  have hcount : entries.zipIdx.map Prod.snd = List.range entries.length := by
    rw [List.zipIdx_map_snd, List.range_eq_range']
  rw [List.filterMap_append, hhead, List.nil_append, hnames hrows, ← hcount, List.map_map]
  rfl

/-! ## The values of an entity -/

/-- The records of the values of an entity. -/
inductive IsEntry : EntityKind → Entry → Prop
  | dated (label date time : String) (v : Double) :
    IsEntry .series ⟨datedRow, [.text label, .text date, .text time, .number v], 3, v⟩
  | plain (v : Double) : IsEntry .series ⟨plainRow, [.number v], 0, v⟩
  | statistic {kind : EntityKind} (hkind : kind = .sTable ∨ kind = .cTable) (label : String)
    (v : Double) : IsEntry kind ⟨statisticRow, [.text label, .number v], 1, v⟩
  | volume (start startTime finish finishTime : String) (v : Double) :
    IsEntry .vTable ⟨volumeRow,
      [.text start, .text startTime, .text finish, .text finishTime, .number v], 4, v⟩
  | exceedance (r : ExceedanceRow Double) : IsEntry .eTable (exceedanceEntry r)
  | general (label : String) (v : Double) :
    IsEntry .gTable ⟨generalRow, [.text label, .number v], 1, v⟩

theorem isEntry_of_seriesEntry {daily : Bool} {t : Timestamp} {v : Double} {e : Entry}
    (h : seriesEntry dates format name daily t v = .ok e) : IsEntry .series e ∧ e.value = v := by
  cases format with
  | short =>
    rw [← Except.ok.inj h]
    exact ⟨.plain v, rfl⟩
  | long | ssf =>
    obtain ⟨date, -, he⟩ := bind_eq_ok.mp h
    rw [← Except.ok.inj he]
    exact ⟨.dated _ date _ v, rfl⟩

theorem isEntry_of_volumeEntry {r : VolumeRow Double} {e : Entry}
    (h : volumeEntry dates r = .ok e) : IsEntry .vTable e ∧ e.value = r.volume := by
  obtain ⟨start, -, h⟩ := bind_eq_ok.mp h
  obtain ⟨finish, -, h⟩ := bind_eq_ok.mp h
  rw [← Except.ok.inj h]
  exact ⟨.volume start _ finish _ r.volume, rfl⟩

/-- Entries that are made one by one have the records and the values that they are made of. -/
theorem entries_of_mapM {α : Type} {f : α → Outcome Entry} {value : α → Double} {xs : List α}
    (hentry : ∀ {x e}, f x = .ok e → IsEntry kind e ∧ e.value = value x)
    (h : xs.mapM f = .ok entries) :
    (∀ e ∈ entries, IsEntry kind e) ∧ entries.map Entry.value = xs.map value := by
  have hall := mapM_eq_ok.mp h
  clear h
  induction hall with
  | nil => exact ⟨nofun, rfl⟩
  | cons hx _ ih =>
    obtain ⟨hrecord, hvalue⟩ := hentry hx
    rw [List.map_cons, List.map_cons, hvalue, ih.2]
    exact ⟨List.forall_mem_cons.mpr ⟨hrecord, ih.1⟩, rfl⟩

theorem map_snd_valid (s : Series) : s.valid.map Prod.snd = s.validValues := by
  obtain ⟨points⟩ := s
  simp only [TimeSeries.valid, TimeSeries.validValues, List.map_filterMap]
  congr 1
  funext ⟨t, o⟩
  cases o <;> rfl

/-- The section of an entity reports its values in their order, in the records of its kind. -/
theorem entityPart_eq_ok (h : entityPart st dates format kind name = .ok p) :
    ∃ heading entries, part kind name heading entries = .ok p ∧
      valuesOf st kind name = .ok (entries.map Entry.value) ∧ ∀ e ∈ entries, IsEntry kind e := by
  cases kind with
  | series =>
    obtain ⟨s, hs, h⟩ := bind_eq_ok.mp h
    obtain ⟨entries, hentries, h⟩ := bind_eq_ok.mp h
    obtain ⟨hrecords, hvalues⟩ := entries_of_mapM (fun h => isEntry_of_seriesEntry h) hentries
    refine ⟨_, entries, h, ?_, hrecords⟩
    rw [hvalues]
    show (st.getSeries name >>= fun s => pure s.validValues) = _
    rw [hs, map_snd_valid s]
    rfl
  | sTable | cTable =>
    obtain ⟨t, ht, h⟩ := bind_eq_ok.mp h
    obtain ⟨start, -, h⟩ := bind_eq_ok.mp h
    obtain ⟨finish, -, h⟩ := bind_eq_ok.mp h
    refine ⟨_, _, h, ?_, fun e he => ?_⟩
    · simp only [valuesOf, ht, statisticEntries, List.map_map]
      rfl
    · obtain ⟨⟨label, v⟩, -, rfl⟩ := List.mem_map.mp he
      exact .statistic (by simp) label v
  | vTable =>
    obtain ⟨t, ht, h⟩ := bind_eq_ok.mp h
    obtain ⟨entries, hentries, h⟩ := bind_eq_ok.mp h
    obtain ⟨hrecords, hvalues⟩ := entries_of_mapM (fun h => isEntry_of_volumeEntry h) hentries
    refine ⟨_, entries, h, ?_, hrecords⟩
    rw [hvalues]
    simp only [valuesOf, ht]
    rfl
  | eTable =>
    obtain ⟨t, ht, h⟩ := bind_eq_ok.mp h
    obtain ⟨header, -, h⟩ := bind_eq_ok.mp h
    refine ⟨_, _, h, ?_, fun e he => ?_⟩
    · simp only [valuesOf, ht, List.map_map]
      rfl
    · obtain ⟨r, -, rfl⟩ := List.mem_map.mp he
      exact .exceedance r
  | gTable =>
    obtain ⟨t, ht, h⟩ := bind_eq_ok.mp h
    obtain ⟨header, -, h⟩ := bind_eq_ok.mp h
    refine ⟨_, _, h, ?_, fun e he => ?_⟩
    · simp only [valuesOf, ht, List.map_map]
      rfl
    · obtain ⟨⟨key, v⟩, -, rfl⟩ := List.mem_map.mp he
      exact .general _ v

/-! ## The whole report -/

/-- Entities in the order of the report: by kind, and within a kind as they are given. -/
def inOrder (entities : List (EntityKind × EntityName)) : List (EntityKind × EntityName) :=
  kindOrder.flatMap fun kind => entities.filter fun e => e.1 = kind

theorem inOrder_perm (entities : List (EntityKind × EntityName)) :
    (inOrder entities).Perm entities := by
  rw [List.perm_iff_count]
  rintro ⟨kind, name⟩
  have hcount : ∀ k : EntityKind, (entities.filter fun e => e.1 = k).count (kind, name) =
      if kind = k then entities.count (kind, name) else 0 := by
    intro k
    split
    next hk => exact List.count_filter (by simpa using hk)
    next hk => exact List.count_eq_zero.mpr fun hmem => hk (by simpa using (List.mem_filter.mp hmem).2)
  simp only [inOrder, kindOrder, List.flatMap_cons, List.flatMap_nil, List.count_append,
    List.count_nil, hcount]
  cases kind <;> simp

/-- A report is laid out if all its sections are. -/
theorem layOut_eq_ok {entities : List (EntityKind × EntityName)} {file : String}
    {listing : Listing} : layOut st dates format entities file = .ok listing ↔
      ∃ parts, List.Forall₂ (fun e p => entityPart st dates format e.1 e.2 = .ok p)
        (inOrder entities) parts ∧
        listing = ⟨file, parts.flatMap Part.lines, parts.map Part.sectionOf⟩ := by
  simp only [layOut, bind_eq_ok, mapM_eq_ok, pure, Except.pure, Except.ok.injEq]
  constructor
  · rintro ⟨parts, hparts, rfl⟩
    exact ⟨parts, hparts, rfl⟩
  · rintro ⟨parts, hparts, rfl⟩
    exact ⟨parts, hparts, rfl⟩

/-- The observations with their lines, without the lines. -/
theorem map_snd_observed (l : Listing) :
    l.observed.map Prod.snd = l.lines.filterMap Line.observation := by
  obtain ⟨file, lines, entities⟩ := l
  simp only [Listing.observed]
  generalize 1 = n
  induction lines generalizing n with
  | nil => rfl
  | cons line lines ih =>
    obtain ⟨text, _ | o⟩ := line
    · simpa [List.zipIdx_cons] using ih (n + 1)
    · simpa [List.zipIdx_cons] using ih (n + 1)

section

variable {entities : List (EntityKind × EntityName)} {file : String} {listing : Listing}
  (h : layOut st dates format entities file = .ok listing)

include h

/-- There is one section for each listed entity. -/
theorem keys_of_layOut : listing.entities.map (fun e => (e.kind, e.name)) = inOrder entities := by
  obtain ⟨parts, hparts, rfl⟩ := layOut_eq_ok.mp h
  clear h
  generalize inOrder entities = ordered at hparts
  induction hparts with
  | nil => rfl
  | cons hpart _ ih =>
    obtain ⟨heading, entries, hentity, -⟩ := entityPart_eq_ok hpart
    obtain ⟨rows, -, rfl⟩ := part_eq_ok.mp hentity
    rw [List.map_cons, List.map_cons, ih]

/-- The observations of a section are those of the values of its entity, by number. -/
theorem section_of_layOut {e : Section} (he : e ∈ listing.entities) :
    ∃ values, valuesOf st e.kind e.name = .ok values ∧
      e.observations = (List.range values.length).map (observationName e.name) := by
  obtain ⟨parts, hparts, rfl⟩ := layOut_eq_ok.mp h
  obtain ⟨p, hp, rfl⟩ := List.mem_map.mp he
  obtain ⟨⟨kind, name⟩, -, hpart⟩ := mem_of_mapM (mapM_eq_ok.mpr hparts) hp
  obtain ⟨heading, entries, hentity, hvalues, -⟩ := entityPart_eq_ok hpart
  obtain ⟨rows, -, rfl⟩ := part_eq_ok.mp hentity
  exact ⟨_, hvalues, by rw [List.length_map]⟩

/-- The names of a report, from top to bottom, are those of its sections. -/
theorem names_of_layOut : (listing.observed.map fun o => o.2.name) =
    listing.entities.flatMap Section.observations := by
  obtain ⟨parts, hparts, rfl⟩ := layOut_eq_ok.mp h
  have hnames : ∀ p ∈ parts,
      (p.lines.filterMap Line.observation).map Observation.name = p.sectionOf.observations := by
    intro p hp
    obtain ⟨e, -, hpart⟩ := mem_of_mapM (mapM_eq_ok.mpr hparts) hp
    obtain ⟨heading, entries, hentity, -⟩ := entityPart_eq_ok hpart
    exact names_of_part hentity
  show (Listing.observed _).map (Observation.name ∘ Prod.snd) = _
  rw [← List.map_map, map_snd_observed, List.filterMap_flatMap, List.map_flatMap, List.flatMap_map]
  exact List.flatMap_congr hnames

end

end Hydroseries.Report
