import Hydroseries.Proofs.Report.Names
import Hydroseries.Proofs.Report.Recovery

/-!
# Numbers of values

A report and the observation data of a calibration must agree on which value of an entity is the first
one, which the second, and so on, for the data pairs observed values with modelled ones by position
only. The section of an entity has the values of the entity in report order and nothing else
(`Numbers`, `numbers_of_layOut`), so both number the same values (`values_numbered_in_report`).
-/

namespace Hydroseries.Report

open Pest (WeightedPair)

variable {st : Store} {dates : DateFormat} {format : SeriesFormat} {kind : EntityKind}
  {name : EntityName} {values : List Double} {listing : Listing}

/-- The observations that stand on some lines. -/
def observationsOn (lines : List Line) : List Observation := lines.filterMap Line.observation

/-- The lines of a section number the values: the values are those of its observations, in order, and
the `n`-th of them is named by the entity with `n` behind it. -/
structure Numbers (e : Section) (values : List Double) (lines : List Line) : Prop where
  shown : (observationsOn lines).map Observation.value = values
  names : (observationsOn lines).map Observation.name = rowNames e.name values.length
  listed : e.observations = rowNames e.name values.length

/-! ## One section -/

theorem names_of_reportedOf (kind : EntityKind) (name : EntityName) (values : List Double) :
    (reportedOf kind name values).map Reported.name = rowNames name values.length := by
  rw [reportedOf, List.map_map, rowNames, List.range_eq_range', ← List.zipIdx_map_snd 0 values,
    List.map_map]
  rfl

theorem values_of_reportedOf (kind : EntityKind) (name : EntityName) (values : List Double) :
    (reportedOf kind name values).map Reported.value = values := by
  rw [reportedOf, List.map_map]
  exact List.zipIdx_map_fst 0 values

theorem numbers_of_entityPart {p : Part} (h : entityPart st dates format kind name = .ok p) :
    ∃ values, valuesOf st kind name = .ok values ∧ Numbers p.sectionOf values p.lines := by
  obtain ⟨heading, entries, hpart, hvalues, hentries⟩ := entityPart_eq_ok h
  have hshown := observations_of_shown (shown_of_part hentries hpart)
  have hobserved : (observationsOn p.lines).map (fun o => (o.name, o.value)) =
      (reportedOf kind name (entries.map Entry.value)).map fun r => (r.name, r.value) := by
    rw [← hshown, observationsOn, List.map_filterMap]
  have hnames := congrArg (List.map Prod.fst) hobserved
  have hobservedValues := congrArg (List.map Prod.snd) hobserved
  rw [List.map_map, List.map_map] at hnames hobservedValues
  obtain ⟨rows, -, rfl⟩ := part_eq_ok.mp hpart
  refine ⟨_, hvalues, ?_, ?_, ?_⟩
  · exact hobservedValues.trans (values_of_reportedOf kind name _)
  · exact hnames.trans (names_of_reportedOf kind name _)
  · rw [List.length_map]
    rfl

/-! ## The whole report -/

/-- The lines of a report are those of its sections, and each section numbers the values of its
entity. -/
theorem numbers_of_layOut {entities : List (EntityKind × EntityName)} {file : String}
    (h : layOut st dates format entities file = .ok listing) :
    ∃ chunks : List (List Line), listing.lines = chunks.flatten ∧
      List.Forall₂ (fun e lines => ∃ values, valuesOf st e.kind e.name = .ok values ∧
        Numbers e values lines) listing.entities chunks := by
  obtain ⟨parts, hparts, rfl⟩ := layOut_eq_ok.mp h
  refine ⟨parts.map Part.lines, (List.flatMap_def ..), ?_⟩
  rw [List.forall₂_map_left_iff, List.forall₂_map_right_iff, List.forall₂_same]
  intro p hp
  obtain ⟨⟨kind, name⟩, -, hpart⟩ := mem_of_mapM (mapM_eq_ok.mpr hparts) hp
  obtain ⟨values, hvalues, hnumbers⟩ := numbers_of_entityPart hpart
  obtain ⟨heading, entries, hentity, -⟩ := entityPart_eq_ok hpart
  obtain ⟨rows, -, rfl⟩ := part_eq_ok.mp hentity
  exact ⟨values, hvalues, hnumbers⟩

/-- Every listed entity is found in the report with the names of its values. -/
theorem observationsOf?_of_layOut {entities : List (EntityKind × EntityName)} {file : String}
    (h : layOut st dates format entities file = .ok listing) (hlisted : (kind, name) ∈ entities) :
    ∃ values, valuesOf st kind name = .ok values ∧
      listing.observationsOf? kind name = some (rowNames name values.length) := by
  have hmem : (kind, name) ∈ listing.entities.map fun e => (e.kind, e.name) := by
    rw [keys_of_layOut h]
    exact (inOrder_perm entities).mem_iff.mpr hlisted
  obtain ⟨e, he, hkey⟩ := List.mem_map.mp hmem
  obtain ⟨hkind, hname⟩ := Prod.mk.inj hkey
  -- Of several sections of an entity the first is looked up; all have the same names.
  cases hfind : listing.entities.find? fun e => e.kind = kind ∧ e.name = name with
  | none => exact absurd (List.find?_eq_none.mp hfind e he) (by simp [hkind, hname])
  | some e' =>
    have hkey' := List.find?_some hfind
    simp only [decide_eq_true_eq] at hkey'
    obtain ⟨values, hvalues, hnames⟩ := section_of_layOut h (List.mem_of_find?_eq_some hfind)
    rw [hkey'.1, hkey'.2] at hvalues
    refine ⟨values, hvalues, ?_⟩
    rw [Listing.observationsOf?, hfind, Option.map_some, hnames, hkey'.2]
    rfl

/-! ## Report and observation data -/

/-- A report numbers the values of each entity as they are given in report order: its section stands
on lines of its own, whose observations have just these values and are named by the entity in lower
case with one, two and so on behind it, and under these names the entity is found in the report. So
the data lines of a calibration give the observed values, in report order as well, to the modelled
values of the same numbers. -/
theorem values_numbered_in_report {c : Command.ListOutput} {s : Session}
    (h : c.layOut s = .ok listing) :
    (listing.entities.map fun e => (e.kind, e.name)).Perm c.entities ∧
    (∃ chunks : List (List Line), listing.lines = chunks.flatten ∧
      List.Forall₂ (fun e lines => ∃ values, valuesOf s.store e.kind e.name = .ok values ∧
        (lines.filterMap Line.observation).map Observation.value = values ∧
        (lines.filterMap Line.observation).map Observation.name =
          (List.range values.length).map (fun n => e.name.lower ++ toString (n + 1)) ∧
        e.observations = (List.range values.length).map fun n => e.name.lower ++ toString (n + 1))
        listing.entities chunks) ∧
    (∀ kind name, (kind, name) ∈ c.entities → ∃ values, valuesOf s.store kind name = .ok values ∧
      listing.observationsOf? kind name =
        some ((List.range values.length).map fun n => name.lower ++ toString (n + 1))) ∧
    ∀ (st : Store) (w : WeightedPair) (lines : List String),
      w.observationLines st listing = .ok lines →
      ∃ modelled observed, valuesOf s.store w.kind w.model = .ok modelled ∧
        valuesOf st w.kind w.observation = .ok observed ∧ observed.length = modelled.length ∧
        List.Forall₂ (fun nv line => ∃ weight, line = WeightedPair.observationLine
          (w.model.lower ++ toString (nv.2 + 1)) nv.1 weight w.model.lower) observed.zipIdx lines := by
  refine ⟨?_, ?_, fun kind name hlisted => observationsOf?_of_layOut h hlisted, ?_⟩
  · rw [keys_of_layOut h]
    exact inOrder_perm _
  · obtain ⟨chunks, hlines, hsections⟩ := numbers_of_layOut h
    refine ⟨chunks, hlines, hsections.imp ?_⟩
    rintro e lines ⟨values, hvalues, hnumbers⟩
    exact ⟨values, hvalues, hnumbers.shown, hnumbers.names, hnumbers.listed⟩
  · intro st w lines hlines
    obtain ⟨names, observed, hnames, hobserved, hlength, hdata⟩ := observationLines_eq_ok hlines
    obtain ⟨e, he, hkey, rfl⟩ := observationsOf?_eq_some hnames
    obtain ⟨hkind, hname⟩ := Prod.mk.inj hkey
    have hlisted : (w.kind, w.model) ∈ c.entities := by
      rw [← (inOrder_perm _).mem_iff, ← keys_of_layOut h, ← hkey]
      exact List.mem_map_of_mem he
    obtain ⟨modelled, hmodelled, hrows⟩ := observationsOf?_of_layOut h hlisted
    obtain hrows := Option.some.inj (hnames.symm.trans hrows)
    have hcount : observed.length = modelled.length := by
      rw [hlength, hrows, rowNames, List.length_map, List.length_range]
    refine ⟨modelled, observed, hmodelled, hobserved, hcount, ?_⟩
    have hzip : e.observations.zip observed =
        observed.zipIdx.map fun nv => (w.model.lower ++ toString (nv.2 + 1), nv.1) := by
      rw [hrows, ← hcount, rowNames, List.zipIdx_eq_zip_range', List.zip_map_left,
        ← List.range_eq_range', ← List.zip_swap observed, List.map_map]
      rfl
    rw [hzip, List.forall₂_map_left_iff] at hdata
    exact hdata

/-! ## Indices of hydrology -/

/-- A table of two indices, stored in the alphabetical order of their labels. -/
def indexTable : GTable where
  rows := [(.label "MA12", 12.0), (.label "MA2", 2.0)]
  sourceName := "FLOW"
  kind := .hydrologicIndices
  start := .ofDate ⟨18262⟩ 0
  finish := .ofDate ⟨18628⟩ 0

def indexSession : Session where
  store := { Store.empty with gTables := ⟨[(⟨"IDX"⟩, indexTable)]⟩ }
  baseDir := ""
  files := .empty

/-- Lists the indices. -/
def indexBlock : Command.ListOutput where
  file := "indices.out"
  format := .long
  entities := [(.gTable, ⟨"IDX"⟩)]

/-- The index of two months comes before that of twelve. -/
theorem rowsOf_indexTable : rowsOf indexTable = [(.label "MA2", 2.0), (.label "MA12", 12.0)] := by
  have hlabels : naturalLe (naturalKey "MA12") (naturalKey "MA2") = false := by decide +kernel
  show List.mergeSort [(GKey.label "MA12", 12.0), (GKey.label "MA2", 2.0)]
    (fun a b => naturalLe (naturalKey a.1.text) (naturalKey b.1.text)) = _
  simp [List.mergeSort, List.MergeSort.Internal.splitInTwo, GKey.text, hlabels]

theorem valuesOf_indices : valuesOf indexSession.store .gTable ⟨"IDX"⟩ = .ok [2.0, 12.0] := by
  show Except.ok ((rowsOf indexTable).map Prod.snd) = _
  rw [rowsOf_indexTable]
  rfl

theorem layOut_indices : ∃ listing, indexBlock.layOut indexSession = .ok listing := by
  have htable : Store.lookup .gTable indexSession.store.gTables ⟨"IDX"⟩ = .ok indexTable := rfl
  obtain ⟨p, hp⟩ : ∃ p, gTablePart indexSession.store ⟨"IDX"⟩ = .ok p := by
    apply ok_of_isSome
    simp only [gTablePart, htable, bind, Except.bind, rowsOf_indexTable]
    decide +kernel
  exact ⟨_, layOut_eq_ok.mpr ⟨[p], .cons hp .nil, rfl⟩⟩

theorem values_numbered_of_indices : ∃ listing, indexBlock.layOut indexSession = .ok listing ∧
    valuesOf indexSession.store .gTable ⟨"IDX"⟩ = .ok [2.0, 12.0] ∧
    listing.observationsOf? .gTable ⟨"IDX"⟩ = some ["idx1", "idx2"] := by
  obtain ⟨listing, hlayout⟩ := layOut_indices
  obtain ⟨-, -, hlisted, -⟩ := values_numbered_in_report hlayout
  obtain ⟨values, hvalues, hnames⟩ := hlisted .gTable ⟨"IDX"⟩ (by decide)
  obtain rfl := Except.ok.inj (valuesOf_indices.symm.trans hvalues)
  exact ⟨listing, hlayout, hvalues, hnames⟩

end Hydroseries.Report
