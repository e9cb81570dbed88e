import Hydroseries.Proofs.Store.Aligned
import Mathlib.Logic.Function.Basic

/-!
# What a store remembers of its history

A history is any sequence of calls, failed ones included, from the empty store, together with the
series that was last joined under each name. In the store that it leads to, every recorded series
has one column, in the frame of its frequency, and reading it gives the values of the series that
was last joined under its name, regularized (`columns_and_values_of_history`).
-/

namespace Hydroseries.Store

variable {st st' : Store} {name other : EntityName} {s : Series}
  {last : EntityName → Option Series} {names : List EntityName} {js : List (EntityName × Series)}

/-! ## Histories -/

/-- The series last joined under each name, after some more were joined. -/
def lastJoined (last : EntityName → Option Series) (js : List (EntityName × Series)) :
    EntityName → Option Series :=
  js.foldl (fun last j => Function.update last j.1 (some j.2)) last

/-- The stores that calls lead to, with the series last joined under each name. -/
inductive History : Store → (EntityName → Option Series) → Prop
  | empty : History empty fun _ => none
  | call {st : Store} {last : EntityName → Option Series} (c : Call) : History st last →
      c.WellFormed → History (c.after st) (lastJoined last (c.joined st).toList)

/-- A history keeps what holds of the empty store and along chains of changes. -/
theorem History.aligned (h : History st last) : st.Aligned := by
  induction h with
  | empty => exact aligned_empty
  | call c _ hc ih => exact aligned_of_changes (changes_of_call hc _) ih

/-! ## The values of a series -/

/-- The column of a name has the values of a series, regularized, and the record is that of it. -/
def Keeps (st : Store) (name : EntityName) (s : Series) : Prop :=
  Increasing s.index ∧ ∃ r regular ps, Filing s r regular ∧ st.series.find? name = some r ∧
    st.points? r.frequency.code name = some ps ∧ TimeSeries.valid ⟨ps⟩ = regular.valid

/-- A series that was just joined is kept. -/
theorem keeps_of_join (hst : st.Aligned) (hs : Increasing s.index)
    (hjoin : st.joinSeries name s = .ok st') : st'.Keeps name s := by
  obtain ⟨-, r, regular, hfiling, rfl⟩ := joinSeries_eq_ok.mp hjoin
  have hregular := hfiling.increasing hs
  refine ⟨hs, r, regular, (regular.spread (st.wideIndex r.frequency.code regular)).points, hfiling,
    ?_, ?_, ?_⟩
  · rw [find?_series_filed, if_pos rfl]
  · rw [points?_filed (hst.frameOf _) hregular, if_pos rfl, if_pos rfl]
  · refine TimeSeries.valid_spread hregular (hst.wideIndex hregular _) fun p hp => ?_
    exact Frame.mem_wide.mpr (.inr (regular.valid_map_fst_sublist.mem (List.mem_map_of_mem hp)))

/-- Changes of other series keep a series. -/
theorem Keeps.of_changes (hk : st.Keeps name s) (hst : st.Aligned) (h : Changes names st js st')
    (hname : name ∉ names) : st'.Keeps name s := by
  obtain ⟨hs, r, regular, ps, hfiling, hr, hps, hvalid⟩ := hk
  obtain ⟨index, hpoints, hi, hmem⟩ := points?_of_changes h hst hname hps
  refine ⟨hs, r, regular, _, hfiling, by rw [h.find?_series hname, hr], hpoints, ?_⟩
  rw [← hvalid]
  refine TimeSeries.valid_spread (hst.increasing_points? hps) hi fun p hp =>
    (hmem p.1).mpr (.inl ?_)
  exact (TimeSeries.valid_map_fst_sublist ⟨ps⟩).mem (List.mem_map_of_mem hp)

/-- A series that is joined takes a free name, so it is not that of a series that is kept. -/
theorem Keeps.of_join (hk : st.Keeps name s) (hst : st.Aligned) {new : Series}
    (hnew : Increasing new.index) (hjoin : st.joinSeries other new = .ok st') :
    st'.Keeps name s := by
  have hname : name ≠ other := by
    rintro rfl
    obtain ⟨-, r, -, -, -, hr, -⟩ := hk
    cases (joinSeries_eq_ok.mp hjoin).1.symm.trans hr
  exact hk.of_changes hst (Changes.refl.join (List.mem_singleton.mpr rfl) hnew hjoin)
    (by rwa [List.mem_singleton])

/-- What is read of a series that is kept has the values that were filed. -/
theorem Keeps.read (hk : st.Keeps name s) (hst : st.Aligned) :
    ∃ r regular a, st.series.find? name = some r ∧ Filing s r regular ∧
      st.getSeries name = .ok a ∧ a.valid = regular.valid := by
  obtain ⟨hs, r, regular, ps, hfiling, hr, hps, hvalid⟩ := hk
  refine ⟨r, regular, r.cut ps, hr, hfiling, hst.getSeries hr hps, ?_⟩
  rw [SeriesRecord.valid_cut (hst.increasing_points? hps), hvalid]
  intro t v hmem
  have hregular : (t, v) ∈ regular.valid := hvalid ▸ TimeSeries.mem_valid.mpr hmem
  exact hfiling.bounds hs t (TimeSeries.mem_index.mpr ⟨some v, TimeSeries.mem_valid.mp hregular⟩)

theorem Keeps.getSeries (hk : st.Keeps name s) (hst : st.Aligned) :
    ∃ regular a, s.trimmed.regularized s.trimmed.frequency = .ok regular ∧
      st.getSeries name = .ok a ∧ a.valid = regular.valid := by
  obtain ⟨r, regular, a, -, hfiling, ha, hread⟩ := hk.read hst
  exact ⟨regular, a, hfiling.regular, ha, hread⟩

/-- Every recorded series is kept as it was last joined. -/
def Tracks (st : Store) (last : EntityName → Option Series) : Prop :=
  ∀ name r, st.series.find? name = some r → ∃ s, last name = some s ∧ st.Keeps name s

/-- Changes of other series keep what a record is tracked to. -/
theorem Tracks.of_unnamed (ht : st.Tracks last) (hst : st.Aligned) (h : Changes names st js st')
    (hname : name ∉ names) {r : SeriesRecord} (hr : st'.series.find? name = some r) :
    ∃ s, last name = some s ∧ st'.Keeps name s := by
  rw [h.find?_series hname] at hr
  obtain ⟨s, hs, hk⟩ := ht name r hr
  exact ⟨s, hs, hk.of_changes hst h hname⟩

theorem Tracks.of_changes (h : Changes names st js st') (hst : st.Aligned) (ht : st.Tracks last) :
    st'.Tracks (lastJoined last js) := by
  induction h with
  | refl => exact ht
  | tables hchain hsame ih =>
    have hstep : Changes [] _ [] _ := Changes.refl.tables hsame
    intro name r hr
    exact ih.of_unnamed (aligned_of_changes hchain hst) hstep List.not_mem_nil hr
  | @erase js st₁ st₂ erased hchain hmem herase ih =>
    have hstep : Changes [erased] st₁ [] st₂ :=
      Changes.refl.erase (List.mem_singleton.mpr rfl) herase
    intro name r hr
    by_cases hname : name = erased
    · obtain ⟨q, -, rfl⟩ := eraseSeries_eq_ok.mp herase
      rw [find?_series_unfiled, if_pos hname] at hr
      cases hr
    · exact ih.of_unnamed (aligned_of_changes hchain hst) hstep
        (fun hin => hname (List.mem_singleton.mp hin)) hr
  | @join js st₁ st₂ joined s hchain hmem hs hjoin ih =>
    have hstep : Changes [joined] st₁ [(joined, s)] st₂ :=
      Changes.refl.join (List.mem_singleton.mpr rfl) hs hjoin
    have hlast : lastJoined last (js ++ [(joined, s)]) =
        Function.update (lastJoined last js) joined (some s) := List.foldl_append
    rw [hlast]
    intro name r hr
    by_cases hname : name = joined
    · subst hname
      exact ⟨s, Function.update_self .., keeps_of_join (aligned_of_changes hchain hst) hs hjoin⟩
    · rw [Function.update_of_ne hname]
      exact ih.of_unnamed (aligned_of_changes hchain hst) hstep
        (fun hin => hname (List.mem_singleton.mp hin)) hr

theorem History.tracks (h : History st last) : st.Tracks last := by
  induction h with
  | empty =>
    intro name r hr
    cases hr
  | call c hprev hc ih => exact ih.of_changes (changes_of_call hc _) hprev.aligned

/-! ## One column for each record -/

/-- All columns of a name, each with the code of its frame. -/
def columnsOf (st : Store) (name : EntityName) : List (String × List (Option Double)) :=
  st.frames.entries.flatMap fun e =>
    (e.2.columns.entries.filter fun c => decide (c.1 = name)).map fun c => (e.1, c.2)

/-- Frames and records in the store as it stands, entry by entry. -/
structure FiledOnce (st : Store) : Prop where
  nodup_frames : st.frames.keys.Nodup
  nodup_series : st.series.keys.Nodup
  /-- No frame is empty, its index increases, and its columns are as long as the index. -/
  frame : ∀ e ∈ st.frames.entries, e.2.index ≠ [] ∧ e.2.columns.entries ≠ [] ∧
    Increasing e.2.index ∧ ∀ c ∈ e.2.columns.entries, c.2.length = e.2.index.length
  recorded : ∀ e ∈ st.series.entries, ∃ column, st.columnsOf e.1 = [(e.2.frequency.code, column)]
  unrecorded : ∀ name, name ∉ st.series.keys → st.columnsOf name = []

/-- In the frame with a given code, the columns of a name are what is looked up. -/
theorem Aligned.columns_of_frame (h : st.Aligned) {e : String × Frame}
    (he : e ∈ st.frames.entries) (name : EntityName) :
    (e.2.columns.entries.filter fun c => decide (c.1 = name)).map (fun c => (e.1, c.2)) =
      (e.2.columns.find? name).toList.map fun column => (e.1, column) := by
  have hf := OrderedMap.find?_of_mem h.nodup_frames he
  rw [OrderedMap.filter_key (h.consistent hf).nodup, List.map_map]
  rfl

/-- A frame has a column for a name just if its code is that of the record. -/
theorem Aligned.isSome_column (h : st.Aligned) {e : String × Frame} (he : e ∈ st.frames.entries)
    (name : EntityName) : (e.2.columns.find? name).isSome ↔
      ∃ r, st.series.find? name = some r ∧ r.frequency.code = e.1 := by
  rw [← h.column e.1 name, points?, OrderedMap.find?_of_mem h.nodup_frames he, Option.bind_some,
    Frame.isSome_column?]

/-- A frame has no column for a name if its code is not that of the record. -/
theorem Aligned.column_eq_none (h : st.Aligned) {e : String × Frame} (he : e ∈ st.frames.entries)
    (hnot : ∀ r, st.series.find? name = some r → r.frequency.code ≠ e.1) :
    e.2.columns.find? name = none := by
  rw [← Option.not_isSome_iff_eq_none, h.isSome_column he]
  rintro ⟨r, hr, hcode⟩
  exact hnot r hr hcode

theorem Aligned.columnsOf_recorded (h : st.Aligned) {r : SeriesRecord}
    (hr : st.series.find? name = some r) :
    ∃ column, st.columnsOf name = [(r.frequency.code, column)] := by
  obtain ⟨ps, hps⟩ := h.points?_of_record hr
  obtain ⟨f, hf, hcolumn⟩ := Option.bind_eq_some_iff.mp hps
  obtain ⟨column, hfind, -⟩ := Frame.column?_eq_some.mp hcolumn
  refine ⟨column, ?_⟩
  have hother : ∀ e ∈ st.frames.entries, e.1 ≠ r.frequency.code →
      (e.2.columns.entries.filter fun c => decide (c.1 = name)).map (fun c => (e.1, c.2)) = [] := by
    intro e he hne
    have hnone : e.2.columns.find? name = none := h.column_eq_none he fun q hq hcode => by
      rw [hr, Option.some.injEq] at hq
      exact hne (hq ▸ hcode).symm
    rw [h.columns_of_frame he, hnone]
    rfl
  rw [columnsOf, OrderedMap.flatMap_key h.nodup_frames _ _ hother, hf]
  have hcolumns := h.columns_of_frame (OrderedMap.mem_of_find? hf) name
  rw [hfind] at hcolumns
  simpa using hcolumns

theorem Aligned.columnsOf_unrecorded (h : st.Aligned) (hr : st.series.find? name = none) :
    st.columnsOf name = [] := by
  refine List.flatMap_eq_nil_iff.mpr fun e he => ?_
  have hnone : e.2.columns.find? name = none := h.column_eq_none he fun q hq => by
    rw [hr] at hq
    cases hq
  rw [h.columns_of_frame he, hnone]
  rfl

theorem Aligned.filedOnce (h : st.Aligned) : st.FiledOnce where
  nodup_frames := h.nodup_frames
  nodup_series := h.nodup_series
  frame e he := by
    have hf := OrderedMap.find?_of_mem h.nodup_frames he
    have hconsistent := h.consistent hf
    refine ⟨h.index_ne_nil hf, ?_, hconsistent.increasing, fun c hc => ?_⟩
    · intro hnil
      have hcolumns := h.columns_ne_nil hf
      rw [OrderedMap.isEmpty, hnil] at hcolumns
      cases hcolumns
    · exact hconsistent.length (OrderedMap.find?_of_mem hconsistent.nodup hc)
  recorded e he := h.columnsOf_recorded (OrderedMap.find?_of_mem h.nodup_series he)
  unrecorded name hname := by
    refine h.columnsOf_unrecorded (Option.not_isSome_iff_eq_none.mp fun hsome => hname ?_)
    exact OrderedMap.find?_isSome_iff.mp hsome

/-- Whatever calls were made, failed ones included: every record has exactly one column, in the
frame of its frequency, there are no other columns and no empty frames, indices increase and columns
are as long as they. So every recorded series can be read, and has the values of the series that was
last joined under its name, trimmed and regularized. -/
theorem columns_and_values_of_history (h : History st last) :
    st.FiledOnce ∧ ∀ name ∈ st.series.keys, ∃ s regular a, last name = some s ∧
      s.trimmed.regularized s.trimmed.frequency = .ok regular ∧ st.getSeries name = .ok a ∧
      a.valid = regular.valid := by
  refine ⟨h.aligned.filedOnce, fun name hname => ?_⟩
  obtain ⟨r, hr⟩ := Option.isSome_iff_exists.mp (OrderedMap.find?_isSome_iff.mpr hname)
  obtain ⟨s, hs, hk⟩ := h.tracks name r hr
  obtain ⟨regular, a, hregular, ha, hvalid⟩ := hk.getSeries h.aligned
  exact ⟨s, regular, a, hs, hregular, ha, hvalid⟩

/-! ## A store of daily series -/

/-- Values of zero on the first days of 1970, at a time of day in nanoseconds since midnight. -/
def zeroSeries (sinceMidnight : Int) (days : Nat) : Series :=
  ⟨(List.range days).map fun day : Nat => (.ofDate ⟨day⟩ sinceMidnight, some ⟨0⟩)⟩

theorem index_zeroSeries (sinceMidnight : Int) (days : Nat) :
    (zeroSeries sinceMidnight days).index =
      (List.range days).map fun day : Nat => .ofDate ⟨day⟩ sinceMidnight := by
  simp [zeroSeries, TimeSeries.index, Function.comp_def]

theorem increasing_zeroSeries (sinceMidnight : Int) (days : Nat) :
    Increasing (zeroSeries sinceMidnight days).index := by
  rw [index_zeroSeries, Increasing, List.pairwise_map]
  refine List.pairwise_lt_range.imp fun {i j} h => ?_
  simp only [Timestamp.ofDate, Timestamp.lt_iff, Timestamp.dayNanos]
  omega

/-- A series at midnight. -/
def midnights : Call := .join ⟨"STAGE"⟩ (zeroSeries 0 3)

/-- A series at noon. -/
def noons : Call := .join ⟨"FLOW"⟩ (zeroSeries 43200000000000 2)

theorem history_midnights : History (midnights.after empty)
    (lastJoined (fun _ => none) (midnights.joined empty).toList) :=
  History.empty.call midnights (increasing_zeroSeries 0 3)

theorem columns_and_values_of_midnights_and_noons :
    let st := noons.after (midnights.after empty)
    (st.FiledOnce ∧ ∀ name ∈ st.series.keys, ∃ s regular a,
      lastJoined (lastJoined (fun _ => none) (midnights.joined empty).toList)
        (noons.joined (midnights.after empty)).toList name = some s ∧
      s.trimmed.regularized s.trimmed.frequency = .ok regular ∧ st.getSeries name = .ok a ∧
      a.valid = regular.valid) ∧ st.series.keys = [⟨"STAGE"⟩, ⟨"FLOW"⟩] :=
  ⟨columns_and_values_of_history
    (history_midnights.call noons (increasing_zeroSeries 43200000000000 2)), by decide +kernel⟩

end Hydroseries.Store
