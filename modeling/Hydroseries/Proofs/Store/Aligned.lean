import Hydroseries.Proofs.Store.Calls

/-!
# Records, frames and columns fit together

In an aligned store every record has its column in the frame of its frequency, no column is without
a record, and no frame is empty. The empty store is aligned and changes keep stores so
(`aligned_of_changes`). Along a chain of changes the column of a series that is not named only gets
gaps, at the moments that other series of its frequency bring (`points?_of_changes`).
-/

namespace Hydroseries.Store

variable {st st' : Store} {name other : EntityName} {r : SeriesRecord} {s regular : Series}

/-- Records, frames and columns fit together. -/
structure Aligned (st : Store) : Prop where
  nodup_frames : st.frames.keys.Nodup
  nodup_series : st.series.keys.Nodup
  consistent : ∀ {code f}, st.frames.find? code = some f → f.Consistent
  index_ne_nil : ∀ {code f}, st.frames.find? code = some f → f.index ≠ []
  columns_ne_nil : ∀ {code f}, st.frames.find? code = some f → f.columns.isEmpty = false
  /-- The columns of a name are those of its record. -/
  column : ∀ code name, (st.points? code name).isSome ↔
    ∃ r, st.series.find? name = some r ∧ r.frequency.code = code

theorem aligned_empty : empty.Aligned where
  nodup_frames := .nil
  nodup_series := .nil
  consistent h := by cases h
  index_ne_nil h := by cases h
  columns_ne_nil h := by cases h
  column code name := by
    constructor
    · intro h
      cases h
    · rintro ⟨r, hr, -⟩
      cases hr

namespace Aligned

theorem frameOf (h : st.Aligned) (code : String) : (st.frameOf code).Consistent := by
  unfold Store.frameOf
  cases hf : st.frames.find? code with
  | none => exact Frame.consistent_empty
  | some f => exact h.consistent hf

/-- A column has a point at each moment of its frame. -/
theorem map_fst_points? (h : st.Aligned) {code : String} {ps : List (Timestamp × Option Double)}
    (hps : st.points? code name = some ps) : ps.map Prod.fst = (st.frameOf code).index := by
  rw [points?_eq_frameOf] at hps
  exact (h.frameOf code).map_fst_column? hps

theorem increasing_points? (h : st.Aligned) {code : String}
    {ps : List (Timestamp × Option Double)} (hps : st.points? code name = some ps) :
    Increasing (ps.map Prod.fst) := by
  rw [h.map_fst_points? hps]
  exact (h.frameOf code).increasing

theorem points?_of_record (h : st.Aligned) (hr : st.series.find? name = some r) :
    ∃ ps, st.points? r.frequency.code name = some ps :=
  Option.isSome_iff_exists.mp ((h.column _ _).mpr ⟨r, hr, rfl⟩)

/-- A name has no column in the frames of codes that its record does not have. -/
theorem points?_eq_none (h : st.Aligned) {code : String}
    (hnot : ∀ r, st.series.find? name = some r → r.frequency.code ≠ code) :
    st.points? code name = none := by
  rw [← Option.not_isSome_iff_eq_none, h.column code name]
  rintro ⟨r, hr, hcode⟩
  exact hnot r hr hcode

/-- Every recorded series can be read. -/
theorem getSeries (h : st.Aligned) (hr : st.series.find? name = some r)
    {ps : List (Timestamp × Option Double)} (hps : st.points? r.frequency.code name = some ps) :
    st.getSeries name = .ok (r.cut ps) :=
  getSeries_eq hr hps (h.increasing_points? hps)

theorem wideIndex (h : st.Aligned) (hs : Increasing regular.index) (code : String) :
    Increasing (st.wideIndex code regular) :=
  Frame.increasing_wide (h.frameOf code).increasing hs

/-! ## One change -/

/-- Joining a series under a free name. -/
theorem filed (h : st.Aligned) (hfree : st.series.find? name = none) (hs : Increasing s.index)
    (hfiling : Filing s r regular) : (st.filed name r regular).Aligned where
  nodup_frames := OrderedMap.nodup_insert h.nodup_frames _ _
  nodup_series := OrderedMap.nodup_insert h.nodup_series _ _
  consistent {code f} hf := by
    rcases frame_of_filed hf with rfl | hf
    · exact (h.frameOf _).join name (hfiling.increasing hs)
    · exact h.consistent hf
  index_ne_nil {code f} hf := by
    rcases frame_of_filed hf with rfl | hf
    · obtain ⟨t, ht⟩ := List.exists_mem_of_ne_nil _ (hfiling.index_ne_nil hs)
      exact List.ne_nil_of_mem (Frame.mem_wide.mpr (.inr ht))
    · exact h.index_ne_nil hf
  columns_ne_nil {code f} hf := by
    rcases frame_of_filed hf with rfl | hf
    · rw [Bool.eq_false_iff]
      intro hempty
      have hnone := OrderedMap.isEmpty_iff.mp hempty name
      rw [Frame.find?_columns_join, if_pos rfl] at hnone
      cases hnone
    · exact h.columns_ne_nil hf
  column code other := by
    rw [points?_filed (h.frameOf _) (hfiling.increasing hs), find?_series_filed]
    by_cases hother : other = name
    · subst hother
      have hnone : st.points? code other = none := h.points?_eq_none fun q hq => by
        rw [hfree] at hq
        cases hq
      by_cases hcode : code = r.frequency.code
      · simp [hcode]
      · simp [hcode, hnone, Ne.symm hcode]
    · simp only [if_neg hother, ← h.column code other]
      by_cases hcode : code = r.frequency.code <;> simp [hcode]

/-- Erasing a recorded series. -/
theorem unfiled (h : st.Aligned) (hr : st.series.find? name = some r) :
    (st.unfiled name r).Aligned := by
  constructor
  case nodup_frames =>
    unfold Store.unfiled
    split
    · exact h.nodup_frames
    · split
      · exact OrderedMap.nodup_erase h.nodup_frames _
      · exact OrderedMap.nodup_insert h.nodup_frames _ _
  case nodup_series => exact OrderedMap.nodup_erase h.nodup_series _
  case consistent =>
    intro code f hf
    rcases frame_of_unfiled hf with hf | ⟨f', hf', rfl, -⟩
    · exact h.consistent hf
    · exact (h.consistent hf').drop name
  case index_ne_nil =>
    intro code f hf
    rcases frame_of_unfiled hf with hf | ⟨f', hf', rfl, -⟩
    · exact h.index_ne_nil hf
    · exact fun hnil => h.index_ne_nil hf' hnil
  case columns_ne_nil =>
    intro code f hf
    rcases frame_of_unfiled hf with hf | ⟨f', -, -, hcolumns⟩
    · exact h.columns_ne_nil hf
    · exact hcolumns
  case column =>
    intro code other
    rw [points?_unfiled, find?_series_unfiled]
    by_cases hother : other = name
    · subst hother
      by_cases hcode : code = r.frequency.code
      · simp [hcode]
      · -- The erased series had no column in another frame.
        have hnone : st.points? code other = none := h.points?_eq_none fun q hq hq' => by
          rw [hr, Option.some.injEq] at hq
          exact hcode (hq ▸ hq').symm
        simp [hcode, hnone]
    · simpa [hother] using h.column code other

end Aligned

/-- Every chain of changes keeps a store aligned. -/
theorem aligned_of_changes {names : List EntityName} {js : List (EntityName × Series)}
    (h : Changes names st js st') (hst : st.Aligned) : st'.Aligned := by
  induction h with
  | refl => exact hst
  | @tables js st₁ st₂ _ hsame ih =>
    obtain ⟨frames, series, _, _, _, _, _⟩ := st₂
    obtain ⟨rfl, rfl⟩ := hsame
    exact ⟨ih.nodup_frames, ih.nodup_series, ih.consistent, ih.index_ne_nil, ih.columns_ne_nil,
      ih.column⟩
  | erase _ _ herase ih =>
    obtain ⟨r, hr, rfl⟩ := eraseSeries_eq_ok.mp herase
    exact ih.unfiled hr
  | join _ _ hs hjoin ih =>
    obtain ⟨hfree, r, regular, hfiling, rfl⟩ := joinSeries_eq_ok.mp hjoin
    exact ih.filed hfree hs hfiling

/-! ## The column of a series that is not named -/

theorem points?_of_sameSeries (h : SameSeries st st') (code : String) (name : EntityName) :
    st'.points? code name = st.points? code name := by
  rw [points?, points?, h.frames]

/-- A moment of the grid of a series that has frequency code `code`. -/
def Brings (code : String) (s : Series) (t : Timestamp) : Prop :=
  ∃ r regular, Filing s r regular ∧ r.frequency.code = code ∧ t ∈ regular.index

/-- A column is its own spread over the moments that it has. -/
theorem Aligned.points?_spread_self (h : st.Aligned) {code : String}
    {ps : List (Timestamp × Option Double)} (hps : st.points? code name = some ps) :
    st.points? code name = some (TimeSeries.spread ⟨ps⟩ (ps.map Prod.fst)).points := by
  have hself : TimeSeries.spread ⟨ps⟩ (ps.map Prod.fst) = ⟨ps⟩ :=
    TimeSeries.spread_index (s := ⟨ps⟩) (h.increasing_points? hps)
  rw [hself, hps]

/-- Filing another series gives a column gaps at the moments that it lacks, if at all. -/
theorem Aligned.points?_filed (h : st.Aligned) (hs : Increasing s.index)
    (hfiling : Filing s r regular) (hne : other ≠ name) {code : String}
    {ps : List (Timestamp × Option Double)} (hps : st.points? code other = some ps) :
    ∃ index, (st.filed name r regular).points? code other =
        some (TimeSeries.spread ⟨ps⟩ index).points ∧
      Increasing index ∧ ∀ t, t ∈ index ↔ t ∈ ps.map Prod.fst ∨ Brings code s t := by
  have hregular := hfiling.increasing hs
  have hbrings : ∀ t, Brings code s t ↔ code = r.frequency.code ∧ t ∈ regular.index := by
    intro t
    constructor
    · rintro ⟨r', regular', hfiling', hcode, ht⟩
      rw [hfiling'.frequency, ← hfiling.frequency] at hcode
      have hsame := hfiling'.regular.symm.trans hfiling.regular
      rw [Except.ok.inj hsame] at ht
      exact ⟨hcode.symm, ht⟩
    · rintro ⟨hcode, ht⟩
      exact ⟨r, regular, hfiling, hcode.symm, ht⟩
  rw [Store.points?_filed (h.frameOf _) hregular, if_neg hne]
  by_cases hcode : code = r.frequency.code
  · refine ⟨st.wideIndex code regular, by rw [if_pos hcode, hps]; rfl,
      h.wideIndex hregular code, fun t => ?_⟩
    rw [hbrings t, and_iff_right hcode, h.map_fst_points? hps]
    exact Frame.mem_wide
  · refine ⟨ps.map Prod.fst, ?_, h.increasing_points? hps, fun t => ?_⟩
    · rw [if_neg hcode]
      exact h.points?_spread_self hps
    · simp [hbrings t, hcode]

/-- Along a chain of changes that does not name it, a column gets gaps at the moments that the
joined series of its frequency bring, and at no others. -/
theorem points?_of_changes {names : List EntityName} {js : List (EntityName × Series)}
    (h : Changes names st js st') (hst : st.Aligned) (hname : name ∉ names) {code : String}
    {ps : List (Timestamp × Option Double)} (hps : st.points? code name = some ps) :
    ∃ index, st'.points? code name = some (TimeSeries.spread ⟨ps⟩ index).points ∧
      Increasing index ∧
      ∀ t, t ∈ index ↔ t ∈ ps.map Prod.fst ∨ ∃ j ∈ js, Brings code j.2 t := by
  induction h with
  | refl =>
    exact ⟨ps.map Prod.fst, hst.points?_spread_self hps, hst.increasing_points? hps, by simp⟩
  | tables _ hsame ih =>
    obtain ⟨index, hpoints, hi, hmem⟩ := ih
    exact ⟨index, by rw [points?_of_sameSeries hsame, hpoints], hi, hmem⟩
  | erase _ hnamed herase ih =>
    obtain ⟨index, hpoints, hi, hmem⟩ := ih
    obtain ⟨r, -, rfl⟩ := eraseSeries_eq_ok.mp herase
    have hne := ne_of_mem_of_not_mem hnamed hname
    exact ⟨index, by rw [points?_unfiled, if_neg fun hc => hne hc.2.symm, hpoints], hi, hmem⟩
  | @join js st₁ st₂ joined s hchain hnamed hs hjoin ih =>
    obtain ⟨index, hpoints, hi, hmem⟩ := ih
    obtain ⟨-, r, regular, hfiling, rfl⟩ := joinSeries_eq_ok.mp hjoin
    obtain ⟨wider, hwider, hiw, hmemw⟩ := (aligned_of_changes hchain hst).points?_filed hs hfiling
      (ne_of_mem_of_not_mem hnamed hname).symm hpoints
    refine ⟨wider, ?_, hiw, fun t => ?_⟩
    · rw [hwider]
      refine congrArg (fun s : Series => some s.points) (TimeSeries.spread_spread hi fun t ht => ?_)
      exact (hmem t).mpr (.inl ht)
    · have hindex : (TimeSeries.spread ⟨ps⟩ index).points.map Prod.fst = index :=
        TimeSeries.index_spread ⟨ps⟩ index
      rw [hmemw t, hindex, hmem t]
      simp only [List.mem_append, List.mem_singleton, or_and_right, exists_or, exists_eq_left,
        or_assoc]

end Hydroseries.Store
