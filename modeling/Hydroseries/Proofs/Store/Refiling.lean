import Hydroseries.Proofs.Store.Entity

/-!
# Filing again what was read

A record describes a series if it is what would be recorded of it. A series that is described so by
its own record is filed, when it is joined again, on the grid that it was first filed on, and the
frame of the record has all of that grid (`History.covered`). So it gets the column that it was read
from, and no other column changes (`Aligned.points?_filed_copy`).
-/

namespace Hydroseries

variable {s regular : Series} {r : SeriesRecord}

/-! ## Records and grids -/

/-- A record says of a series what is recorded when the series is joined. -/
structure SeriesRecord.Describes (r : SeriesRecord) (s : Series) : Prop where
  frequency : r.frequency = s.trimmed.frequency
  start : s.firstValid? = some r.start
  finish : s.lastValid? = some r.finish

namespace SeriesRecord.Describes

theorem of_filing (hs : Increasing s.index) (h : Filing s r regular) : r.Describes s :=
  ⟨h.frequency, (TimeSeries.firstValid?_trimmed hs).symm.trans h.start,
    (TimeSeries.lastValid?_trimmed hs).symm.trans h.finish⟩

theorem filing (h : r.Describes s) (hs : Increasing s.index)
    (hregular : s.trimmed.regularized r.frequency = .ok regular) : Filing s r regular :=
  ⟨h.frequency, (TimeSeries.firstValid?_trimmed hs).trans h.start,
    (TimeSeries.lastValid?_trimmed hs).trans h.finish, h.frequency ▸ hregular⟩

/-- A described series that is not irregular is spread over the grid of its record. -/
theorem regularized_eq (h : r.Describes s) (hs : Increasing s.index)
    (hgrid : r.frequency ≠ .irregular) : s.trimmed.regularized r.frequency =
      (r.frequency.grid r.start r.finish).map s.trimmed.spread := by
  refine TimeSeries.regularized_of_spans ?_ (TimeSeries.increasing_trimmed hs) hgrid
    (TimeSeries.spans_trimmed hs h.start h.finish)
  rw [h.frequency]
  exact Frequency.infer_proper _

end SeriesRecord.Describes

namespace Filing

/-- What is filed of a series that is not irregular lies on the grid of the record. -/
theorem eq_spread (h : Filing s r regular) (hs : Increasing s.index)
    (hgrid : r.frequency ≠ .irregular) :
    ∃ grid, r.frequency.grid r.start r.finish = .ok grid ∧ regular = s.trimmed.spread grid := by
  have hregular := h.regular
  rw [← h.frequency, (SeriesRecord.Describes.of_filing hs h).regularized_eq hs hgrid] at hregular
  cases hg : r.frequency.grid r.start r.finish with
  | error fault =>
    rw [hg] at hregular
    cases hregular
  | ok grid =>
    rw [hg] at hregular
    exact ⟨grid, rfl, (Except.ok.inj hregular).symm⟩

/-- The first value is filed. -/
theorem start_mem_regular (h : Filing s r regular) (hs : Increasing s.index) :
    ∃ v, (r.start, v) ∈ regular.valid := by
  have hproper := Frequency.infer_proper s.trimmed.index
  have htrimmed := TimeSeries.increasing_trimmed hs
  obtain ⟨⟨t, v⟩, hhead, hstart⟩ := Option.map_eq_some_iff.mp h.start
  obtain rfl : t = r.start := hstart
  have hmem : (r.start, v) ∈ s.trimmed.valid := List.mem_of_head? hhead
  have hpoint : (r.start, some v) ∈ s.trimmed.points := TimeSeries.mem_valid.mp hmem
  refine ⟨v, TimeSeries.mem_valid.mpr ?_⟩
  rcases TimeSeries.regularized_cases hproper htrimmed h.regular with
    ⟨rfl, -⟩ | ⟨-, first, last, grid, hspans, hwalk, rfl⟩
  · exact hpoint
  · have hdesc := SeriesRecord.Describes.of_filing hs h
    have hfirst := (TimeSeries.spans_trimmed hs hdesc.start hdesc.finish).head
    rw [hspans.head, Option.some.injEq] at hfirst
    refine (TimeSeries.mem_spread_some htrimmed).mpr ⟨?_, hpoint⟩
    rw [← hfirst]
    exact hwalk.head_mem (hspans.bounds htrimmed first hspans.first_mem).2

theorem regular_valid_ne_nil (h : Filing s r regular) (hs : Increasing s.index) :
    regular.valid ≠ [] := by
  obtain ⟨v, hv⟩ := h.start_mem_regular hs
  exact List.ne_nil_of_mem hv

end Filing

namespace Store

variable {st st' : Store} {kind : EntityKind} {name source target : EntityName}
  {last : EntityName → Option Series} {names : List EntityName} {js : List (EntityName × Series)}
  {ps : List (Timestamp × Option Double)}

/-! ## Frames hold the grids of their records -/

/-- The frame of every record has the moments of the grid of the record. -/
def Covered (st : Store) : Prop :=
  ∀ name r grid, st.series.find? name = some r → r.frequency ≠ .irregular →
    r.frequency.grid r.start r.finish = .ok grid → grid ⊆ (st.frameOf r.frequency.code).index

/-- Frames lose no moments as long as one of their records is not named. -/
theorem frameOf_subset_of_changes (hst : st.Aligned) (h : Changes names st js st')
    (hname : name ∉ names) (hr : st.series.find? name = some r) :
    (st.frameOf r.frequency.code).index ⊆ (st'.frameOf r.frequency.code).index := by
  obtain ⟨ps, hps⟩ := hst.points?_of_record hr
  obtain ⟨index, hps', -, hindex⟩ := points?_of_changes h hst hname hps
  have hafter := (aligned_of_changes h hst).map_fst_points? hps'
  rw [← hst.map_fst_points? hps, ← hafter]
  intro t ht
  have hspread : (TimeSeries.spread ⟨ps⟩ index).points.map Prod.fst = index :=
    TimeSeries.index_spread ⟨ps⟩ index
  rw [hspread, hindex t]
  exact .inl ht

theorem Covered.of_unnamed (hc : st.Covered) (hst : st.Aligned) (h : Changes names st js st')
    (hname : name ∉ names) (hr : st'.series.find? name = some r)
    (hgrid : r.frequency ≠ .irregular) {grid : List Timestamp}
    (hg : r.frequency.grid r.start r.finish = .ok grid) :
    grid ⊆ (st'.frameOf r.frequency.code).index := by
  rw [h.find?_series hname] at hr
  exact List.Subset.trans (hc name r grid hr hgrid hg) (frameOf_subset_of_changes hst h hname hr)

/-- The grid of a series that is filed goes into the frame. -/
theorem grid_subset_of_filed (hs : Increasing s.index) (h : Filing s r regular)
    (hgrid : r.frequency ≠ .irregular) {grid : List Timestamp}
    (hg : r.frequency.grid r.start r.finish = .ok grid) :
    grid ⊆ ((st.filed name r regular).frameOf r.frequency.code).index := by
  obtain ⟨grid', hg', rfl⟩ := h.eq_spread hs hgrid
  rw [hg, Except.ok.injEq] at hg'
  subst hg'
  rw [frameOf, find?_frames_filed, if_pos rfl]
  intro t ht
  refine Frame.mem_wide.mpr (.inr ?_)
  rwa [TimeSeries.index_spread]

theorem Covered.of_changes (h : Changes names st js st') (hst : st.Aligned) (hc : st.Covered) :
    st'.Covered := by
  induction h with
  | refl => exact hc
  | tables hchain hsame ih =>
    have hstep : Changes [] _ [] _ := Changes.refl.tables hsame
    intro name r grid hr hgrid hg
    exact ih.of_unnamed (aligned_of_changes hchain hst) hstep List.not_mem_nil hr hgrid hg
  | @erase js st₁ st₂ erased hchain hmem herase ih =>
    have hstep : Changes [erased] st₁ [] st₂ :=
      Changes.refl.erase (List.mem_singleton.mpr rfl) herase
    intro name r grid hr hgrid hg
    by_cases hname : name = erased
    · obtain ⟨q, -, rfl⟩ := eraseSeries_eq_ok.mp herase
      rw [find?_series_unfiled, if_pos hname] at hr
      cases hr
    · exact ih.of_unnamed (aligned_of_changes hchain hst) hstep
        (fun hin => hname (List.mem_singleton.mp hin)) hr hgrid hg
  | @join js st₁ st₂ joined s hchain hmem hs hjoin ih =>
    have hstep : Changes [joined] st₁ [(joined, s)] st₂ :=
      Changes.refl.join (List.mem_singleton.mpr rfl) hs hjoin
    intro name r grid hr hgrid hg
    by_cases hname : name = joined
    · obtain ⟨-, q, regular, hfiling, rfl⟩ := joinSeries_eq_ok.mp hjoin
      rw [find?_series_filed, if_pos hname, Option.some.injEq] at hr
      subst hr
      exact grid_subset_of_filed hs hfiling hgrid hg
    · exact ih.of_unnamed (aligned_of_changes hchain hst) hstep
        (fun hin => hname (List.mem_singleton.mp hin)) hr hgrid hg

theorem History.covered (h : History st last) : st.Covered := by
  induction h with
  | empty =>
    intro name r grid hr
    cases hr
  | call c hprev hc ih => exact ih.of_changes (changes_of_call hc _) hprev.aligned

/-! ## What is filed of a series that was read -/

/-- What is read of a record has the values of its column, and there are some. -/
theorem History.valid_cut (h : History st last) (hr : st.series.find? name = some r)
    (hps : st.points? r.frequency.code name = some ps) :
    (r.cut ps).valid = TimeSeries.valid ⟨ps⟩ ∧ (r.cut ps).valid ≠ [] := by
  obtain ⟨s, -, hs, q, regular, qs, hfiling, hq, hqs, hvalid⟩ := h.tracks name r hr
  obtain rfl := Option.some.inj (hr.symm.trans hq)
  obtain rfl := Option.some.inj (hps.symm.trans hqs)
  have hcut : (r.cut ps).valid = TimeSeries.valid ⟨ps⟩ := by
    refine SeriesRecord.valid_cut (h.aligned.increasing_points? hps) fun t v hmem => ?_
    have hregular : (t, v) ∈ regular.valid := hvalid ▸ TimeSeries.mem_valid.mpr hmem
    exact hfiling.bounds hs t (TimeSeries.mem_index.mpr ⟨some v, TimeSeries.mem_valid.mp hregular⟩)
  refine ⟨hcut, ?_⟩
  rw [hcut, hvalid]
  exact hfiling.regular_valid_ne_nil hs

/-- Of a series that its record describes, what is filed again fits the column that it was read
from: it has its values, and no moments that the column has not. -/
theorem History.filing_of_describes (h : History st last) (hr : st.series.find? name = some r)
    (hps : st.points? r.frequency.code name = some ps) (hdesc : r.Describes (r.cut ps)) :
    ∃ regular, Filing (r.cut ps) r regular ∧ regular.index ⊆ ps.map Prod.fst ∧
      regular.valid = TimeSeries.valid ⟨ps⟩ := by
  have hi := h.aligned.increasing_points? hps
  have hread := r.increasing_cut hi
  have hvalid := (h.valid_cut hr hps).1
  have htrimmed := (TimeSeries.valid_trimmed hread).trans hvalid
  by_cases hirr : r.frequency = .irregular
  · -- Without a grid the trimmed series itself is filed.
    have hself : (r.cut ps).trimmed.regularized r.frequency = .ok (r.cut ps).trimmed := by
      rcases TimeSeries.regularized_eq (r.cut ps).trimmed r.frequency with ⟨hself, -⟩ | ⟨hne, -⟩
      · exact hself
      · exact absurd hirr hne
    refine ⟨_, hdesc.filing hread hself, fun t ht => ?_, htrimmed⟩
    obtain ⟨o, ho⟩ := TimeSeries.mem_index.mp (TimeSeries.mem_index_of_mem_trimmed ht)
    exact List.mem_map_of_mem (SeriesRecord.mem_cut.mp ho).1
  · -- The grid is the one that the series was first filed on.
    obtain ⟨s, -, hs, q, regular, qs, hfiling, hq, hqs, hcolumn⟩ := h.tracks name r hr
    obtain rfl := Option.some.inj (hr.symm.trans hq)
    obtain rfl := Option.some.inj (hps.symm.trans hqs)
    obtain ⟨grid, hg, rfl⟩ := hfiling.eq_spread hs hirr
    have hgrid : (r.cut ps).trimmed.regularized r.frequency =
        .ok ((r.cut ps).trimmed.spread grid) := by
      rw [hdesc.regularized_eq hread hirr, hg]
      rfl
    refine ⟨_, hdesc.filing hread hgrid, ?_, ?_⟩
    · rw [TimeSeries.index_spread, h.aligned.map_fst_points? hps]
      exact h.covered name r grid hr hirr hg
    · rw [← htrimmed]
      have hincreasing : Increasing grid := by
        have hregular := hfiling.increasing hs
        rwa [TimeSeries.index_spread] at hregular
      refine TimeSeries.valid_spread (TimeSeries.increasing_trimmed hread) hincreasing fun p hp => ?_
      rw [htrimmed, hcolumn] at hp
      have hmem := (TimeSeries.valid_map_fst_sublist _).mem (List.mem_map_of_mem (f := Prod.fst) hp)
      rwa [TimeSeries.index_spread] at hmem

/-- A series that fits a column is filed as that column; no column changes. -/
theorem Aligned.points?_filed_copy (h : st.Aligned)
    (hps : st.points? r.frequency.code source = some ps) (hregular : Increasing regular.index)
    (hsub : regular.index ⊆ ps.map Prod.fst) (hvalid : regular.valid = TimeSeries.valid ⟨ps⟩)
    (target : EntityName) (code : String) (other : EntityName) :
    (st.filed target r regular).points? code other =
      if code = r.frequency.code ∧ other = target then some ps else st.points? code other := by
  have hi := h.increasing_points? hps
  have hwide : st.wideIndex r.frequency.code regular = ps.map Prod.fst := by
    have hmem : ∀ t, t ∈ st.wideIndex r.frequency.code regular ↔ t ∈ ps.map Prod.fst := by
      intro t
      rw [Store.wideIndex, Frame.mem_wide, ← h.map_fst_points? hps]
      exact or_iff_left_of_imp fun ht => hsub ht
    exact List.Pairwise.eq_of_mem_iff (h.wideIndex hregular _) hi hmem
  rw [Store.points?_filed (h.frameOf _) hregular]
  by_cases hcode : code = r.frequency.code
  · subst hcode
    by_cases hother : other = target
    · have hself : TimeSeries.spread ⟨ps⟩ (ps.map Prod.fst) = ⟨ps⟩ :=
        TimeSeries.spread_index (s := ⟨ps⟩) hi
      rw [if_pos rfl, if_pos hother, if_pos ⟨rfl, hother⟩, hwide,
        TimeSeries.spread_congr hregular hi hvalid, hself]
    · rw [if_pos rfl, if_neg hother, if_neg fun hc => hother hc.2, hwide]
      cases hqs : st.points? r.frequency.code other with
      | none => rfl
      | some qs =>
        have hself : TimeSeries.spread ⟨qs⟩ (ps.map Prod.fst) = ⟨qs⟩ := by
          rw [h.map_fst_points? hps, ← h.map_fst_points? hqs]
          exact TimeSeries.spread_index (s := ⟨qs⟩) (h.increasing_points? hqs)
        rw [Option.map_some, hself]
  · rw [if_neg hcode, if_neg fun hc => hcode hc.1]

end Store

end Hydroseries
