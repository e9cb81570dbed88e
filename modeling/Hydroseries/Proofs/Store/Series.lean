import Hydroseries.Store.Basic
import Hydroseries.Proofs.Series.Regular
import Hydroseries.Proofs.Store.Frame

/-!
# Filing, reading and erasing one series

What the three operations on a single series do, as equations: a series that is joined goes, trimmed
and regularized, into the frame of its frequency (`joinSeries_eq_ok`, `points?_filed`); what is read
is a stretch of its column (`getSeries_eq`); erasing it touches no other column (`points?_unfiled`).
-/

namespace Hydroseries

/-! ## What is filed of a series -/

/-- What is recorded of a series, and the series that goes into the frame. -/
structure Filing (s : Series) (r : SeriesRecord) (regular : Series) : Prop where
  frequency : r.frequency = s.trimmed.frequency
  start : s.trimmed.firstValid? = some r.start
  finish : s.trimmed.lastValid? = some r.finish
  regular : s.trimmed.regularized s.trimmed.frequency = .ok regular

namespace Filing

variable {s regular : Series} {r : SeriesRecord}

theorem increasing (h : Filing s r regular) (hs : Increasing s.index) : Increasing regular.index :=
  TimeSeries.increasing_regularized (Frequency.infer_proper _) (TimeSeries.increasing_trimmed hs)
    h.regular

/-- A series without values is not filed. -/
theorem valid_ne_nil (h : Filing s r regular) : s.valid ≠ [] := by
  intro hnil
  have hstart := h.start
  rw [TimeSeries.trimmed_of_no_valid hnil] at hstart
  cases hstart

theorem trimmed_index_ne_nil (h : Filing s r regular) : s.trimmed.index ≠ [] := by
  intro hnil
  have hvalid := s.trimmed.valid_map_fst_sublist
  rw [hnil, List.sublist_nil] at hvalid
  have hstart := h.start
  rw [TimeSeries.head?_valid_map, hvalid] at hstart
  cases hstart

theorem index_ne_nil (h : Filing s r regular) (hs : Increasing s.index) : regular.index ≠ [] :=
  TimeSeries.regularized_index_ne_nil (Frequency.infer_proper _) (TimeSeries.increasing_trimmed hs)
    h.regular h.trimmed_index_ne_nil

/-- What is filed lies between the times that are recorded. -/
theorem bounds (h : Filing s r regular) (hs : Increasing s.index) :
    ∀ t ∈ regular.index, r.start ≤ t ∧ t ≤ r.finish := by
  refine TimeSeries.regularized_bounds (Frequency.infer_proper _) (TimeSeries.increasing_trimmed hs)
    h.regular (TimeSeries.trimmed_bounds ?_ ?_)
  · rw [← TimeSeries.firstValid?_trimmed hs, h.start]
  · rw [← TimeSeries.lastValid?_trimmed hs, h.finish]

end Filing

/-- The points of a column that belong to a series with the given record. -/
def SeriesRecord.cut (r : SeriesRecord) (ps : List (Timestamp × Option Double)) : Series :=
  let inside := ps.filter fun p => decide (r.start ≤ p.1) && decide (p.1 ≤ r.finish)
  ⟨if r.frequency = .irregular then inside.filter fun p => p.2.isSome else inside⟩

namespace SeriesRecord

theorem mem_cut {r : SeriesRecord} {ps : List (Timestamp × Option Double)} {t : Timestamp}
    {o : Option Double} :
    (t, o) ∈ (r.cut ps).points ↔ (t, o) ∈ ps ∧ (r.start ≤ t ∧ t ≤ r.finish) ∧
      (r.frequency = .irregular → o.isSome) := by
  unfold cut
  by_cases hirr : r.frequency = .irregular
  · simp only [hirr, if_true, List.mem_filter, Bool.and_eq_true, decide_eq_true_eq, true_imp_iff,
      and_assoc]
  · simp [hirr]

theorem increasing_cut {ps : List (Timestamp × Option Double)} (h : Increasing (ps.map Prod.fst))
    (r : SeriesRecord) : Increasing (r.cut ps).index := by
  unfold cut TimeSeries.index
  by_cases hirr : r.frequency = .irregular
  · simpa only [hirr, if_true] using (h.map_fst_filter _).map_fst_filter _
  · simpa only [hirr, if_false] using h.map_fst_filter _

/-- A cut keeps the values of the column if they lie between the recorded times. -/
theorem valid_cut {ps : List (Timestamp × Option Double)} (h : Increasing (ps.map Prod.fst))
    {r : SeriesRecord} (hb : ∀ t v, (t, some v) ∈ ps → r.start ≤ t ∧ t ≤ r.finish) :
    (r.cut ps).valid = TimeSeries.valid ⟨ps⟩ := by
  refine TimeSeries.valid_ext (r.increasing_cut h) h fun t v => ?_
  rw [mem_cut]
  exact ⟨fun hmem => hmem.1, fun hmem => ⟨hmem, hb t v hmem, fun _ => rfl⟩⟩

end SeriesRecord

namespace Store

variable {st st' : Store} {name other : EntityName} {r : SeriesRecord} {regular : Series}

/-! ## Joining -/

/-- The frame of a code, without columns if there is none. -/
def frameOf (st : Store) (code : String) : Frame := (st.frames.find? code).getD .empty

/-- The points that the frame of a code has for a name. -/
def points? (st : Store) (code : String) (name : EntityName) :
    Option (List (Timestamp × Option Double)) :=
  (st.frames.find? code).bind (·.column? name)

theorem points?_eq_frameOf (st : Store) (code : String) (name : EntityName) :
    st.points? code name = (st.frameOf code).column? name := by
  unfold points? frameOf
  cases st.frames.find? code <;> rfl

/-- The store with one more series in the frame of its frequency. -/
def filed (st : Store) (name : EntityName) (r : SeriesRecord) (regular : Series) : Store :=
  { st with
    frames := st.frames.insert r.frequency.code ((st.frameOf r.frequency.code).join name regular)
    series := st.series.insert name r }

/-- A series is joined if its name is free, it has values, and its grid stays in the calendar. -/
theorem joinSeries_eq_ok {s : Series} :
    st.joinSeries name s = .ok st' ↔ st.series.find? name = none ∧
      ∃ r regular, Filing s r regular ∧ st' = st.filed name r regular := by
  unfold joinSeries
  rw [OrderedMap.contains_eq]
  cases hfind : st.series.find? name with
  | some r => simp [throw, throwThe, MonadExceptOf.throw, bind, Except.bind]
  | none =>
    simp only [Option.isSome_none, Bool.false_eq_true, if_false, true_and]
    constructor
    · intro h
      split at h
      · next first last hfirst hlast =>
        cases hregular : s.trimmed.regularized s.trimmed.frequency with
        | error fault =>
          rw [hregular] at h
          cases h
        | ok regular =>
          rw [hregular] at h
          exact ⟨⟨s.trimmed.frequency, first, last⟩, regular, ⟨rfl, hfirst, hlast, hregular⟩,
            (Except.ok.inj h).symm⟩
      · cases h
    · rintro ⟨⟨f, first, last⟩, regular, hfiling, rfl⟩
      rw [hfiling.start, hfiling.finish]
      simp only [hfiling.regular]
      rw [← show f = s.trimmed.frequency from hfiling.frequency]
      rfl

/-- The only other fault of joining a series with values is a grid that leaves the calendar. -/
theorem joinSeries_eq_error {s : Series} {fault : Fault} (hfree : st.series.find? name = none)
    (hs : Increasing s.index) (hvalid : s.valid ≠ []) (h : st.joinSeries name s = .error fault) :
    fault = .outOfRange := by
  rcases s.firstValid?_lastValid?_cases with ⟨hnil, -⟩ | ⟨-, first, last, hfirst, hlast⟩
  · exact absurd hnil hvalid
  rw [← TimeSeries.firstValid?_trimmed hs] at hfirst
  rw [← TimeSeries.lastValid?_trimmed hs] at hlast
  cases hregular : s.trimmed.regularized s.trimmed.frequency with
  | error cause =>
    simp only [joinSeries, OrderedMap.contains_eq, hfree, hfirst, hlast, hregular, bind, Except.bind,
      Option.isSome_none, Bool.false_eq_true, if_false] at h
    rw [← Except.error.inj h]
    exact TimeSeries.regularized_eq_error hregular
  | ok regular =>
    have hjoin := joinSeries_eq_ok.mpr ⟨hfree, ⟨s.trimmed.frequency, first, last⟩, regular,
      ⟨rfl, hfirst, hlast, hregular⟩, rfl⟩
    rw [hjoin] at h
    cases h

theorem find?_frames_filed (st : Store) (name : EntityName) (r : SeriesRecord) (regular : Series)
    (code : String) :
    (st.filed name r regular).frames.find? code =
      if code = r.frequency.code then some ((st.frameOf r.frequency.code).join name regular)
      else st.frames.find? code :=
  OrderedMap.find?_insert _ _ _ _

/-- After filing, a frame is the one that got the series or was there before. -/
theorem frame_of_filed {code : String} {f : Frame}
    (hf : (st.filed name r regular).frames.find? code = some f) :
    f = (st.frameOf r.frequency.code).join name regular ∨ st.frames.find? code = some f := by
  rw [find?_frames_filed] at hf
  split at hf
  · exact .inl (Option.some.inj hf).symm
  · exact .inr hf

theorem find?_series_filed (st : Store) (name other : EntityName) (r : SeriesRecord)
    (regular : Series) :
    (st.filed name r regular).series.find? other =
      if other = name then some r else st.series.find? other :=
  OrderedMap.find?_insert _ _ _ _

/-- The index that a frame has after a regular series was filed in it. -/
def wideIndex (st : Store) (code : String) (regular : Series) : List Timestamp :=
  (st.frameOf code).wide regular

/-- Filing spreads all columns of the frame; other frames stay as they are. -/
theorem points?_filed (hframe : (st.frameOf r.frequency.code).Consistent)
    (hs : Increasing regular.index) (code : String) :
    (st.filed name r regular).points? code other =
      if code = r.frequency.code then
        if other = name then some (regular.spread (st.wideIndex code regular)).points
        else (st.points? code other).map fun ps =>
          (TimeSeries.spread ⟨ps⟩ (st.wideIndex code regular)).points
      else st.points? code other := by
  by_cases hcode : code = r.frequency.code
  · subst hcode
    rw [if_pos rfl, points?_eq_frameOf st, points?, find?_frames_filed, if_pos rfl,
      Option.bind_some, hframe.column?_join name other hs]
    rfl
  · rw [if_neg hcode, points?, find?_frames_filed, if_neg hcode]
    rfl

/-! ## Reading -/

theorem record_eq_ok : st.record name = .ok r ↔ st.series.find? name = some r := by
  unfold record
  cases st.series.find? name <;> simp

/-- A recorded series with a column in its frame is read: a stretch of the column. -/
theorem getSeries_eq {ps : List (Timestamp × Option Double)}
    (hr : st.series.find? name = some r) (hps : st.points? r.frequency.code name = some ps)
    (hi : Increasing (ps.map Prod.fst)) : st.getSeries name = .ok (r.cut ps) := by
  simp only [points?] at hps
  unfold getSeries
  rw [record_eq_ok.mpr hr]
  simp only [bind, Except.bind, hps]
  exact TimeSeries.ofOrdered_eq_ok.mpr ⟨r.increasing_cut hi, rfl⟩

/-- What is read increases in time. -/
theorem increasing_getSeries {s : Series} (h : st.getSeries name = .ok s) : Increasing s.index := by
  unfold getSeries at h
  cases hr : st.record name with
  | error fault =>
    rw [hr] at h
    cases h
  | ok r =>
    rw [hr] at h
    simp only [bind, Except.bind] at h
    split at h
    · cases h
    · obtain ⟨hi, rfl⟩ := TimeSeries.ofOrdered_eq_ok.mp h
      exact hi

/-- What is read depends on the record and the column only. -/
theorem getSeries_congr (hr : st'.series.find? name = st.series.find? name)
    (hps : ∀ r, st.series.find? name = some r →
      st'.points? r.frequency.code name = st.points? r.frequency.code name) :
    st'.getSeries name = st.getSeries name := by
  have hrecord : st'.record name = st.record name := by
    rw [record, record, hr]
  unfold getSeries
  rw [hrecord]
  cases hst : st.record name with
  | error fault => rfl
  | ok r =>
    have hpoints := hps r (record_eq_ok.mp hst)
    simp only [points?] at hpoints
    simp only [bind, Except.bind, hpoints]

/-! ## Erasing -/

/-- The store without the column and the record of a series. -/
def unfiled (st : Store) (name : EntityName) (r : SeriesRecord) : Store :=
  { st with
    frames := match st.frames.find? r.frequency.code with
      | none => st.frames
      | some frame =>
        if (frame.drop name).columns.isEmpty then st.frames.erase r.frequency.code
        else st.frames.insert r.frequency.code (frame.drop name)
    series := st.series.erase name }

/-- A series is erased if it is there. -/
theorem eraseSeries_eq_ok :
    st.eraseSeries name = .ok st' ↔
      ∃ r, st.series.find? name = some r ∧ st' = st.unfiled name r := by
  unfold eraseSeries record
  cases st.series.find? name with
  | none => simp [bind, Except.bind]
  | some r =>
    simp only [bind, Except.bind, pure, Except.pure, Except.ok.injEq, Option.some.injEq,
      exists_eq_left']
    exact eq_comm

theorem find?_series_unfiled (st : Store) (name other : EntityName) (r : SeriesRecord) :
    (st.unfiled name r).series.find? other = if other = name then none else st.series.find? other :=
  OrderedMap.find?_erase _ _ _

/-- The frame of an erased series stays, without its column, as long as it has other columns. -/
theorem find?_frames_unfiled (st : Store) (name : EntityName) (r : SeriesRecord) (code : String) :
    (st.unfiled name r).frames.find? code =
      if code = r.frequency.code then
        ((st.frames.find? code).map (·.drop name)).filter fun frame => !frame.columns.isEmpty
      else st.frames.find? code := by
  unfold unfiled
  by_cases hcode : code = r.frequency.code
  · subst hcode
    cases hframe : st.frames.find? r.frequency.code with
    | none => simp [hframe]
    | some frame =>
      cases hempty : (frame.drop name).columns.isEmpty with
      | true => simp [hempty, OrderedMap.find?_erase, Option.filter]
      | false => simp [hempty, OrderedMap.find?_insert, Option.filter]
  · cases st.frames.find? r.frequency.code with
    | none => simp [hcode]
    | some frame =>
      cases hempty : (frame.drop name).columns.isEmpty with
      | true => simp [hempty, hcode, OrderedMap.find?_erase]
      | false => simp [hempty, hcode, OrderedMap.find?_insert]

/-- After erasing, a frame was there before or is what is left of one. -/
theorem frame_of_unfiled {code : String} {f : Frame}
    (hf : (st.unfiled name r).frames.find? code = some f) :
    st.frames.find? code = some f ∨
      ∃ f', st.frames.find? code = some f' ∧ f'.drop name = f ∧ f.columns.isEmpty = false := by
  rw [find?_frames_unfiled] at hf
  split at hf
  · obtain ⟨hmap, hcolumns⟩ := Option.filter_eq_some_iff.mp hf
    obtain ⟨f', hf', rfl⟩ := Option.map_eq_some_iff.mp hmap
    exact .inr ⟨f', hf', rfl, by simpa using hcolumns⟩
  · exact .inl hf

/-- Erasing a series leaves the columns of the others as they are. -/
theorem points?_unfiled (r : SeriesRecord) (code : String) :
    (st.unfiled name r).points? code other =
      if code = r.frequency.code ∧ other = name then none else st.points? code other := by
  unfold points?
  rw [find?_frames_unfiled]
  by_cases hcode : code = r.frequency.code
  · cases hframe : st.frames.find? code with
    | none => simp
    | some frame =>
      have hdrop := frame.column?_drop name other
      cases hempty : (frame.drop name).columns.isEmpty with
      | true =>
        -- An empty frame has no column for any name.
        have hnone : (frame.drop name).column? other = none := by
          rw [Frame.column?, OrderedMap.isEmpty_iff.mp hempty other]
          rfl
        rw [hnone] at hdrop
        simp only [hcode, if_true, true_and, Option.map_some, Option.filter_some, hempty,
          Bool.not_true, Bool.false_eq_true, if_false, Option.bind_none, Option.bind_some]
        exact hdrop
      | false =>
        simp only [hcode, if_true, true_and, Option.map_some, Option.filter_some, hempty,
          Bool.not_false, Option.bind_some]
        exact hdrop
  · rw [if_neg hcode, if_neg fun h => hcode h.1]

/-- Erasing a series leaves what is read of the others as it is. -/
theorem getSeries_unfiled (r : SeriesRecord) (h : other ≠ name) :
    (st.unfiled name r).getSeries other = st.getSeries other := by
  refine getSeries_congr ?_ fun q _ => ?_
  · rw [find?_series_unfiled, if_neg h]
  · rw [points?_unfiled, if_neg fun hc => h hc.2]

end Store

end Hydroseries
