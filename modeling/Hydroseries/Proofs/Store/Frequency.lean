import Hydroseries.Proofs.Series.Reinference
import Hydroseries.Proofs.Store.Refiling

/-!
# The frequency of what is read

A series that is read has the frequency that its moments have then, which need not be the recorded
one. It is just if the frame, between the ends of the series, has no other moments than the grid of
the series or, for an irregular series, if the moments of the values alone are irregular too
(`frequency_of_history`).

The series of one frame have one recorded frequency, as different frequencies have different codes
(`frequency_of_frame`).
-/

namespace Hydroseries

variable {s regular : Series} {r : SeriesRecord}

/-- Without missing points, the moments of a series are those of its values. -/
theorem TimeSeries.index_of_forall_isSome {s : Series} (h : ∀ p ∈ s.points, p.2.isSome) :
    s.index = s.valid.map Prod.fst := by
  obtain ⟨points⟩ := s
  simp only [index, valid] at *
  induction points with
  | nil => rfl
  | cons p points ih =>
    obtain ⟨hp, hpoints⟩ := List.forall_mem_cons.mp h
    obtain ⟨v, hv⟩ := Option.isSome_iff_exists.mp hp
    simp [hv, ih hpoints]

namespace Filing

/-- Of an irregular series, what is filed has its values. -/
theorem valid_of_irregular (h : Filing s r regular) (hs : Increasing s.index)
    (hirr : r.frequency = .irregular) : regular.valid = s.valid := by
  have hregular := h.regular
  rw [← h.frequency, hirr] at hregular
  rcases TimeSeries.regularized_eq s.trimmed .irregular with ⟨hself, -⟩ | ⟨hne, -⟩
  · rw [hself] at hregular
    rw [← Except.ok.inj hregular, TimeSeries.valid_trimmed hs]
  · exact absurd rfl hne

/-- The moments of what is filed are the grid between the recorded ends. -/
theorem grid_index (h : Filing s r regular) (hs : Increasing s.index)
    (hgrid : r.frequency ≠ .irregular) :
    r.frequency.grid r.start r.finish = .ok regular.index := by
  obtain ⟨grid, hg, rfl⟩ := h.eq_spread hs hgrid
  rw [hg, TimeSeries.index_spread]

theorem trimmed_spans (h : Filing s r regular) (hs : Increasing s.index) :
    s.trimmed.Spans r.start r.finish :=
  have hdesc := SeriesRecord.Describes.of_filing hs h
  TimeSeries.spans_trimmed hs hdesc.start hdesc.finish

/-- The moments of what is filed have the recorded frequency. -/
theorem infer_index (h : Filing s r regular) (hs : Increasing s.index)
    (hgrid : r.frequency ≠ .irregular) : Frequency.infer regular.index = r.frequency := by
  have hspans := h.trimmed_spans hs
  have hg := h.grid_index hs hgrid
  rw [h.frequency] at hg hgrid ⊢
  exact Frequency.infer_of_grid (TimeSeries.increasing_trimmed hs) hspans.head hspans.last hgrid hg

/-- Moments between the recorded ends that have the whole grid and the recorded frequency are the
grid. -/
theorem eq_index_of_infer (h : Filing s r regular) (hs : Increasing s.index)
    (hgrid : r.frequency ≠ .irregular) {index : List Timestamp} (hindex : Increasing index)
    (hbounds : ∀ t ∈ index, r.start ≤ t ∧ t ≤ r.finish) (hsub : regular.index ⊆ index)
    (hinfer : Frequency.infer index = r.frequency) : index = regular.index := by
  have hspans := h.trimmed_spans hs
  have hg := h.grid_index hs hgrid
  have hregular := h.increasing hs
  rw [h.frequency] at hg hgrid hinfer
  have hsub' := Frequency.subset_grid_of_infer (TimeSeries.increasing_trimmed hs) hspans.head
    hspans.last hgrid hg hindex hbounds hsub hinfer
  exact List.Pairwise.eq_of_mem_iff hindex hregular fun t => ⟨fun ht => hsub' ht, fun ht => hsub ht⟩

end Filing

namespace Store

variable {st : Store} {name target : EntityName} {last : EntityName → Option Series}

/-- Reading `s`, of which `regular` was filed, finds the recorded frequency again: between its ends
its frame has no moments off its own grid; and if it is irregular, so are the moments of its
values. -/
def KeepsFrequency (st : Store) (s : Series) (r : SeriesRecord) (regular : Series) : Prop :=
  if r.frequency = .irregular then Frequency.infer (s.valid.map Prod.fst) = .irregular
  else ∀ t ∈ (st.frameOf r.frequency.code).index, r.start ≤ t → t ≤ r.finish → t ∈ regular.index

/-- What is read of a series that is not irregular has the moments of the frame between the recorded
ends. -/
theorem Aligned.mem_index_cut (h : st.Aligned) {ps : List (Timestamp × Option Double)}
    (hps : st.points? r.frequency.code name = some ps) (hgrid : r.frequency ≠ .irregular)
    {t : Timestamp} : t ∈ (r.cut ps).index ↔
      t ∈ (st.frameOf r.frequency.code).index ∧ r.start ≤ t ∧ t ≤ r.finish := by
  rw [← h.map_fst_points? hps, TimeSeries.mem_index]
  constructor
  · rintro ⟨o, ho⟩
    obtain ⟨hmem, hbounds, -⟩ := SeriesRecord.mem_cut.mp ho
    exact ⟨List.mem_map.mpr ⟨_, hmem, rfl⟩, hbounds⟩
  · rintro ⟨hmem, hbounds⟩
    obtain ⟨⟨_, o⟩, hpoint, rfl⟩ := List.mem_map.mp hmem
    exact ⟨o, SeriesRecord.mem_cut.mpr ⟨hpoint, hbounds, fun hirr => absurd hirr hgrid⟩⟩

theorem History.frequency_cut (h : History st last) (hr : st.series.find? name = some r)
    (hs : Increasing s.index) (hfiling : Filing s r regular)
    {ps : List (Timestamp × Option Double)} (hps : st.points? r.frequency.code name = some ps)
    (hvalid : (r.cut ps).valid = regular.valid) :
    (r.cut ps).frequency = r.frequency ↔ st.KeepsFrequency s r regular := by
  have hi := r.increasing_cut (h.aligned.increasing_points? hps)
  unfold KeepsFrequency
  split
  next hirr =>
    have hsome : ∀ p ∈ (r.cut ps).points, p.2.isSome := fun p hp =>
      (SeriesRecord.mem_cut.mp hp).2.2 hirr
    rw [TimeSeries.frequency, TimeSeries.index_of_forall_isSome hsome, hvalid,
      hfiling.valid_of_irregular hs hirr, hirr]
  next hgrid =>
    have hmem := fun t => h.aligned.mem_index_cut hps hgrid (t := t)
    have hsub : regular.index ⊆ (r.cut ps).index := by
      intro t ht
      refine (hmem t).mpr ⟨?_, hfiling.bounds hs t ht⟩
      exact h.covered name r _ hr hgrid (hfiling.grid_index hs hgrid) ht
    constructor
    · intro hinfer t ht hstart hfinish
      rw [← hfiling.eq_index_of_infer hs hgrid hi (fun t ht => ((hmem t).mp ht).2) hsub hinfer]
      exact (hmem t).mpr ⟨ht, hstart, hfinish⟩
    · intro hkeeps
      have hindex : (r.cut ps).index = regular.index := by
        refine List.Pairwise.eq_of_mem_iff hi (hfiling.increasing hs) fun t => ?_
        refine ⟨fun ht => ?_, fun ht => hsub ht⟩
        obtain ⟨hframe, hstart, hfinish⟩ := (hmem t).mp ht
        exact hkeeps t hframe hstart hfinish
      rw [TimeSeries.frequency, hindex]
      exact hfiling.infer_index hs hgrid

/-- What is read begins with the first value, so only its end can be trimmed. -/
theorem trimmed_cut (hs : Increasing s.index) (hfiling : Filing s r regular)
    {ps : List (Timestamp × Option Double)} (hvalid : (r.cut ps).valid = regular.valid)
    (hfinish : (r.cut ps).lastValid? = some r.finish) : (r.cut ps).trimmed = r.cut ps := by
  have hregular := hfiling.increasing hs
  have hstart : (r.cut ps).firstValid? = some r.start := by
    obtain ⟨v, hv⟩ := hfiling.start_mem_regular hs
    have hmem : r.start ∈ regular.valid.map Prod.fst := List.mem_map.mpr ⟨_, hv, rfl⟩
    rw [TimeSeries.head?_valid_map, hvalid, List.head?_eq_some_head (List.ne_nil_of_mem hmem),
      Option.some.injEq]
    have hhead := List.head?_eq_some_head (List.ne_nil_of_mem hmem)
    have hin := regular.valid_map_fst_sublist.mem (List.head_mem (List.ne_nil_of_mem hmem))
    exact le_antisymm ((TimeSeries.increasing_valid hregular).le_of_head? hhead _ hmem)
      (hfiling.bounds hs _ hin).1
  rw [TimeSeries.trimmed_of_valid hstart hfinish, TimeSeries.between, TimeSeries.filterTime]
  refine congrArg TimeSeries.mk (List.filter_eq_self.mpr fun p hp => ?_)
  obtain ⟨-, ⟨hlow, hhigh⟩, -⟩ := SeriesRecord.mem_cut.mp hp
  simp [hlow, hhigh]

/-- Whatever calls were made: a recorded series is read with its recorded frequency just if its
frame, between its ends, has no moments but those of its own grid and, if it is irregular, the
moments of its values are. A copy is filed under the frequency that is read, unless the last value
was lost when the series was filed. -/
theorem frequency_of_history (h : History st last) (hr : st.series.find? name = some r) :
    ∃ s regular a, last name = some s ∧ Filing s r regular ∧ st.getSeries name = .ok a ∧
      (a.frequency = r.frequency ↔ st.KeepsFrequency s r regular) ∧
      (a.lastValid? = some r.finish → ∀ target st',
        st.duplicate .series name target = .ok st' →
          ∃ q, st'.series.find? target = some q ∧ q.frequency = a.frequency) := by
  obtain ⟨s, hlast, hs, q, regular, ps, hfiling, hq, hps, hcolumn⟩ := h.tracks name r hr
  obtain rfl := Option.some.inj (hr.symm.trans hq)
  have hvalid := (h.valid_cut hr hps).1.trans hcolumn
  have hread := h.aligned.getSeries hr hps
  refine ⟨s, regular, r.cut ps, hlast, hfiling, hread,
    h.frequency_cut hr hs hfiling hps hvalid, fun hfinish target st' hcopy => ?_⟩
  have hjoin : st.joinSeries target (r.cut ps) = .ok st' := by
    rwa [duplicate, hread] at hcopy
  obtain ⟨-, q, regular', hfiling', rfl⟩ := joinSeries_eq_ok.mp hjoin
  refine ⟨q, by rw [find?_series_filed, if_pos rfl], ?_⟩
  rw [hfiling'.frequency, trimmed_cut hs hfiling hvalid hfinish]

theorem frequency_of_midnights : ∃ r s regular a,
    (midnights.after empty).series.find? ⟨"STAGE"⟩ = some r ∧ Filing s r regular ∧
      (midnights.after empty).getSeries ⟨"STAGE"⟩ = .ok a ∧ a.frequency = .fixed 86400 ∧
      (midnights.after empty).KeepsFrequency s r regular := by
  have hr : (midnights.after empty).series.find? ⟨"STAGE"⟩ =
    some ⟨.fixed 86400, .ofDate ⟨0⟩ 0, .ofDate ⟨2⟩ 0⟩ := by decide +kernel
  have hread : ((midnights.after empty).getSeries ⟨"STAGE"⟩).toOption.map TimeSeries.frequency =
    some (.fixed 86400) := by decide +kernel
  obtain ⟨s, regular, a, -, hfiling, ha, hkeeps, -⟩ := frequency_of_history history_midnights hr
  rw [ha] at hread
  have hfrequency := Option.some.inj hread
  exact ⟨_, s, regular, a, hr, hfiling, ha, hfrequency, hkeeps.mp hfrequency⟩

/-- A series of midnights is recorded as daily, and read as half-daily once a series of noons was
joined. -/
theorem midnights_read_half_daily :
    let st := noons.after (midnights.after empty)
    History st (lastJoined (lastJoined (fun _ => none) (midnights.joined empty).toList)
        (noons.joined (midnights.after empty)).toList) ∧
      (st.series.find? ⟨"STAGE"⟩).map SeriesRecord.frequency = some (.fixed 86400) ∧
      (st.getSeries ⟨"STAGE"⟩).toOption.map TimeSeries.frequency = some (.fixed 43200) :=
  ⟨history_midnights.call noons (increasing_zeroSeries 43200000000000 2), by decide +kernel⟩

/-- Values two days apart, and a missing one between them that is a second late. -/
def lateGap : Call :=
  .join ⟨"STAGE"⟩ ⟨[(.ofDate ⟨0⟩ 0, some ⟨0⟩), (.ofDate ⟨1⟩ 1000000000, none),
    (.ofDate ⟨2⟩ 0, some ⟨0⟩)]⟩

-- An irregular series is read without its missing points, and may then have a fixed step.
example : ((lateGap.after empty).series.find? ⟨"STAGE"⟩).map SeriesRecord.frequency =
      some .irregular ∧
    ((lateGap.after empty).getSeries ⟨"STAGE"⟩).toOption.map TimeSeries.frequency =
      some (.fixed 172800) := by
  decide +kernel

/-! ## One frequency for each frame -/

/-- A column of a frame belongs to a series that was filed under the code of the frame. -/
theorem History.filed_of_column (h : History st last) {e : String × Frame}
    (he : e ∈ st.frames.entries) {c : EntityName × List (Option Double)}
    (hc : c ∈ e.2.columns.entries) :
    ∃ r s, st.series.find? c.1 = some r ∧ r.frequency.code = e.1 ∧ last c.1 = some s ∧
      r.frequency = s.trimmed.frequency := by
  have hf := OrderedMap.find?_of_mem h.aligned.nodup_frames he
  have hcolumn := OrderedMap.find?_of_mem (h.aligned.consistent hf).nodup hc
  obtain ⟨r, hr, hcode⟩ := (h.aligned.isSome_column he c.1).mp (by rw [hcolumn]; rfl)
  obtain ⟨s, hs, -, q, _, _, hfiling, hq, -⟩ := h.tracks c.1 r hr
  obtain rfl := Option.some.inj (hr.symm.trans hq)
  exact ⟨r, s, hr, hcode, hs, hfiling.frequency⟩

/-- Moments of different frequencies have different codes. So, whatever calls were made, all series
in a frame have one frequency: it is recorded for each of them, it is that of the series that was last
joined under its name, and the frame has its code. -/
theorem frequency_of_frame :
    (∀ i j : List Timestamp, (Frequency.infer i).code = (Frequency.infer j).code →
      Frequency.infer i = Frequency.infer j) ∧
    ∀ {st : Store} {last : EntityName → Option Series}, History st last →
      ∀ e ∈ st.frames.entries, ∃ f : Frequency, f.code = e.1 ∧ ∀ c ∈ e.2.columns.entries,
        ∃ r s, st.series.find? c.1 = some r ∧ r.frequency = f ∧ last c.1 = some s ∧
          s.trimmed.frequency = f := by
  have hinfer : ∀ i j : List Timestamp, (Frequency.infer i).code = (Frequency.infer j).code →
      Frequency.infer i = Frequency.infer j := fun i j =>
    Frequency.code_injective (Frequency.infer_proper i) (Frequency.infer_proper j)
  refine ⟨hinfer, fun {st last} h e he => ?_⟩
  -- No frame is without a column, and any column tells the frequency.
  obtain ⟨c, hc⟩ : ∃ c, c ∈ e.2.columns.entries :=
    List.exists_mem_of_ne_nil _ (h.aligned.filedOnce.frame e he).2.1
  obtain ⟨r, s, -, hcode, -, hfrequency⟩ := h.filed_of_column he hc
  refine ⟨r.frequency, hcode, fun c' hc' => ?_⟩
  obtain ⟨r', s', hr', hcode', hs', hfrequency'⟩ := h.filed_of_column he hc'
  have hsame : r'.frequency = r.frequency := by
    rw [hfrequency, hfrequency']
    refine hinfer _ _ ?_
    show s'.trimmed.frequency.code = s.trimmed.frequency.code
    rw [← hfrequency, ← hfrequency', hcode, hcode']
  exact ⟨r', s', hr', hsame, hs', hfrequency'.symm.trans hsame⟩

theorem frequency_of_shared_frame :
    let st := noons.after (midnights.after empty)
    Frequency.infer (zeroSeries 0 3).index =
        Frequency.infer (zeroSeries 43200000000000 2).index ∧
      st.frames.entries.map (fun e => (e.1, e.2.columns.keys)) =
        [("D", [⟨"STAGE"⟩, ⟨"FLOW"⟩])] ∧
      ∀ e ∈ st.frames.entries, ∃ f : Frequency, f.code = e.1 ∧ ∀ c ∈ e.2.columns.entries,
        ∃ r, st.series.find? c.1 = some r ∧ r.frequency = f := by
  refine ⟨frequency_of_frame.1 _ _ (by decide +kernel), by decide +kernel, fun e he => ?_⟩
  obtain ⟨f, hf, hcolumns⟩ := frequency_of_frame.2
    (history_midnights.call noons (increasing_zeroSeries 43200000000000 2)) e he
  refine ⟨f, hf, fun c hc => ?_⟩
  obtain ⟨r, -, hr, hfrequency, -⟩ := hcolumns c hc
  exact ⟨r, hr, hfrequency⟩

end Store

end Hydroseries
