import Hydroseries.Proofs.Store.History

/-!
# Joining and reading back

A series whose times are whole seconds loses nothing between joining and reading: not by trimming,
not on the grid of its inferred frequency, and not in a frame that it shares with others. A series
is refused only if its name is taken or it has no value, and then the store stays as it was.
-/

namespace Hydroseries.Store

variable {st : Store} {name : EntityName} {s : Series} {last : EntityName → Option Series}

/-- The last moment of a trimmed series is that of its last value. -/
theorem getLast?_trimmed (hs : Increasing s.index) {finish t : Timestamp}
    (hfinish : s.lastValid? = some finish) (ht : s.trimmed.index.getLast? = some t) :
    t = finish := by
  have htrimmed := TimeSeries.increasing_trimmed hs
  rw [← TimeSeries.lastValid?_trimmed hs] at hfinish
  have hmem : finish ∈ s.trimmed.index := by
    rw [TimeSeries.getLast?_valid_map] at hfinish
    exact s.trimmed.valid_map_fst_sublist.mem (List.mem_of_getLast? hfinish)
  obtain ⟨o, ho⟩ := TimeSeries.mem_index.mp (List.mem_of_getLast? ht)
  rcases s.firstValid?_lastValid?_cases with ⟨-, -, hnone⟩ | ⟨-, first, last, hfirst, hlast⟩
  · rw [TimeSeries.lastValid?_trimmed hs, hnone] at hfinish
    cases hfinish
  · rw [TimeSeries.lastValid?_trimmed hs, hlast, Option.some.injEq] at hfinish
    subst hfinish
    exact le_antisymm (TimeSeries.trimmed_bounds hfirst hlast t (List.mem_of_getLast? ht)).2
      (htrimmed.le_of_getLast? ht _ hmem)

/-- A series with values is filed if the calendar has room for one step more. -/
theorem exists_filing (hs : Increasing s.index) (hvalid : s.valid ≠ [])
    (hcal : ∀ t ∈ s.index, t.date.inCalendar = true)
    (hroom : ∀ t, s.lastValid? = some t → s.trimmed.frequency.HasRoom t) :
    ∃ r regular, Filing s r regular := by
  rcases s.firstValid?_lastValid?_cases with ⟨hnil, -⟩ | ⟨-, first, finish, hfirst, hfinish⟩
  · exact absurd hnil hvalid
  · obtain ⟨regular, hregular⟩ := TimeSeries.regularized_isOk (s := s.trimmed)
      (Frequency.infer_proper s.trimmed.index)
      (fun t ht => hcal t (TimeSeries.mem_index_of_mem_trimmed ht))
      (fun t ht => getLast?_trimmed hs hfinish ht ▸ hroom finish hfinish)
    exact ⟨⟨s.trimmed.frequency, first, finish⟩, regular, rfl,
      (TimeSeries.firstValid?_trimmed hs).trans hfirst,
      (TimeSeries.lastValid?_trimmed hs).trans hfinish, hregular⟩

/-- A series of whole seconds is read as it was joined, as long as it is kept. -/
theorem Keeps.getSeries_of_whole (hk : st.Keeps name s) (hst : st.Aligned)
    (hwhole : ∀ t ∈ s.index, t.nanosecond = 0) (hcal : ∀ t ∈ s.index, t.date.inCalendar = true) :
    ∃ a, st.getSeries name = .ok a ∧ a.valid = s.valid := by
  obtain ⟨regular, a, hregular, ha, hread⟩ := hk.getSeries hst
  refine ⟨a, ha, hread.trans ?_⟩
  rw [TimeSeries.valid_regularized (TimeSeries.increasing_trimmed hk.1)
    (fun t ht => hwhole t (TimeSeries.mem_index_of_mem_trimmed ht))
    (fun t ht => hcal t (TimeSeries.mem_index_of_mem_trimmed ht)) hregular,
    TimeSeries.valid_trimmed hk.1]

theorem Aligned.of_join {st' : Store} (hst : st.Aligned) (hs : Increasing s.index)
    (hjoin : st.joinSeries name s = .ok st') : st'.Aligned :=
  aligned_of_changes (Changes.refl.join (List.mem_singleton.mpr rfl) hs hjoin) hst

/-- Under a free name, a series of whole seconds is joined if the calendar has room for one step more,
and is then read as it was joined. -/
theorem Aligned.exists_join (hst : st.Aligned) (hfree : st.series.find? name = none)
    (hs : Increasing s.index) (hvalid : s.valid ≠ []) (hwhole : ∀ t ∈ s.index, t.nanosecond = 0)
    (hcal : ∀ t ∈ s.index, t.date.inCalendar = true)
    (hroom : ∀ t, s.lastValid? = some t → s.trimmed.frequency.HasRoom t) :
    ∃ st' a, st.joinSeries name s = .ok st' ∧ st'.getSeries name = .ok a ∧ a.valid = s.valid := by
  obtain ⟨r, regular, hfiling⟩ := exists_filing hs hvalid hcal hroom
  have hjoin : st.joinSeries name s = .ok (st.filed name r regular) :=
    joinSeries_eq_ok.mpr ⟨hfree, r, regular, hfiling, rfl⟩
  obtain ⟨a, ha, hread⟩ := (keeps_of_join hst hs hjoin).getSeries_of_whole
    (hst.of_join hs hjoin) hwhole hcal
  exact ⟨_, a, hjoin, ha, hread⟩

/-- A series of whole seconds that lie in the calendar, one step before its end at the latest, can
be joined under every free name if it has a value, and is then read with the same values. Under a
name that is taken, or without values, it is refused and the store is left as it was. -/
theorem join_reads_back (h : History st last) (hs : Increasing s.index)
    (hcal : ∀ t ∈ s.index, t.date.inCalendar = true) :
    (st.series.contains name = false → s.valid ≠ [] → (∀ t ∈ s.index, t.nanosecond = 0) →
      (∀ t, s.lastValid? = some t → s.trimmed.frequency.HasRoom t) →
      (Call.join name s).result st = .ok () ∧
        ∃ a, ((Call.join name s).after st).getSeries name = .ok a ∧ a.valid = s.valid) ∧
    (st.series.contains name = true ∨ s.valid = [] →
      ∃ fault, (Call.join name s).result st = .error fault ∧ (Call.join name s).after st = st) := by
  simp only [Call.result, Call.after, Call.update, exec_make, OrderedMap.contains_eq]
  constructor
  · intro hfree hvalid hwhole hroom
    obtain ⟨r, regular, hfiling⟩ := exists_filing hs hvalid hcal hroom
    have hjoin : st.joinSeries name s = .ok (st.filed name r regular) :=
      joinSeries_eq_ok.mpr ⟨by simpa using hfree, r, regular, hfiling, rfl⟩
    obtain ⟨hst, hstored⟩ : st.Aligned ∧ (st.filed name r regular).Keeps name s :=
      ⟨h.aligned, keeps_of_join h.aligned hs hjoin⟩
    obtain ⟨regular', a, hregular, ha, hread⟩ := hstored.getSeries
      (hst.filed (by simpa using hfree) hs hfiling)
    rw [hjoin]
    refine ⟨rfl, a, ha, hread.trans ?_⟩
    rw [TimeSeries.valid_regularized (TimeSeries.increasing_trimmed hs)
      (fun t ht => hwhole t (TimeSeries.mem_index_of_mem_trimmed ht))
      (fun t ht => hcal t (TimeSeries.mem_index_of_mem_trimmed ht)) hregular,
      TimeSeries.valid_trimmed hs]
  · intro hrefuse
    cases hjoin : st.joinSeries name s with
    | error fault => exact ⟨fault, rfl, rfl⟩
    | ok st' =>
      obtain ⟨hfree, r, regular, hfiling, -⟩ := joinSeries_eq_ok.mp hjoin
      rcases hrefuse with htaken | hnil
      · rw [hfree] at htaken
        cases htaken
      · exact absurd hnil hfiling.valid_ne_nil

theorem hasRoom_noons (t : Timestamp) (ht : (zeroSeries 43200000000000 2).lastValid? = some t) :
    (zeroSeries 43200000000000 2).trimmed.frequency.HasRoom t := by
  have hlast : (zeroSeries 43200000000000 2).lastValid? = some (.ofDate ⟨1⟩ 43200000000000) := by
    decide +kernel
  have hdaily : (zeroSeries 43200000000000 2).trimmed.frequency = .fixed 86400 := by
    decide +kernel
  obtain rfl := Option.some.inj (hlast.symm.trans ht)
  rw [hdaily]
  show (Timestamp.plus? _ _).isSome = true
  decide +kernel

theorem join_reads_back_noons :
    noons.result (midnights.after empty) = .ok () ∧
      ∃ a, (noons.after (midnights.after empty)).getSeries ⟨"FLOW"⟩ = .ok a ∧
        a.valid = (zeroSeries 43200000000000 2).valid :=
  (join_reads_back history_midnights (increasing_zeroSeries 43200000000000 2)
    (by decide +kernel)).1 (by decide +kernel) (by decide +kernel) (by decide +kernel)
    hasRoom_noons

end Hydroseries.Store
