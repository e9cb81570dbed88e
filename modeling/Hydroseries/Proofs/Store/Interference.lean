import Hydroseries.Proofs.Store.History

/-!
# What a call does to the series that it does not name

The values and the record of such a series stay as they are, but it shares an index with all series
of its frequency code. A call that joins a series of that code with a moment of its own, inside the
stretch of the other, gives the other a gap there (`read_after_call`). No call takes such a gap away
again. Irregular series are spared, since reading them leaves all gaps out.
-/

namespace Hydroseries.Store

variable {st : Store} {name : EntityName} {r : SeriesRecord} {last : EntityName → Option Series}
  {ps : List (Timestamp × Option Double)} {index : List Timestamp}

/-- A call gives the series with record `r`, read as `s`, a gap at `t`: it joins a series that is
filed under the same code and has a moment there. -/
structure BringsGap (c : Call) (st : Store) (r : SeriesRecord) (s : Series) (t : Timestamp) :
    Prop where
  regular : r.frequency ≠ .irregular
  inside : r.start ≤ t ∧ t ≤ r.finish
  fresh : t ∉ s.index
  brought : ∃ j ∈ (c.joined st).toList, Brings r.frequency.code j.2 t

/-- Cutting a spread column: the points of the cut column, and gaps at the other moments. -/
theorem mem_cut_spread (hps : Increasing (ps.map Prod.fst)) (hsub : ps.map Prod.fst ⊆ index)
    {t : Timestamp} {o : Option Double} :
    (t, o) ∈ (r.cut (TimeSeries.spread ⟨ps⟩ index).points).points ↔
      (t, o) ∈ (r.cut ps).points ∨ o = none ∧ r.frequency ≠ .irregular ∧
        (r.start ≤ t ∧ t ≤ r.finish) ∧ t ∈ index ∧ t ∉ (r.cut ps).index := by
  rw [SeriesRecord.mem_cut, SeriesRecord.mem_cut, TimeSeries.mem_spread]
  constructor
  · rintro ⟨⟨ht, rfl⟩, hinside, hsome⟩
    by_cases hold : t ∈ ps.map Prod.fst
    · obtain ⟨o, ho⟩ := TimeSeries.mem_index.mp (show t ∈ TimeSeries.index ⟨ps⟩ from hold)
      rw [TimeSeries.valueAt?_of_mem hps ho] at hsome ⊢
      exact .inl ⟨ho, hinside, hsome⟩
    · have hnone := TimeSeries.valueAt?_of_notMem (s := ⟨ps⟩) hold
      rw [hnone] at hsome ⊢
      refine .inr ⟨rfl, fun hirr => ?_, hinside, ht, fun hcut => ?_⟩
      · cases hsome hirr
      · obtain ⟨o, ho⟩ := TimeSeries.mem_index.mp hcut
        exact hold (List.mem_map_of_mem (SeriesRecord.mem_cut.mp ho).1)
  · rintro (⟨hmem, hinside, hsome⟩ | ⟨rfl, hreg, hinside, ht, hfresh⟩)
    · exact ⟨⟨hsub (List.mem_map_of_mem hmem), TimeSeries.valueAt?_of_mem hps hmem⟩, hinside, hsome⟩
    · refine ⟨⟨ht, TimeSeries.valueAt?_of_notMem fun hold => hfresh ?_⟩, hinside,
        fun hirr => absurd hirr hreg⟩
      obtain ⟨o, ho⟩ := TimeSeries.mem_index.mp hold
      exact TimeSeries.mem_index.mpr
        ⟨o, SeriesRecord.mem_cut.mpr ⟨ho, hinside, fun hirr => absurd hirr hreg⟩⟩

/-- A call that does not name a recorded series leaves its record and its values as they are, and
adds just those gaps that it brings; so what is read is the same before and after if and only if it
brings none. -/
theorem read_after_call (h : History st last) (hr : st.series.find? name = some r) {c : Call}
    (hc : c.WellFormed) (hname : name ∉ c.names) :
    ∃ before after, st.getSeries name = .ok before ∧ (c.after st).getSeries name = .ok after ∧
      (c.after st).series.find? name = some r ∧ after.valid = before.valid ∧
      (∀ t o, (t, o) ∈ after.points ↔
        (t, o) ∈ before.points ∨ o = none ∧ BringsGap c st r before t) ∧
      (after = before ↔ ∀ t, ¬ BringsGap c st r before t) := by
  have hchain := changes_of_call hc st
  have hst := h.aligned
  have hst' := aligned_of_changes hchain hst
  have hr' := (hchain.find?_series hname).trans hr
  obtain ⟨ps, hps⟩ := hst.points?_of_record hr
  obtain ⟨index, hps', hi, hindex⟩ := points?_of_changes hchain hst hname hps
  have hbefore := r.increasing_cut (hst.increasing_points? hps)
  have hafter := r.increasing_cut (hst'.increasing_points? hps')
  -- A gap is brought at the moments that are new in the index.
  have hmem : ∀ t o, (t, o) ∈ (r.cut (TimeSeries.spread ⟨ps⟩ index).points).points ↔
      (t, o) ∈ (r.cut ps).points ∨ o = none ∧ BringsGap c st r (r.cut ps) t := by
    intro t o
    rw [mem_cut_spread (hst.increasing_points? hps) fun t ht => (hindex t).mpr (.inl ht)]
    refine or_congr_right (and_congr_right fun _ => ⟨?_, ?_⟩)
    · rintro ⟨hreg, hinside, ht, hfresh⟩
      refine ⟨hreg, hinside, hfresh, ((hindex t).mp ht).resolve_left fun hold => hfresh ?_⟩
      obtain ⟨o, ho⟩ := TimeSeries.mem_index.mp (show t ∈ TimeSeries.index ⟨ps⟩ from hold)
      exact TimeSeries.mem_index.mpr
        ⟨o, SeriesRecord.mem_cut.mpr ⟨ho, hinside, fun hirr => absurd hirr hreg⟩⟩
    · intro hgap
      exact ⟨hgap.regular, hgap.inside, (hindex t).mpr (.inr hgap.brought), hgap.fresh⟩
  refine ⟨r.cut ps, _, hst.getSeries hr hps, hst'.getSeries hr' hps', hr', ?_, hmem, ?_, ?_⟩
  · refine TimeSeries.valid_ext hafter hbefore fun t v => ?_
    rw [hmem]
    simp
  · intro heq t hgap
    have hgapped := (hmem t none).mpr (.inr ⟨rfl, hgap⟩)
    rw [heq] at hgapped
    exact hgap.fresh (TimeSeries.mem_index.mpr ⟨none, hgapped⟩)
  · intro hnone
    refine congrArg TimeSeries.mk (Increasing.eq_of_mem_iff hafter hbefore fun ⟨t, o⟩ => ?_)
    exact (hmem t o).trans (or_iff_left fun hgap => hnone t hgap.2)

theorem read_after_noons :
    ∃ before after, (midnights.after empty).getSeries ⟨"STAGE"⟩ = .ok before ∧
      (noons.after (midnights.after empty)).getSeries ⟨"STAGE"⟩ = .ok after ∧
      after.valid = before.valid := by
  obtain ⟨r, hr⟩ : ∃ r, (midnights.after empty).series.find? ⟨"STAGE"⟩ = some r :=
    Option.isSome_iff_exists.mp (by decide +kernel)
  obtain ⟨before, after, hbefore, hafter, -, hvalid, -⟩ := read_after_call history_midnights hr
    (c := noons) (increasing_zeroSeries _ _) (by decide +kernel)
  exact ⟨before, after, hbefore, hafter, hvalid⟩

/-- A series of midnights is read with gaps at noon once a series of noons was joined, and still so
after that was erased. -/
theorem midnights_read_with_gaps_at_noon :
    History (midnights.after empty) (lastJoined (fun _ => none) (midnights.joined empty).toList) ∧
      noons.WellFormed ∧ ⟨"STAGE"⟩ ∉ noons.names ∧
      (midnights.after empty).series.contains ⟨"STAGE"⟩ = true ∧
      (noons.after (midnights.after empty)).getSeries ⟨"STAGE"⟩ ≠
        (midnights.after empty).getSeries ⟨"STAGE"⟩ ∧
      ((Call.erase .series ⟨"FLOW"⟩).after (noons.after (midnights.after empty))).getSeries
        ⟨"STAGE"⟩ ≠ (midnights.after empty).getSeries ⟨"STAGE"⟩ := by
  have hmidnights : ((midnights.after empty).getSeries ⟨"STAGE"⟩).toOption.map TimeSeries.length =
    some 3 := by decide +kernel
  have hnoons : ((noons.after (midnights.after empty)).getSeries ⟨"STAGE"⟩).toOption.map
    TimeSeries.length = some 5 := by decide +kernel
  have herased : (((Call.erase .series ⟨"FLOW"⟩).after (noons.after
    (midnights.after empty))).getSeries ⟨"STAGE"⟩).toOption.map TimeSeries.length = some 5 := by
    decide +kernel
  refine ⟨history_midnights, increasing_zeroSeries _ _, by decide +kernel, by decide +kernel,
    ?_, ?_⟩
  · intro heq
    rw [heq, hmidnights] at hnoons
    cases hnoons
  · intro heq
    rw [heq, hmidnights] at herased
    cases herased

end Hydroseries.Store
