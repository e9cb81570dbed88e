import Hydroseries.Proofs.Store.Frequency

/-!
# Values off the grid

A series with a fixed step is filed at the moments that are whole steps after its first value. Its
values at other moments are lost, and no others are (`Keeps.valueAt?_iff`). There are none if the
moments are whole seconds apart (`Filing.onGrid_of_seconds`), whatever the step.
-/

namespace Hydroseries

open Timestamp (secondNanos)

variable {s regular : Series} {r : SeriesRecord}

/-! ## Grids of a fixed step -/

namespace Frequency

variable {step : Int} {first last t : Timestamp} {g : List Timestamp}

theorem Walk.dvd_since (h : Walk (fixed step) last t g) : ∀ u ∈ g, step * secondNanos ∣ u.since t := by
  induction h with
  | past _ => simp
  | ends _ _ => simp [Timestamp.since]
  | @step t v g _ hnext _ ih =>
    have hv := Timestamp.plus?_eq_some (show t.plus? (step * secondNanos) = some v from hnext)
    intro u hu
    rcases List.mem_cons.mp hu with rfl | hu
    · simp [Timestamp.since]
    · have hsum : u.since t = u.since v + step * secondNanos := by
        simp only [Timestamp.since]
        omega
      rw [hsum]
      exact Int.dvd_add (ih u hu) (Int.dvd_refl _)

/-- Between its ends, the grid of a fixed step has the moments that are whole steps after the
first. -/
theorem mem_grid_iff (hstep : 0 < step) (hg : (fixed step).grid first last = .ok g)
    (hfirst : first ≤ t) (hlast : t ≤ last) : t ∈ g ↔ step * secondNanos ∣ t.since first := by
  have hwalk := walk_of_grid (f := fixed step) hstep hg
  refine ⟨hwalk.dvd_since t, fun hdvd => ?_⟩
  -- The grid has a moment less than a step before, which is whole steps before as well.
  obtain ⟨u, hu, hut, hnear⟩ := hwalk.exists_near (next?_of_grid hg) hfirst hlast
  have hrest : step * secondNanos ∣ t.since u := by
    have hdiff := Int.dvd_sub hdvd (hwalk.dvd_since u hu)
    rwa [Timestamp.since, Timestamp.since, sub_sub_sub_cancel_right] at hdiff
  rw [Timestamp.le_iff] at hut
  have hzero : t.since u = 0 :=
    Int.eq_zero_of_dvd_of_nonneg_of_lt (by simp only [Timestamp.since]; omega) hnear hrest
  have hsame : u = t := Timestamp.ext (by simp only [Timestamp.since] at hzero; omega)
  exact hsame ▸ hu

end Frequency

/-! ## Filing -/

/-- If the frequency of a record is a fixed step, the moment is whole steps after the first value. -/
def SeriesRecord.OnGrid (r : SeriesRecord) (t : Timestamp) : Prop :=
  ∀ step, r.frequency = .fixed step → step * secondNanos ∣ t.since r.start

namespace Filing

/-- The values that are filed are those on the grid. -/
theorem mem_regular_iff (h : Filing s r regular) (hs : Increasing s.index) {t : Timestamp}
    {v : Double} : (t, some v) ∈ regular.points ↔ (t, some v) ∈ s.points ∧ r.OnGrid t := by
  have hvalid : (t, some v) ∈ s.trimmed.points ↔ (t, some v) ∈ s.points := by
    rw [← TimeSeries.mem_valid, TimeSeries.valid_trimmed hs, TimeSeries.mem_valid]
  by_cases hirr : r.frequency = .irregular
  · have hgrid : r.OnGrid t := fun step hstep => by
      rw [hirr] at hstep
      cases hstep
    rw [← TimeSeries.mem_valid, h.valid_of_irregular hs hirr, TimeSeries.mem_valid]
    exact (and_iff_left hgrid).symm
  · obtain ⟨grid, hg, rfl⟩ := h.eq_spread hs hirr
    rw [TimeSeries.mem_spread_some (TimeSeries.increasing_trimmed hs), hvalid, and_comm]
    refine and_congr_right fun hmem => ?_
    have hspans := h.trimmed_spans hs
    have hindex : t ∈ s.trimmed.index := TimeSeries.mem_index.mpr ⟨_, hvalid.mpr hmem⟩
    by_cases hfixed : ∃ step, r.frequency = .fixed step
    · obtain ⟨step, hstep⟩ := hfixed
      have hproper := Frequency.infer_proper s.trimmed.index
      have hbounds := hspans.bounds (TimeSeries.increasing_trimmed hs) t hindex
      rw [show Frequency.infer s.trimmed.index = .fixed step from h.frequency.symm.trans hstep]
        at hproper
      rw [hstep] at hg
      rw [Frequency.mem_grid_iff hproper hg hbounds.1 hbounds.2]
      refine ⟨fun hdvd step' hstep' => ?_, fun hgrid => hgrid step hstep⟩
      cases hstep.symm.trans hstep'
      exact hdvd
    · -- On the grids of the calendar, the series has the moments of the grid and no others.
      rw [h.frequency] at hg hirr hfixed
      have hwalk := Frequency.walk_of_grid (Frequency.infer_proper _) hg
      have hsame := Frequency.grid_eq_of_infer hspans.head hspans.last
        (fun step hstep => hfixed ⟨step, hstep⟩) hirr hwalk
      rw [hsame]
      refine iff_of_true hindex fun step hstep => ?_
      exact absurd ⟨step, h.frequency.symm.trans hstep⟩ hfixed

/-- If the moments are whole seconds apart, all are on the grid. -/
theorem onGrid_of_seconds (h : Filing s r regular) (hs : Increasing s.index)
    (hseconds : ∀ t ∈ s.index, ∀ u ∈ s.index, secondNanos ∣ u.since t) :
    ∀ t ∈ s.trimmed.index, r.OnGrid t := by
  intro t ht step hstep
  obtain ⟨rest, hindex⟩ := List.head?_eq_some_iff.mp (h.trimmed_spans hs).head
  have hinfer : Frequency.infer (r.start :: rest) = .fixed step := by
    rw [← hindex]
    exact h.frequency.symm.trans hstep
  have hin : ∀ u ∈ r.start :: rest, u ∈ s.index := fun u hu =>
    TimeSeries.mem_index_of_mem_trimmed (hindex ▸ hu)
  obtain ⟨k, hk⟩ := Frequency.multiple_of_infer_fixed hinfer
    (hindex ▸ TimeSeries.increasing_trimmed hs)
    (fun u hu => hseconds _ (hin _ List.mem_cons_self) u (hin u hu)) t (hindex ▸ ht)
  refine ⟨k, ?_⟩
  rw [Timestamp.since, hk]
  ring

end Filing

/-! ## Reading -/

/-- Of a series that is kept, the values on its grid are read, and no others. -/
theorem Store.Keeps.valueAt?_iff {st : Store} {name : EntityName} (hk : st.Keeps name s)
    (hst : st.Aligned) :
    ∃ r regular a, st.series.find? name = some r ∧ Filing s r regular ∧ st.getSeries name = .ok a ∧
      ∀ t v, a.valueAt? t = some v ↔ s.valueAt? t = some v ∧ r.OnGrid t := by
  obtain ⟨r, regular, a, hr, hfiling, ha, hread⟩ := hk.read hst
  refine ⟨r, regular, a, hr, hfiling, ha, fun t v => ?_⟩
  rw [TimeSeries.valueAt?_eq_some (Store.increasing_getSeries ha),
    TimeSeries.valueAt?_eq_some hk.1, ← hfiling.mem_regular_iff hk.1, ← TimeSeries.mem_valid, hread,
    TimeSeries.mem_valid]

end Hydroseries
