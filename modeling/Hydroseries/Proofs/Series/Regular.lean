import Hydroseries.Proofs.Series.Alignment
import Hydroseries.Proofs.Series.Inference
import Hydroseries.Series.Prepared

/-!
# Trimmed and regular series

What becomes of a series before it is filed: its ends without values are cut off, and the gaps of
its grid are filled with points without value.

* Trimming keeps all values (`valid_trimmed`) and leaves what lies from the first to the last of
  them (`trimmed_of_valid`).
* A regular series is the series itself or the series spread over its grid (`regularized_cases`), so
  it increases, stays between the ends, and has no values of its own.
* For whole seconds and the inferred frequency, the grid has all moments of the series, and so no
  value is lost (`valid_regularized`) and nothing but missing points is put in
  (`regularized_fills`).

Each step of a preparation keeps the order of the moments as well (`increasing_apply`).
-/

namespace Hydroseries.TimeSeries

variable {α : Type} {s r : TimeSeries α}

/-! ## Trimming -/

theorem head?_valid_map (s : TimeSeries α) : s.firstValid? = (s.valid.map Prod.fst).head? := by
  rw [firstValid?, List.head?_map]

theorem getLast?_valid_map (s : TimeSeries α) : s.lastValid? = (s.valid.map Prod.fst).getLast? := by
  rw [lastValid?, List.getLast?_map]

/-- Values lie from the time of the first one to that of the last one. -/
theorem valid_bounds (hs : Increasing s.index) {first last : Timestamp}
    (hfirst : s.firstValid? = some first) (hlast : s.lastValid? = some last) :
    ∀ p ∈ s.valid, first ≤ p.1 ∧ p.1 ≤ last := by
  intro p hp
  rw [head?_valid_map] at hfirst
  rw [getLast?_valid_map] at hlast
  have hmem := List.mem_map_of_mem (f := Prod.fst) hp
  exact ⟨(increasing_valid hs).le_of_head? hfirst _ hmem,
    (increasing_valid hs).le_of_getLast? hlast _ hmem⟩

/-- A series has a first and a last value, or none at all. -/
theorem firstValid?_lastValid?_cases (s : TimeSeries α) :
    (s.valid = [] ∧ s.firstValid? = none ∧ s.lastValid? = none) ∨
    (s.valid ≠ [] ∧ ∃ first last, s.firstValid? = some first ∧ s.lastValid? = some last) := by
  cases hvalid : s.valid with
  | nil => exact .inl ⟨rfl, by simp [firstValid?, hvalid], by simp [lastValid?, hvalid]⟩
  | cons p ps =>
    refine .inr ⟨List.cons_ne_nil p ps, p.1, ((p :: ps).getLast (List.cons_ne_nil p ps)).1, ?_, ?_⟩
    · simp [firstValid?, hvalid]
    · rw [lastValid?, hvalid, List.getLast?_eq_some_getLast (List.cons_ne_nil p ps)]
      rfl

theorem mem_between {first last : Timestamp} {p : Timestamp × Option α} :
    p ∈ (s.between first last).points ↔ p ∈ s.points ∧ first ≤ p.1 ∧ p.1 ≤ last := by
  simp [between, filterTime]

theorem trimmed_of_valid {first last : Timestamp} (hfirst : s.firstValid? = some first)
    (hlast : s.lastValid? = some last) : s.trimmed = s.between first last := by
  rw [trimmed, hfirst, hlast]

theorem trimmed_of_no_valid (h : s.valid = []) : s.trimmed = empty := by
  rw [trimmed, firstValid?, h]
  rfl

theorem trimmed_points_sublist (s : TimeSeries α) : s.trimmed.points.Sublist s.points := by
  unfold trimmed
  split
  · exact List.filter_sublist
  · exact List.nil_sublist _

theorem increasing_trimmed (hs : Increasing s.index) : Increasing s.trimmed.index :=
  List.Pairwise.sublist (s.trimmed_points_sublist.map Prod.fst) hs

theorem mem_index_of_mem_trimmed {t : Timestamp} (ht : t ∈ s.trimmed.index) : t ∈ s.index :=
  (s.trimmed_points_sublist.map Prod.fst).mem ht

/-- Trimming keeps all values. -/
theorem valid_trimmed (hs : Increasing s.index) : s.trimmed.valid = s.valid := by
  rcases s.firstValid?_lastValid?_cases with ⟨hnil, -, -⟩ | ⟨-, first, last, hfirst, hlast⟩
  · rw [trimmed_of_no_valid hnil, hnil]
    rfl
  · refine valid_ext (increasing_trimmed hs) hs fun t v => ?_
    rw [trimmed_of_valid hfirst hlast, mem_between, and_iff_left_iff_imp]
    exact fun hmem => valid_bounds hs hfirst hlast (t, v) (mem_valid.mpr hmem)

theorem firstValid?_trimmed (hs : Increasing s.index) :
    s.trimmed.firstValid? = s.firstValid? := by
  rw [firstValid?, valid_trimmed hs, firstValid?]

theorem lastValid?_trimmed (hs : Increasing s.index) : s.trimmed.lastValid? = s.lastValid? := by
  rw [lastValid?, valid_trimmed hs, lastValid?]

/-- What is left by trimming lies from the first to the last value. -/
theorem trimmed_bounds {first last : Timestamp} (hfirst : s.firstValid? = some first)
    (hlast : s.lastValid? = some last) : ∀ t ∈ s.trimmed.index, first ≤ t ∧ t ≤ last := by
  intro t ht
  obtain ⟨o, ho⟩ := mem_index.mp ht
  rw [trimmed_of_valid hfirst hlast, mem_between] at ho
  exact ho.2

/-- A series without gaps is trimmed already. -/
theorem trimmed_of_full (hs : Increasing s.index) (hfull : s.valid.map Prod.fst = s.index) :
    s.trimmed = s := by
  rcases s.firstValid?_lastValid?_cases with ⟨hnil, -⟩ | ⟨-, first, last, hfirst, hlast⟩
  · rw [hnil, List.map_nil, index, eq_comm, List.map_eq_nil_iff] at hfull
    rw [trimmed_of_no_valid hnil, empty, ← hfull]
  · rw [trimmed_of_valid hfirst hlast]
    refine congrArg mk (List.filter_eq_self.mpr fun p hp => ?_)
    have hmem : p.1 ∈ s.valid.map Prod.fst := hfull ▸ List.mem_map_of_mem hp
    obtain ⟨q, hq, hqp⟩ := List.mem_map.mp hmem
    simpa [hqp] using valid_bounds hs hfirst hlast q hq

/-! ## Regular series -/

/-- The points of `s` go from `first` to `last`. -/
structure Spans (s : TimeSeries α) (first last : Timestamp) : Prop where
  head : s.index.head? = some first
  last : s.index.getLast? = some last

theorem Spans.bounds {first last : Timestamp} (h : s.Spans first last) (hs : Increasing s.index) :
    ∀ t ∈ s.index, first ≤ t ∧ t ≤ last := fun t ht =>
  ⟨hs.le_of_head? h.head t ht, hs.le_of_getLast? h.last t ht⟩

theorem Spans.first_mem {first last : Timestamp} (h : s.Spans first last) : first ∈ s.index :=
  List.mem_of_head? h.head

theorem Spans.last_mem {first last : Timestamp} (h : s.Spans first last) : last ∈ s.index :=
  List.mem_of_getLast? h.last

/-- Regularizing is spreading over a grid, unless there is no grid. -/
theorem regularized_eq (s : TimeSeries α) (f : Frequency) :
    (s.regularized f = .ok s ∧ (s.points = [] ∨ f = .irregular)) ∨
    (f ≠ .irregular ∧ ∃ first last, s.Spans first last ∧
      s.regularized f = do
        let grid ← f.grid first last
        pure ⟨grid.zip (align s.points grid)⟩) := by
  unfold regularized
  split
  next p q hp hq =>
    split
    next hf => exact .inl ⟨rfl, .inr hf⟩
    next hf =>
      refine .inr ⟨hf, p.1, q.1, ⟨?_, ?_⟩, rfl⟩
      · rw [index, List.head?_map, hp]
        rfl
      · rw [index, List.getLast?_map, hq]
        rfl
  next hnone =>
    refine .inl ⟨rfl, .inl ?_⟩
    cases hpoints : s.points with
    | nil => rfl
    | cons p ps =>
      refine (hnone p ((p :: ps).getLast (List.cons_ne_nil p ps)) ?_ ?_).elim
      · rw [hpoints]
        rfl
      · rw [hpoints, List.getLast?_eq_some_getLast (List.cons_ne_nil p ps)]

/-- A trimmed series goes from the first value to the last. -/
theorem spans_trimmed (hs : Increasing s.index) {first last : Timestamp}
    (hfirst : s.firstValid? = some first) (hlast : s.lastValid? = some last) :
    s.trimmed.Spans first last := by
  have htrimmed := increasing_trimmed hs
  have hbounds := trimmed_bounds hfirst hlast
  have hmem : first ∈ s.trimmed.index ∧ last ∈ s.trimmed.index := by
    rw [← firstValid?_trimmed hs, head?_valid_map] at hfirst
    rw [← lastValid?_trimmed hs, getLast?_valid_map] at hlast
    exact ⟨s.trimmed.valid_map_fst_sublist.mem (List.mem_of_head? hfirst),
      s.trimmed.valid_map_fst_sublist.mem (List.mem_of_getLast? hlast)⟩
  have hne : s.trimmed.index ≠ [] := List.ne_nil_of_mem hmem.1
  constructor
  · have hhead := List.head?_eq_some_head hne
    rw [hhead]
    exact congrArg some (le_antisymm (htrimmed.le_of_head? hhead first hmem.1)
      (hbounds _ (List.mem_of_head? hhead)).1)
  · have hend := List.getLast?_eq_some_getLast hne
    rw [hend]
    exact congrArg some (le_antisymm (hbounds _ (List.mem_of_getLast? hend)).2
      (htrimmed.le_of_getLast? hend last hmem.2))

/-- A series with a grid is spread over the grid between its ends. -/
theorem regularized_of_spans {f : Frequency} (hf : f.Proper) (hs : Increasing s.index)
    (hgrid : f ≠ .irregular) {first last : Timestamp} (h : s.Spans first last) :
    s.regularized f = (f.grid first last).map s.spread := by
  rcases regularized_eq s f with ⟨-, hnil | hirr⟩ | ⟨-, first', last', hspans, heq⟩
  · have hhead := h.head
    rw [index, hnil] at hhead
    cases hhead
  · exact absurd hirr hgrid
  · obtain rfl := Option.some.inj (hspans.head.symm.trans h.head)
    obtain rfl := Option.some.inj (hspans.last.symm.trans h.last)
    rw [heq]
    cases hg : f.grid first' last' with
    | error fault => rfl
    | ok grid =>
      have hwalk := Frequency.walk_of_grid hf hg
      exact congrArg Except.ok (congrArg TimeSeries.mk (zip_align hs (hwalk.increasing hf)))

/-- The only fault of regularizing is a grid that leaves the calendar. -/
theorem regularized_eq_error {f : Frequency} {fault : Fault} (h : s.regularized f = .error fault) :
    fault = .outOfRange := by
  rcases regularized_eq s f with ⟨hself, -⟩ | ⟨-, first, last, -, heq⟩
  · rw [hself] at h
    cases h
  · rw [heq] at h
    cases hg : f.grid first last with
    | error cause =>
      rw [hg] at h
      rw [← Except.error.inj h]
      exact Frequency.gridGo_eq_error hg
    | ok grid =>
      rw [hg] at h
      cases h

/-- A regular series is the series itself, or the series spread over its grid. -/
theorem regularized_cases {f : Frequency} (hf : f.Proper) (hs : Increasing s.index)
    (h : s.regularized f = .ok r) :
    (r = s ∧ (s.points = [] ∨ f = .irregular)) ∨
    (f ≠ .irregular ∧ ∃ first last grid, s.Spans first last ∧ f.Walk last first grid ∧
      r = s.spread grid) := by
  rcases regularized_eq s f with ⟨hself, hwhy⟩ | ⟨hirr, first, last, hspans, hgrid⟩
  · rw [hself] at h
    exact .inl ⟨(Except.ok.inj h).symm, hwhy⟩
  · refine .inr ⟨hirr, first, last, ?_⟩
    rw [hgrid] at h
    cases hg : f.grid first last with
    | error fault =>
      rw [hg] at h
      cases h
    | ok grid =>
      rw [hg] at h
      have hwalk := Frequency.walk_of_grid hf hg
      refine ⟨grid, hspans, hwalk, ?_⟩
      rw [← Except.ok.inj h, zip_align hs (hwalk.increasing hf)]

section Regularized

variable {f : Frequency} (hf : f.Proper) (hs : Increasing s.index) (h : s.regularized f = .ok r)

include hf hs h

theorem increasing_regularized : Increasing r.index := by
  rcases regularized_cases hf hs h with ⟨rfl, -⟩ | ⟨-, _, _, grid, -, hwalk, rfl⟩
  · exact hs
  · rw [index_spread]
    exact hwalk.increasing hf

/-- A regular series stays between the ends of the series. -/
theorem regularized_bounds {low high : Timestamp} (hb : ∀ t ∈ s.index, low ≤ t ∧ t ≤ high) :
    ∀ t ∈ r.index, low ≤ t ∧ t ≤ high := by
  rcases regularized_cases hf hs h with ⟨rfl, -⟩ | ⟨-, first, last, grid, hspans, hwalk, rfl⟩
  · exact hb
  · intro t ht
    rw [index_spread] at ht
    have hwithin := hwalk.bounds hf t ht
    exact ⟨le_trans (hb first hspans.first_mem).1 hwithin.1,
      le_trans hwithin.2 (hb last hspans.last_mem).2⟩

theorem regularized_index_ne_nil (hne : s.index ≠ []) : r.index ≠ [] := by
  rcases regularized_cases hf hs h with ⟨rfl, -⟩ | ⟨-, first, last, grid, hspans, hwalk, rfl⟩
  · exact hne
  · rw [index_spread]
    exact List.ne_nil_of_mem (hwalk.head_mem (hspans.bounds hs first hspans.first_mem).2)

end Regularized

/-! ## Whole seconds -/

/-- For whole seconds, the grid of the inferred frequency has all moments of the series. -/
theorem index_subset_regularized (hs : Increasing s.index)
    (hwhole : ∀ t ∈ s.index, t.nanosecond = 0)
    (hcal : ∀ t ∈ s.index, t.date.inCalendar = true) (h : s.regularized s.frequency = .ok r) :
    s.index ⊆ r.index := by
  have hf : s.frequency.Proper := Frequency.infer_proper s.index
  rcases regularized_cases hf hs h with ⟨rfl, -⟩ | ⟨hirr, first, last, grid, hspans, hwalk, rfl⟩
  · exact List.Subset.refl _
  rw [index_spread]
  obtain ⟨rest, hindex⟩ := List.head?_eq_some_iff.mp hspans.head
  by_cases hfixed : ∃ step, s.frequency = .fixed step
  · obtain ⟨step, hstep⟩ := hfixed
    rw [hstep] at hwalk hf
    intro t ht
    have hinfer : Frequency.infer (first :: rest) = .fixed step := by rw [← hindex]; exact hstep
    have hseconds : ∀ u ∈ first :: rest, Timestamp.secondNanos ∣ u.since first := fun u hu =>
      Timestamp.dvd_since_of_whole (hwhole first hspans.first_mem) (hwhole u (hindex ▸ hu))
    obtain ⟨k, hk⟩ := Frequency.multiple_of_infer_fixed hinfer (hindex ▸ hs) hseconds t
      (hindex ▸ ht)
    exact hwalk.mem_of_multiple hf (hcal first hspans.first_mem) (hcal last hspans.last_mem) hk
      (hspans.bounds hs t ht).2
  · have hfollows : s.frequency.follows s.index = true :=
      Frequency.follows_of_infer (fun step hstep => hfixed ⟨step, hstep⟩) hirr
    have hlast := hspans.last
    rw [hindex, List.getLast?_eq_some_getLast (List.cons_ne_nil first rest)] at hlast
    have hgrid := hwalk.eq_of_follows hf (hindex ▸ hfollows) (Option.some.inj hlast)
    rw [hgrid, hindex]
    exact List.Subset.refl _

/-- For whole seconds, no value is lost on the grid of the inferred frequency. -/
theorem valid_regularized (hs : Increasing s.index) (hwhole : ∀ t ∈ s.index, t.nanosecond = 0)
    (hcal : ∀ t ∈ s.index, t.date.inCalendar = true) (h : s.regularized s.frequency = .ok r) :
    r.valid = s.valid := by
  have hf : s.frequency.Proper := Frequency.infer_proper s.index
  have hsub := index_subset_regularized hs hwhole hcal h
  rcases regularized_cases hf hs h with ⟨rfl, -⟩ | ⟨-, _, _, grid, -, hwalk, rfl⟩
  · rfl
  · rw [index_spread] at hsub
    exact valid_spread hs (hwalk.increasing hf) fun p hp =>
      hsub (mem_index.mpr ⟨some p.2, mem_valid.mp hp⟩)

/-- A regular series exists if the calendar has room for its grid. -/
theorem regularized_isOk {f : Frequency} (hf : f.Proper)
    (hcal : ∀ t ∈ s.index, t.date.inCalendar = true)
    (hroom : ∀ last, s.index.getLast? = some last → f.HasRoom last) :
    ∃ r, s.regularized f = .ok r := by
  rcases regularized_eq s f with ⟨hself, -⟩ | ⟨-, first, last, hspans, hgrid⟩
  · exact ⟨s, hself⟩
  · obtain ⟨grid, hg⟩ :=
      Frequency.grid_isOk hf (hroom last hspans.last) (hcal first hspans.first_mem)
    rw [hgrid, hg]
    exact ⟨_, rfl⟩

/-! ## Filled series -/

/-- `r` has the points of `s` and, between its ends, missing points on the grid of `f`. -/
structure Fills (f : Frequency) (s r : TimeSeries α) : Prop where
  increasing : Increasing r.index
  first : r.index.head? = s.index.head?
  last : r.index.getLast? = s.index.getLast?
  kept : s.points ⊆ r.points
  added : ∀ p ∈ r.points, p.1 ∉ s.index → p.2 = none
  /-- The grid was walked until it passed the last moment of `s`, or to the end of the calendar. -/
  walked : f ≠ .irregular → ∀ first last, s.Spans first last → f.Walk last first r.index
  apart : ∀ step, f = .fixed step →
    0 < step ∧ r.index.IsChain fun t u => u.since t = step * Timestamp.secondNanos

theorem fills_irregular (hs : Increasing s.index) : Fills .irregular s s where
  increasing := hs
  first := rfl
  last := rfl
  kept := List.Subset.refl _
  added p hp hnot := absurd (List.mem_map_of_mem hp) hnot
  walked hgrid := absurd rfl hgrid
  apart step hstep := by cases hstep

/-- A series is filled by a grid between its ends that has all its moments. -/
theorem fills_spread {f : Frequency} (hf : f.Proper) (hs : Increasing s.index)
    {first last : Timestamp} (hspans : s.Spans first last) {grid : List Timestamp}
    (hwalk : f.Walk last first grid) (hsub : s.index ⊆ grid) : Fills f s (s.spread grid) where
  increasing := by
    rw [index_spread]
    exact hwalk.increasing hf
  first := by
    rw [index_spread, hspans.head,
      hwalk.head?_eq (hspans.bounds hs first hspans.first_mem).2]
  last := by
    have hmem := hsub hspans.last_mem
    have hend := List.getLast?_eq_some_getLast (List.ne_nil_of_mem hmem)
    rw [index_spread, hspans.last, hend, Option.some.injEq]
    exact le_antisymm (hwalk.bounds hf _ (List.mem_of_getLast? hend)).2
      ((hwalk.increasing hf).le_of_getLast? hend last hmem)
  kept p hp := mem_spread.mpr ⟨hsub (List.mem_map_of_mem hp), valueAt?_of_mem hs hp⟩
  added p hp hnot := by
    rw [← (mem_spread.mp hp).2]
    exact valueAt?_of_notMem hnot
  walked _ first' last' hspans' := by
    obtain rfl := Option.some.inj (hspans.head.symm.trans hspans'.head)
    obtain rfl := Option.some.inj (hspans.last.symm.trans hspans'.last)
    rwa [index_spread]
  apart step hstep := by
    subst hstep
    rw [index_spread]
    refine ⟨hf, hwalk.isChain.imp fun t u hnext => ?_⟩
    have hu := Timestamp.plus?_eq_some
      (show t.plus? (step * Timestamp.secondNanos) = some u from hnext)
    simp only [Timestamp.since]
    omega

/-- A series of whole seconds that lie in the calendar, one step before its end at the latest, is
filled on the grid of its inferred frequency. -/
theorem regularized_fills (hs : Increasing s.index) (hne : s.index ≠ [])
    (hwhole : ∀ t ∈ s.index, t.nanosecond = 0) (hcal : ∀ t ∈ s.index, t.date.inCalendar = true)
    (hroom : ∀ last, s.index.getLast? = some last → s.frequency.HasRoom last) :
    ∃ r, s.regularized s.frequency = .ok r ∧ Fills s.frequency s r := by
  have hf : s.frequency.Proper := Frequency.infer_proper s.index
  obtain ⟨r, hr⟩ := regularized_isOk hf hcal hroom
  refine ⟨r, hr, ?_⟩
  have hsub := index_subset_regularized hs hwhole hcal hr
  rcases regularized_cases hf hs hr with ⟨rfl, hnil | hirr⟩ |
    ⟨-, first, last, grid, hspans, hwalk, rfl⟩
  · exact absurd (by rw [index, hnil]; rfl) hne
  · rw [hirr]
    exact fills_irregular hs
  · rw [index_spread] at hsub
    exact fills_spread hf hs hspans hwalk hsub

/-- Two days, the second one missing, and a day after a gap. -/
def gappy : TimeSeries Nat :=
  ⟨[(.ofDate ⟨0⟩ 0, some 1), (.ofDate ⟨1⟩ 0, none), (.ofDate ⟨4⟩ 0, some 5)]⟩

theorem regularized_fills_gappy : ∃ r, gappy.regularized (.fixed 86400) = .ok r ∧
    Fills (.fixed 86400) gappy r ∧ r.values = [some 1, none, none, none, some 5] := by
  have hfrequency : gappy.frequency = .fixed 86400 := by decide +kernel
  have hincreasing : gappy.index.Pairwise (· < ·) := by decide +kernel
  have hroom : ∀ last, gappy.index.getLast? = some last → gappy.frequency.HasRoom last := by
    rintro _ ⟨⟩
    rw [hfrequency]
    show (Timestamp.plus? _ _).isSome = true
    decide +kernel
  obtain ⟨r, hr, hfills⟩ := regularized_fills hincreasing (by decide +kernel) (by decide +kernel)
    (by decide +kernel) hroom
  rw [hfrequency] at hr hfills
  have hvalues : (gappy.regularized (.fixed 86400)).toOption.map TimeSeries.values =
      some [some 1, none, none, none, some 5] := by decide +kernel
  rw [hr] at hvalues
  exact ⟨r, hr, hfills, Option.some.inj hvalues⟩

end Hydroseries.TimeSeries

/-! # Prepared series -/

namespace Hydroseries

namespace TimeSeries

variable {α : Type} {s : TimeSeries α}

theorem increasing_within (hs : Increasing s.index) (w : Window) : Increasing (s.within w).index :=
  List.Pairwise.sublist (List.filter_sublist.map Prod.fst) hs

end TimeSeries

namespace Preparation

theorem increasing_apply {p : Preparation} {s r : Series} (hs : Increasing s.index)
    (h : p.apply s = .ok r) : Increasing r.index := by
  obtain ⟨regular, hregular, h⟩ := bind_eq_ok.mp h
  obtain rfl := Except.ok.inj h
  have hincreasing := TimeSeries.increasing_regularized (Frequency.infer_proper _)
    (TimeSeries.increasing_within hs p.window) hregular
  refine TimeSeries.increasing_trimmed ?_
  rwa [TimeSeries.index, List.map_map]

end Preparation

end Hydroseries
