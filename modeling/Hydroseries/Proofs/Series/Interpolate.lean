import Hydroseries.Proofs.Series.Integral

/-!
# Values read off between samples

At a sample the value that is read off is that of the sample. Before the first and after the last
sample their values are held, and between two samples the value lies on the straight line through them
(`Interpolates`).

The place of a moment among the samples is found by halving (`exists_search`), and what is read at the
positions around it is what the walk along the samples finds (`valueAtPosition?_eq`): each position that
is looked at has a sample, and samples with a line between them are some time apart.
-/

namespace Hydroseries.TimeSeries

open Timestamp (elapsed elapsed_add elapsed_pos)

variable {samples points : List (Timestamp × ℚ)} {p q : Timestamp × ℚ} {t : Timestamp} {v : ℚ}
  {i j n low high : ℕ}

/-! ## Samples by position -/

theorem WellTimed.lt_of_lt (h : WellTimed samples) (hij : i < j) (hp : samples[i]? = some p)
    (hq : samples[j]? = some q) : p.1 < q.1 := by
  obtain ⟨hi, rfl⟩ := List.getElem?_eq_some_iff.mp hp
  obtain ⟨hj, rfl⟩ := List.getElem?_eq_some_iff.mp hq
  exact List.pairwise_iff_getElem.mp (List.pairwise_map.mp h.increasing) i j hi hj hij

theorem WellTimed.le_of_le (h : WellTimed samples) (hij : i ≤ j) (hp : samples[i]? = some p)
    (hq : samples[j]? = some q) : p.1 ≤ q.1 := by
  rcases hij.lt_or_eq with hlt | rfl
  · exact (h.lt_of_lt hlt hp hq).le
  · obtain rfl := Option.some.inj (hp.symm.trans hq)
    exact le_rfl

/-- Whole milliseconds that differ are a millisecond apart. -/
theorem WellTimed.millisSince_ne_zero (h : WellTimed samples) (hp : p ∈ samples) (hq : q ∈ samples)
    (hpq : p.1 < q.1) : q.1.millisSince p.1 ≠ 0 := by
  intro hzero
  have hmillis := Timestamp.millisSince_of_whole (h.whole p hp) (h.whole q hq)
  rw [hzero, Int.cast_zero, zero_eq_mul] at hmillis
  exact hmillis.elim (by norm_num) (elapsed_pos hpq).ne'

/-! ## Halving -/

/-- The first position from `low` on with a sample that is not before `t`, and `high` if there is none
in front of it. None where a position has no sample. -/
def search? (samples : List (Timestamp × ℚ)) (t : Timestamp) (low high : ℕ) : Option ℕ :=
  if low < high then
    let mid := low + (high - low) / 2
    match samples[mid]? with
    | some p => if p.1 < t then search? samples t (mid + 1) high else search? samples t low mid
    | none => none
  else some low
termination_by high - low

/-- What is known of the samples while the positions from `low` to `high` are left. Once both are one
position, the samples in front of it are those before the moment. -/
structure Narrowed (samples : List (Timestamp × ℚ)) (t : Timestamp) (low high : ℕ) : Prop where
  le : low ≤ high
  le_length : high ≤ samples.length
  before : ∀ i p, samples[i]? = some p → i < low → p.1 < t
  notBefore : ∀ i p, samples[i]? = some p → high ≤ i → t ≤ p.1

theorem narrowed_all (samples : List (Timestamp × ℚ)) (t : Timestamp) :
    Narrowed samples t 0 samples.length where
  le := Nat.zero_le _
  le_length := le_rfl
  before _ _ _ hi := absurd hi (Nat.not_lt_zero _)
  notBefore _ _ hp hi := absurd (List.getElem?_eq_some_iff.mp hp).1 hi.not_gt

theorem Narrowed.tail (h : Narrowed (p :: samples) t (low + 1) (high + 1)) :
    Narrowed samples t low high where
  le := Nat.le_of_succ_le_succ h.le
  le_length := Nat.le_of_succ_le_succ h.le_length
  before i q hq hi := h.before (i + 1) q hq (Nat.succ_lt_succ hi)
  notBefore i q hq hi := h.notBefore (i + 1) q hq (Nat.succ_le_succ hi)

/-- Of increasing samples all in front of one that is before `t` are before `t` as well, and all behind
one that is not are not; so halving keeps what is known. -/
theorem exists_search (h : WellTimed samples) (hn : Narrowed samples t low high) :
    ∃ n, search? samples t low high = some n ∧ Narrowed samples t n n := by
  fun_induction search? samples t low high with
  | case1 low high hlt mid p hp hbefore ih =>
    have hmid : mid < high := by omega
    refine ih ⟨hmid, hn.le_length, fun i q hq hi => ?_, hn.notBefore⟩
    exact (h.le_of_le (Nat.le_of_lt_succ hi) hq hp).trans_lt hbefore
  | case2 low high hlt mid p hp hbefore ih =>
    have hmid : mid < high := by omega
    refine ih ⟨Nat.le_add_right _ _, hmid.le.trans hn.le_length, hn.before, fun i q hq hi => ?_⟩
    exact (not_lt.mp hbefore).trans (h.le_of_le hi hp hq)
  | case3 low high hlt mid hnone =>
    have hmid : mid < high := by omega
    exact absurd (hmid.trans_le hn.le_length) (List.getElem?_eq_none_iff.mp hnone).not_gt
  | case4 low high hge =>
    obtain rfl : low = high := le_antisymm hn.le (not_lt.mp hge)
    exact ⟨low, rfl, hn⟩

/-! ## Reading at a position -/

/-- The value at `t`, read at the position `n` of the first sample that is not before it. None where a
position has no sample, and where no whole millisecond is between the samples that a line would join. -/
def valueAtPosition? (samples : List (Timestamp × ℚ)) (t : Timestamp) (n : ℕ) : Option ℚ :=
  if n = 0 then samples[0]?.map Prod.snd
  else if n = samples.length then samples[samples.length - 1]?.map Prod.snd
  else
    samples[n]?.bind fun q =>
      if q.1 = t then some q.2
      else
        samples[n - 1]?.bind fun p =>
          if q.1.millisSince p.1 = 0 then none else some (lineThrough p q t)

/-- The value at `t` by a search among all samples. -/
def searchedValue? (samples : List (Timestamp × ℚ)) (t : Timestamp) : Option ℚ :=
  (search? samples t 0 samples.length).bind (valueAtPosition? samples t)

theorem valueAtPosition?_last (hp : samples[n]? = some p) (hn : n + 1 = samples.length) :
    valueAtPosition? samples t (n + 1) = some p.2 := by
  rw [valueAtPosition?, if_neg n.succ_ne_zero, if_pos hn, ← hn, Nat.add_sub_cancel, hp, Option.map_some]

theorem valueAtPosition?_inner (h : WellTimed samples) (hp : samples[n]? = some p)
    (hq : samples[n + 1]? = some q) :
    valueAtPosition? samples t (n + 1) = some (if q.1 = t then q.2 else lineThrough p q t) := by
  have hlength := (List.getElem?_eq_some_iff.mp hq).1
  have hapart := h.millisSince_ne_zero (List.mem_of_getElem? hp) (List.mem_of_getElem? hq)
    (h.lt_of_lt n.lt_succ_self hp hq)
  rw [valueAtPosition?, if_neg n.succ_ne_zero, if_neg hlength.ne, hq, Option.bind_some,
    Nat.add_sub_cancel, hp, Option.bind_some, if_neg hapart]
  split <;> rfl

/-- Behind a sample in front, positions count one less. -/
theorem valueAtPosition?_cons (p : Timestamp × ℚ) (samples : List (Timestamp × ℚ)) (t : Timestamp)
    (n : ℕ) :
    valueAtPosition? (p :: samples) t (n + 2) = valueAtPosition? samples t (n + 1) := by
  cases samples with
  | nil => rfl
  | cons q rest => simp [valueAtPosition?]

/-- The walk along the samples after `p` ends at the position that a search is narrowed to. -/
theorem valueAtPosition?_succ (h : WellTimed (p :: points))
    (hn : Narrowed (p :: points) t (n + 1) (n + 1)) :
    valueAtPosition? (p :: points) t (n + 1) = some (valueAfter p t points) := by
  induction points generalizing p n with
  | nil =>
    obtain rfl : n = 0 := by simpa using hn.le_length
    rfl
  | cons q rest ih =>
    cases n with
    | zero =>
      have hle : t ≤ q.1 := hn.notBefore 1 q rfl le_rfl
      rw [valueAtPosition?_inner h rfl rfl, valueAfter]
      rcases hle.lt_or_eq with hlt | rfl
      · rw [if_pos hlt, if_neg hlt.ne']
      · rw [if_pos rfl, if_neg (lt_irrefl _), if_pos rfl]
    | succ n =>
      have hlt : q.1 < t := hn.before 1 q rfl (by omega)
      rw [valueAtPosition?_cons, ih h.tail hn.tail, valueAfter, if_neg hlt.not_gt, if_neg hlt.ne']

/-- Read at the position that a search is narrowed to, the value is the one found by the walk along the
samples. -/
theorem valueAtPosition?_eq (h : WellTimed (p :: points)) (hn : Narrowed (p :: points) t n n) :
    valueAtPosition? (p :: points) t n = some (valueFrom p points t) := by
  cases n with
  | zero =>
    have hle : t ≤ p.1 := hn.notBefore 0 p rfl le_rfl
    rw [valueFrom, if_pos hle]
    rfl
  | succ n =>
    have hlt : p.1 < t := hn.before 0 p rfl n.succ_pos
    rw [valueAtPosition?_succ h hn, valueFrom, if_neg hlt.not_ge]

/-! ## Lines -/

/-- The straight line through the samples `p` and `q` has the value `v` at the moment `t`: one slope
leads from `p` to both. -/
def OnLine (p q : Timestamp × ℚ) (t : Timestamp) (v : ℚ) : Prop :=
  ∃ slope : ℚ, q.2 = p.2 + slope * elapsed p.1 q.1 ∧ v = p.2 + slope * elapsed p.1 t

theorem onLine_lineThrough (hp : p.1.IsWholeMilli) (hq : q.1.IsWholeMilli) (ht : t.IsWholeMilli)
    (hpq : p.1 < q.1) : OnLine p q t (lineThrough p q t) := by
  have hne : elapsed p.1 q.1 ≠ 0 := (elapsed_pos hpq).ne'
  refine ⟨(q.2 - p.2) / elapsed p.1 q.1, ?_, ?_⟩
  · rw [div_mul_cancel₀ _ hne, add_sub_cancel]
  · rw [lineThrough_of_whole hp hq ht, mul_div_assoc', div_mul_eq_mul_div]

/-- Between two samples a line lies between their values. -/
theorem OnLine.between (h : OnLine p q t v) (hpt : p.1 < t) (htq : t < q.1) :
    min p.2 q.2 ≤ v ∧ v ≤ max p.2 q.2 := by
  obtain ⟨slope, hend, rfl⟩ := h
  have hstart : 0 ≤ elapsed p.1 t := (elapsed_pos hpt).le
  have hrest : elapsed p.1 t ≤ elapsed p.1 q.1 := by
    rw [← elapsed_add p.1 t q.1]
    exact le_add_of_nonneg_right (elapsed_pos htq).le
  rcases le_total 0 slope with hrise | hfall
  · have hlow : p.2 ≤ p.2 + slope * elapsed p.1 t := le_add_of_nonneg_right (mul_nonneg hrise hstart)
    have hhigh : p.2 + slope * elapsed p.1 t ≤ q.2 := by
      rw [hend]
      exact add_le_add_right (mul_le_mul_of_nonneg_left hrest hrise) p.2
    exact ⟨min_le_of_left_le hlow, le_max_of_le_right hhigh⟩
  · have hhigh : p.2 + slope * elapsed p.1 t ≤ p.2 :=
      add_le_of_nonpos_right (mul_nonpos_of_nonpos_of_nonneg hfall hstart)
    have hlow : q.2 ≤ p.2 + slope * elapsed p.1 t := by
      rw [hend]
      exact add_le_add_right (mul_le_mul_of_nonpos_left hrest hfall) p.2
    exact ⟨min_le_of_right_le hlow, le_max_of_le_left hhigh⟩

/-! ## Values read off -/

/-- The nearest samples before and after a moment. -/
structure Nearest (samples : List (Timestamp × ℚ)) (t : Timestamp) (p q : Timestamp × ℚ) : Prop where
  left : p ∈ samples
  right : q ∈ samples
  before : p.1 < t
  after : t < q.1
  none_between : ∀ r ∈ samples, r.1 ≤ p.1 ∨ q.1 ≤ r.1

/-- The value `v` continues the samples at the moment `t`: it is theirs at a sample, held beyond the first
and the last, and on the line through the nearest samples on either side otherwise. -/
structure Interpolates (samples : List (Timestamp × ℚ)) (t : Timestamp) (v : ℚ) : Prop where
  at_sample : ∀ w, (t, w) ∈ samples → v = w
  before : (∀ p ∈ samples, t < p.1) → samples.head?.map Prod.snd = some v
  after : (∀ p ∈ samples, p.1 < t) → samples.getLast?.map Prod.snd = some v
  between : (∀ w, (t, w) ∉ samples) → (∃ p ∈ samples, p.1 < t) → (∃ q ∈ samples, t < q.1) →
    ∃ p q, Nearest samples t p q ∧ OnLine p q t v ∧ min p.2 q.2 ≤ v ∧ v ≤ max p.2 q.2

/-- Up to the first sample its value is held. -/
theorem interpolates_first (h : WellTimed samples) (hq : samples[0]? = some q) (htq : t ≤ q.1) :
    Interpolates samples t q.2 := by
  have hmem : q ∈ samples := List.mem_of_getElem? hq
  have hfirst : ∀ r ∈ samples, q.1 ≤ r.1 := by
    intro r hr
    obtain ⟨i, hi⟩ := List.mem_iff_getElem?.mp hr
    exact h.le_of_le i.zero_le hq hi
  constructor
  case at_sample =>
    intro w hw
    obtain rfl : q.1 = t := le_antisymm (hfirst _ hw) htq
    exact h.increasing.eq_of_mem hmem hw
  case before =>
    intro _
    rw [List.head?_eq_getElem?, hq, Option.map_some]
  case after =>
    intro hall
    exact absurd htq (hall q hmem).not_ge
  case between =>
    rintro _ ⟨r, hr, hrt⟩ _
    exact absurd (htq.trans (hfirst r hr)) hrt.not_ge

/-- After the last sample its value is held. -/
theorem interpolates_last (h : WellTimed samples) (hp : samples[n]? = some p)
    (hn : n + 1 = samples.length) (hpt : p.1 < t) : Interpolates samples t p.2 := by
  have hmem : p ∈ samples := List.mem_of_getElem? hp
  have hlast : ∀ r ∈ samples, r.1 < t := by
    intro r hr
    obtain ⟨i, hi⟩ := List.mem_iff_getElem?.mp hr
    have hlength := (List.getElem?_eq_some_iff.mp hi).1
    exact (h.le_of_le (by omega) hi hp).trans_lt hpt
  constructor
  case at_sample =>
    intro w hw
    exact absurd (hlast _ hw) (lt_irrefl _)
  case before =>
    intro hall
    exact absurd hpt (hall p hmem).not_gt
  case after =>
    intro _
    rw [List.getLast?_eq_getElem?, ← hn, Nat.add_sub_cancel, hp, Option.map_some]
  case between =>
    rintro _ _ ⟨r, hr, htr⟩
    exact absurd (hlast r hr) htr.not_gt

/-- Behind a sample and up to the next one the value is on the line to the next, and that of the next
itself once it is reached. -/
theorem interpolates_inner (h : WellTimed samples) (ht : t.IsWholeMilli) (hp : samples[n]? = some p)
    (hq : samples[n + 1]? = some q) (hpt : p.1 < t) (htq : t ≤ q.1) :
    Interpolates samples t (if q.1 = t then q.2 else lineThrough p q t) := by
  have hleft : p ∈ samples := List.mem_of_getElem? hp
  have hright : q ∈ samples := List.mem_of_getElem? hq
  have hnone : ∀ r ∈ samples, r.1 ≤ p.1 ∨ q.1 ≤ r.1 := by
    intro r hr
    obtain ⟨i, hi⟩ := List.mem_iff_getElem?.mp hr
    rcases Nat.lt_or_ge n i with hlt | hge
    · exact .inr (h.le_of_le hlt hq hi)
    · exact .inl (h.le_of_le hge hi hp)
  constructor
  case at_sample =>
    intro w hw
    obtain rfl : q.1 = t := le_antisymm ((hnone _ hw).resolve_left hpt.not_ge) htq
    rw [if_pos rfl]
    exact h.increasing.eq_of_mem hright hw
  case before =>
    intro hall
    exact absurd hpt (hall p hleft).not_gt
  case after =>
    intro hall
    exact absurd htq (hall q hright).not_ge
  case between =>
    intro hother _ _
    have hne : q.1 ≠ t := fun heq => hother q.2 (heq ▸ hright)
    have hlt : t < q.1 := htq.lt_of_ne hne.symm
    have hline := onLine_lineThrough (h.whole p hleft) (h.whole q hright) ht (hpt.trans hlt)
    rw [if_neg hne]
    exact ⟨p, q, ⟨hleft, hright, hpt, hlt, hnone⟩, hline, hline.between hpt hlt⟩

/-- What is read at the position that a search is narrowed to continues the samples. -/
theorem interpolates_of_narrowed (h : WellTimed samples) (ht : t.IsWholeMilli)
    (hn : Narrowed samples t n n) (hv : valueAtPosition? samples t n = some v) :
    Interpolates samples t v := by
  cases n with
  | zero =>
    obtain ⟨q, hq, rfl⟩ := Option.map_eq_some_iff.mp hv
    exact interpolates_first h hq (hn.notBefore 0 q hq le_rfl)
  | succ n =>
    have hlength : n < samples.length := hn.le_length
    have hp : samples[n]? = some samples[n] := List.getElem?_eq_getElem hlength
    have hpt : samples[n].1 < t := hn.before n _ hp n.lt_succ_self
    rcases hn.le_length.lt_or_eq with hlt | hlast
    · have hq : samples[n + 1]? = some samples[n + 1] := List.getElem?_eq_getElem hlt
      have htq : t ≤ samples[n + 1].1 := hn.notBefore (n + 1) _ hq le_rfl
      rw [valueAtPosition?_inner h hp hq] at hv
      exact Option.some.inj hv ▸ interpolates_inner h ht hp hq hpt htq
    · rw [valueAtPosition?_last hp hlast] at hv
      exact Option.some.inj hv ▸ interpolates_last h hp hlast hpt

variable {s : TimeSeries ℚ} {moments : List Timestamp}

/-- At each of some moments a value is read off that continues the samples of the series. The search for
it looks at no position without a sample, and divides by no stretch of time that is zero. -/
theorem interpolateAt_interpolates (hs : Increasing s.index) (hvalid : s.valid ≠ [])
    (hwhole : ∀ p ∈ s.valid, p.1.IsWholeMilli) (hmoments : ∀ t ∈ moments, t.IsWholeMilli) :
    ∃ values : List ℚ, s.interpolateAt moments = values.map some ∧
      List.Forall₂ (fun t v => Interpolates s.valid t v ∧ searchedValue? s.valid t = some v)
        moments values := by
  have h : WellTimed s.valid := ⟨increasing_valid hs, hwhole⟩
  obtain ⟨p, points, hsamples⟩ := List.exists_cons_of_ne_nil hvalid
  refine ⟨moments.map (valueFrom p points), ?_, ?_⟩
  · rw [interpolateAt, hsamples, List.map_map]
    rfl
  · rw [List.forall₂_map_right_iff, List.forall₂_same]
    intro t ht
    obtain ⟨n, hsearch, hn⟩ := exists_search h (narrowed_all s.valid t)
    have hvalue : valueAtPosition? s.valid t n = some (valueFrom p points t) := by
      rw [hsamples] at h hn ⊢
      exact valueAtPosition?_eq h hn
    refine ⟨interpolates_of_narrowed h (hmoments t ht) hn hvalue, ?_⟩
    rw [searchedValue?, hsearch, Option.bind_some, hvalue]

/-- Behind, inside, before and at the samples of a series, and where its value is missing. -/
def gableMoments : List Timestamp :=
  [⟨6000000000⟩, ⟨1500000000⟩, ⟨-1000000000⟩, ⟨2000000000⟩, ⟨3000000000⟩]

theorem interpolateAt_interpolates_gable :
    Increasing gable.index ∧ gable.valid ≠ [] ∧ (∀ p ∈ gable.valid, p.1.IsWholeMilli) ∧
    (∀ t ∈ gableMoments, t.IsWholeMilli) ∧
    (∃ values : List ℚ, gable.interpolateAt gableMoments = values.map some ∧
      List.Forall₂ (fun t v => Interpolates gable.valid t v ∧ searchedValue? gable.valid t = some v)
        gableMoments values) ∧
    gable.interpolateAt gableMoments = [some 2, some 4, some 1, some 5, some 4] := by
  have hs : Increasing gable.index := by
    show List.Pairwise _ _
    decide +kernel
  have hvalid : gable.valid ≠ [] := List.cons_ne_nil _ _
  have hwhole : ∀ p ∈ gable.valid, p.1.IsWholeMilli := by decide +kernel
  have hmoments : ∀ t ∈ gableMoments, t.IsWholeMilli := by decide +kernel
  exact ⟨hs, hvalid, hwhole, hmoments, interpolateAt_interpolates hs hvalid hwhole hmoments,
    by decide +kernel⟩

end Hydroseries.TimeSeries
