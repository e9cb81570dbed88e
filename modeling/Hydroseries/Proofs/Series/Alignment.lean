import Hydroseries.Series.Basic
import Hydroseries.Proofs.Time.Timestamp
import Mathlib.Data.List.Sort

/-!
# Points in time order, and their alignment

Lists of points whose times increase are determined by their members (`eq_of_mem_iff`). Alignment
looks every moment of an index up among such points (`align_eq`); the points at the moments of an
index are the series spread over it. A series keeps all values when it is spread over an index that
has all its moments (`valid_spread`).
-/

namespace Hydroseries

variable {α β : Type}

/-! ## Increasing times -/

theorem Increasing.filter {index : List Timestamp} (h : Increasing index) (p : Timestamp → Bool) :
    Increasing (index.filter p) :=
  List.Pairwise.filter p h

theorem Increasing.map_fst_filter {ps : List (Timestamp × β)} (h : Increasing (ps.map Prod.fst))
    (p : Timestamp × β → Bool) : Increasing ((ps.filter p).map Prod.fst) :=
  List.Pairwise.sublist (List.filter_sublist.map Prod.fst) h

theorem Increasing.le_of_head? {index : List Timestamp} (h : Increasing index) {first : Timestamp}
    (hfirst : index.head? = some first) : ∀ t ∈ index, first ≤ t := by
  obtain ⟨rest, rfl⟩ := List.head?_eq_some_iff.mp hfirst
  intro t ht
  rcases List.mem_cons.mp ht with rfl | ht
  · exact le_refl _
  · exact (List.rel_of_pairwise_cons h ht).le

theorem Increasing.le_of_getLast? {index : List Timestamp} (h : Increasing index)
    {last : Timestamp} (hlast : index.getLast? = some last) : ∀ t ∈ index, t ≤ last := by
  obtain ⟨before, rfl⟩ := List.getLast?_eq_some_iff.mp hlast
  intro t ht
  rcases List.mem_append.mp ht with ht | ht
  · exact ((List.pairwise_append.mp h).2.2 t ht last (List.mem_singleton_self _)).le
  · exact (List.mem_singleton.mp ht).le

/-- Points at the same time are the same. -/
theorem Increasing.eq_of_mem {ps : List (Timestamp × β)} (h : Increasing (ps.map Prod.fst))
    {t : Timestamp} {a b : β} (ha : (t, a) ∈ ps) (hb : (t, b) ∈ ps) : a = b := by
  induction ps with
  | nil => cases ha
  | cons p ps ih =>
    have hlt : ∀ q ∈ ps, p.1 < q.1 := fun q hq =>
      List.rel_of_pairwise_cons h (List.mem_map_of_mem hq)
    rcases List.mem_cons.mp ha with rfl | ha' <;> rcases List.mem_cons.mp hb with hp | hb'
    · exact (Prod.mk.inj hp).2.symm
    · exact absurd (hlt _ hb') (lt_irrefl _)
    · subst hp
      exact absurd (hlt _ ha') (lt_irrefl _)
    · exact ih (List.Pairwise.of_cons h) ha' hb'

/-- Points in time order are determined by their members. -/
theorem Increasing.eq_of_mem_iff {ps qs : List (Timestamp × β)}
    (hp : Increasing (ps.map Prod.fst)) (hq : Increasing (qs.map Prod.fst))
    (h : ∀ p, p ∈ ps ↔ p ∈ qs) : ps = qs := by
  have : Std.Asymm fun p q : Timestamp × β => p.1 < q.1 := ⟨fun _ _ => lt_asymm⟩
  have : Std.Irrefl fun p q : Timestamp × β => p.1 < q.1 := ⟨fun _ => lt_irrefl _⟩
  exact List.Pairwise.eq_of_mem_iff (List.pairwise_map.mp hp) (List.pairwise_map.mp hq) h

namespace TimeSeries

/-! ## Making a series -/

/-- No neighbours are out of order just in an increasing index. -/
theorem firstDisorder?_eq_none {index : List Timestamp} :
    firstDisorder? index = none ↔ Increasing index := by
  fun_induction firstDisorder? index with
  | case1 s t rest hle =>
    simp only [reduceCtorEq, false_iff]
    intro h
    exact not_lt.mpr hle (List.rel_of_pairwise_cons h List.mem_cons_self)
  | case2 s t rest hlt ih =>
    rw [ih]
    constructor
    · intro h
      refine List.Pairwise.cons ?_ h
      intro u hu
      rcases List.mem_cons.mp hu with rfl | hu
      · exact not_le.mp hlt
      · exact (not_le.mp hlt).trans (List.rel_of_pairwise_cons h hu)
    · exact List.Pairwise.tail
  | case3 index hshort =>
    simp only [true_iff]
    match index with
    | [] => exact .nil
    | [_] => exact List.pairwise_singleton _ _
    | s :: t :: rest => exact absurd rfl (hshort s t rest)

/-- A series is made of points that increase in time, and of no others. -/
theorem ofOrdered_eq_ok {points : List (Timestamp × Option α)} {s : TimeSeries α} :
    ofOrdered points = .ok s ↔ Increasing (points.map Prod.fst) ∧ s = ⟨points⟩ := by
  rw [← firstDisorder?_eq_none, ofOrdered]
  cases firstDisorder? (points.map Prod.fst) with
  | none => simp [eq_comm]
  | some _ => simp

/-- Points of different moments increase in time when they are sorted. -/
theorem increasing_sorted {points : List (Timestamp × Option α)} (h : (points.map Prod.fst).Nodup) :
    Increasing ((points.mergeSort fun p q => decide (p.1 ≤ q.1)).map Prod.fst) := by
  have htrans : ∀ p q r : Timestamp × Option α, decide (p.1 ≤ q.1) = true →
      decide (q.1 ≤ r.1) = true → decide (p.1 ≤ r.1) = true := fun p q r hpq hqr =>
    decide_eq_true (le_trans (of_decide_eq_true hpq) (of_decide_eq_true hqr))
  have hsorted := List.pairwise_mergeSort htrans (fun p q => by simpa using le_total p.1 q.1) points
  have hdistinct := ((List.mergeSort_perm points fun p q => decide (p.1 ≤ q.1)).map
    Prod.fst).nodup_iff.mpr h
  refine List.pairwise_map.mpr ((hsorted.and (List.pairwise_map.mp hdistinct)).imp fun hpq => ?_)
  exact lt_of_le_of_ne (of_decide_eq_true hpq.1) hpq.2

/-- A series is made of points in any order if it is these in the order of time. -/
theorem ofPoints_eq_ok {points : List (Timestamp × Option α)} {s : TimeSeries α} :
    ofPoints points = .ok s ↔ Increasing s.index ∧ s.points.Perm points := by
  rw [ofPoints, ofOrdered_eq_ok]
  constructor
  · rintro ⟨hincreasing, rfl⟩
    exact ⟨hincreasing, List.mergeSort_perm _ _⟩
  · rintro ⟨hincreasing, hperm⟩
    have hnodup : (points.map Prod.fst).Nodup :=
      (hperm.map Prod.fst).nodup (hincreasing.imp ne_of_lt)
    have hsorted := hincreasing.eq_of_mem_iff (increasing_sorted hnodup) fun p =>
      hperm.mem_iff.trans List.mem_mergeSort.symm
    exact ⟨increasing_sorted hnodup, congrArg TimeSeries.mk hsorted⟩

/-- Points that increase in time make up a series as they are. -/
theorem ofPoints_of_increasing {points : List (Timestamp × Option α)}
    (h : Increasing (points.map Prod.fst)) : ofPoints points = .ok ⟨points⟩ :=
  ofPoints_eq_ok.mpr ⟨h, .refl _⟩

/-- A series is made of points in any order if no two of them are simultaneous. -/
theorem exists_ofPoints_iff {points : List (Timestamp × Option α)} :
    (∃ s, ofPoints points = .ok s) ↔ (points.map Prod.fst).Nodup := by
  constructor
  · rintro ⟨s, hs⟩
    obtain ⟨hincreasing, hperm⟩ := ofPoints_eq_ok.mp hs
    exact (hperm.map Prod.fst).nodup (hincreasing.imp ne_of_lt)
  · intro h
    exact ⟨_, ofPoints_eq_ok.mpr ⟨increasing_sorted h, List.mergeSort_perm _ _⟩⟩

/-! ## Points, values and moments -/

variable {s : TimeSeries α}

theorem mem_index {t : Timestamp} : t ∈ s.index ↔ ∃ o, (t, o) ∈ s.points := by
  simp [index]

theorem mem_valid {t : Timestamp} {v : α} : (t, v) ∈ s.valid ↔ (t, some v) ∈ s.points := by
  simp only [valid, List.mem_filterMap, Option.map_eq_some_iff]
  constructor
  · rintro ⟨⟨t', o⟩, hmem, v', ho, heq⟩
    obtain ⟨rfl, rfl⟩ := Prod.mk.inj heq
    rwa [show o = some v' from ho] at hmem
  · intro hmem
    exact ⟨(t, some v), hmem, v, rfl, rfl⟩

theorem valid_map_fst_sublist (s : TimeSeries α) : (s.valid.map Prod.fst).Sublist s.index := by
  obtain ⟨ps⟩ := s
  simp only [valid, index]
  induction ps with
  | nil => exact .slnil
  | cons p ps ih =>
    obtain ⟨t, o⟩ := p
    cases o with
    | none => exact ih.cons _
    | some v => exact ih.cons_cons _

@[simp] theorem index_mapValues {β : Type} (f : α → β) (s : TimeSeries α) :
    (s.mapValues f).index = s.index := by
  simp [mapValues, index]

theorem valid_mapValues {β : Type} (f : α → β) (s : TimeSeries α) :
    (s.mapValues f).valid = s.valid.map fun p => (p.1, f p.2) := by
  simp [mapValues, valid, List.filterMap_map, List.map_filterMap, Function.comp_def]

theorem increasing_valid (h : Increasing s.index) : Increasing (s.valid.map Prod.fst) :=
  List.Pairwise.sublist s.valid_map_fst_sublist h

/-- Series in time order have the same values if they have the same points with a value. -/
theorem valid_ext {r : TimeSeries α} (hs : Increasing s.index) (hr : Increasing r.index)
    (h : ∀ t v, (t, some v) ∈ s.points ↔ (t, some v) ∈ r.points) : s.valid = r.valid := by
  refine Increasing.eq_of_mem_iff (increasing_valid hs) (increasing_valid hr) ?_
  rintro ⟨t, v⟩
  rw [mem_valid, mem_valid, h]

theorem valueAt?_eq_some (h : Increasing s.index) {t : Timestamp} {v : α} :
    s.valueAt? t = some v ↔ (t, some v) ∈ s.points := by
  unfold valueAt?
  rw [Option.bind_eq_some_iff]
  constructor
  · rintro ⟨⟨t', o⟩, hfind, ho⟩
    have htime := List.find?_some hfind
    simp only [decide_eq_true_eq] at htime
    have hmem := List.mem_of_find?_eq_some hfind
    rwa [htime, show o = some v from ho] at hmem
  · intro hmem
    cases hfind : s.points.find? fun p => decide (p.1 = t) with
    | none => simpa using List.find?_eq_none.mp hfind _ hmem
    | some p =>
      obtain ⟨t', o⟩ := p
      have htime := List.find?_some hfind
      simp only [decide_eq_true_eq] at htime
      subst htime
      exact ⟨_, rfl, Increasing.eq_of_mem h (List.mem_of_find?_eq_some hfind) hmem⟩

theorem valueAt?_cons_of_ne {p : Timestamp × Option α} {ps : List (Timestamp × Option α)}
    {t : Timestamp} (h : p.1 ≠ t) : valueAt? ⟨p :: ps⟩ t = valueAt? ⟨ps⟩ t := by
  simp [valueAt?, h]

theorem valueAt?_of_notMem {t : Timestamp} (h : t ∉ s.index) : s.valueAt? t = none := by
  have hfind : (s.points.find? fun p => decide (p.1 = t)) = none := by
    refine List.find?_eq_none.mpr fun p hp heq => h ?_
    rw [← of_decide_eq_true heq]
    exact List.mem_map_of_mem hp
  rw [valueAt?, hfind]
  rfl

/-- Among increasing times the value at the time of a point is that of the point. -/
theorem valueAt?_of_mem (h : Increasing s.index) {t : Timestamp} {o : Option α}
    (hmem : (t, o) ∈ s.points) : s.valueAt? t = o := by
  cases o with
  | some v => exact (valueAt?_eq_some h).mpr hmem
  | none =>
    cases hvalue : s.valueAt? t with
    | none => rfl
    | some v => exact (h.eq_of_mem ((valueAt?_eq_some h).mp hvalue) hmem)

/-! ## Alignment -/

/-- Alignment looks up each moment of the index. -/
theorem alignGo_eq (acc : List (Option α)) (ps : List (Timestamp × Option α))
    (ts : List Timestamp) (hp : Increasing (ps.map Prod.fst)) (ht : Increasing ts) :
    alignGo acc ps ts = acc.reverse ++ ts.map (valueAt? ⟨ps⟩) := by
  fun_induction alignGo acc ps ts with
  | case1 acc ps => simp
  | case2 acc t ts ih =>
    rw [ih hp (List.Pairwise.of_cons ht), List.reverse_cons, List.append_assoc]
    rfl
  | case3 acc p ps t ts hlt ih =>
    rw [ih (List.Pairwise.of_cons hp) ht]
    congr 1
    refine List.map_congr_left fun u hu => (valueAt?_cons_of_ne ?_).symm
    have hle : t ≤ u := by
      rcases List.mem_cons.mp hu with rfl | hu
      · exact le_refl _
      · exact (List.rel_of_pairwise_cons ht hu).le
    exact (lt_of_lt_of_le hlt hle).ne
  | case4 acc p ps ts hlt ih =>
    rw [ih (List.Pairwise.of_cons hp) (List.Pairwise.of_cons ht), List.reverse_cons,
      List.append_assoc, List.map_cons]
    have hhere : valueAt? ⟨p :: ps⟩ p.1 = p.2 := by simp [valueAt?]
    have hrest : ∀ u ∈ ts, valueAt? ⟨ps⟩ u = valueAt? ⟨p :: ps⟩ u := fun u hu =>
      (valueAt?_cons_of_ne (List.rel_of_pairwise_cons ht hu).ne).symm
    rw [hhere, List.map_congr_left hrest]
    rfl
  | case5 acc p ps t ts hlt hne ih =>
    rw [ih hp (List.Pairwise.of_cons ht), List.reverse_cons, List.append_assoc, List.map_cons]
    have hbefore : t < p.1 := lt_of_le_of_ne (not_lt.mp hlt) (Ne.symm hne)
    have hnone : valueAt? ⟨p :: ps⟩ t = none := by
      refine valueAt?_of_notMem fun hmem => ?_
      rcases List.mem_cons.mp hmem with rfl | hmem
      · exact lt_irrefl _ hbefore
      · exact lt_asymm hbefore (List.rel_of_pairwise_cons hp hmem)
    rw [hnone]
    rfl

theorem align_eq {ps : List (Timestamp × Option α)} {index : List Timestamp}
    (hp : Increasing (ps.map Prod.fst)) (hi : Increasing index) :
    align ps index = index.map (valueAt? ⟨ps⟩) :=
  alignGo_eq [] ps index hp hi

/-! ## Spreading -/

/-- The series with a point at each moment of an index, and at no other. -/
def spread (s : TimeSeries α) (index : List Timestamp) : TimeSeries α :=
  ⟨index.map fun t => (t, s.valueAt? t)⟩

theorem zip_align {ps : List (Timestamp × Option α)} {index : List Timestamp}
    (hp : Increasing (ps.map Prod.fst)) (hi : Increasing index) :
    index.zip (align ps index) = (spread ⟨ps⟩ index).points := by
  have hzip : (index.map id).zip (index.map (valueAt? ⟨ps⟩)) = (spread ⟨ps⟩ index).points :=
    List.zip_map'
  rwa [List.map_id, ← align_eq hp hi] at hzip

@[simp] theorem index_spread (s : TimeSeries α) (index : List Timestamp) :
    (s.spread index).index = index := by
  simp [spread, TimeSeries.index, Function.comp_def]

theorem mem_spread {index : List Timestamp} {t : Timestamp} {o : Option α} :
    (t, o) ∈ (s.spread index).points ↔ t ∈ index ∧ s.valueAt? t = o := by
  simp only [spread, List.mem_map, Prod.mk.injEq]
  constructor
  · rintro ⟨t', hmem, rfl, ho⟩
    exact ⟨hmem, ho⟩
  · rintro ⟨hmem, ho⟩
    exact ⟨t, hmem, rfl, ho⟩

theorem mem_spread_some (h : Increasing s.index) {index : List Timestamp} {t : Timestamp} {v : α} :
    (t, some v) ∈ (s.spread index).points ↔ t ∈ index ∧ (t, some v) ∈ s.points := by
  rw [mem_spread, valueAt?_eq_some h]

/-- A series spread over its own index is itself. -/
theorem spread_index (h : Increasing s.index) : s.spread s.index = s := by
  obtain ⟨ps⟩ := s
  have hpoints : ps.map (fun p => (p.1, valueAt? ⟨ps⟩ p.1)) = ps.map id :=
    List.map_congr_left fun p hp => Prod.ext rfl (valueAt?_of_mem h hp)
  rw [spread, TimeSeries.index, List.map_map]
  exact congrArg TimeSeries.mk (hpoints.trans (List.map_id ps))

theorem valueAt?_spread {index : List Timestamp} (hi : Increasing index) {t : Timestamp}
    (ht : t ∈ index) : (s.spread index).valueAt? t = s.valueAt? t :=
  valueAt?_of_mem (by rwa [index_spread]) (mem_spread.mpr ⟨ht, rfl⟩)

/-- Spreading twice is spreading once, if the first index has all moments of the series. -/
theorem spread_spread {index wider : List Timestamp} (hi : Increasing index)
    (hsub : s.index ⊆ index) : (s.spread index).spread wider = s.spread wider := by
  refine congrArg TimeSeries.mk (List.map_congr_left fun t _ => Prod.ext rfl ?_)
  by_cases ht : t ∈ index
  · exact valueAt?_spread hi ht
  · have hspread : t ∉ (s.spread index).index := by rwa [index_spread]
    exact (valueAt?_of_notMem hspread).trans (valueAt?_of_notMem fun h => ht (hsub h)).symm

/-- Nothing is lost over an index that has the moments of all values. -/
theorem valid_spread {index : List Timestamp} (hs : Increasing s.index) (hi : Increasing index)
    (hsub : ∀ p ∈ s.valid, p.1 ∈ index) : (s.spread index).valid = s.valid := by
  refine valid_ext (by rwa [index_spread]) hs fun t v => ?_
  rw [mem_spread_some hs, and_iff_right_iff_imp]
  exact fun hmem => hsub (t, v) (mem_valid.mpr hmem)

/-- The value at a moment depends on the values only, not on the gaps. -/
theorem valueAt?_congr {r : TimeSeries α} (hs : Increasing s.index) (hr : Increasing r.index)
    (h : s.valid = r.valid) (t : Timestamp) : s.valueAt? t = r.valueAt? t := by
  refine Option.ext fun v => ?_
  rw [valueAt?_eq_some hs, valueAt?_eq_some hr, ← mem_valid, ← mem_valid, h]

/-- Series with the same values are spread alike. -/
theorem spread_congr {r : TimeSeries α} (hs : Increasing s.index) (hr : Increasing r.index)
    (h : s.valid = r.valid) (index : List Timestamp) : s.spread index = r.spread index :=
  congrArg TimeSeries.mk <| List.map_congr_left fun t _ => by rw [valueAt?_congr hs hr h]

end TimeSeries

end Hydroseries
