import Hydroseries.Proofs.Arith.Rational
import Hydroseries.Proofs.Stat.Blocks
import Hydroseries.Stat.Baseflow
import Mathlib.Algebra.Order.Field.Basic
import Mathlib.Order.Bounds.Basic
import Mathlib.Tactic.Linarith

/-!
# Baseflow within the hydrograph

Over the rationals no method puts the baseflow below the least flow (`le_of_mem_raw`): the baseflow is
a flow, or lies on the straight line between two flows. The turning points are the positions with the
least flow of the interval around them (`mem_turningPoints`). The line of the local method goes through
the flows there, and straight on from each of them to the next (`lineThrough_turning`,
`lineThrough_between`). What is above the flow is cut off at the end (`separate_within`).
-/

namespace Hydroseries

namespace Baseflow

variable {flow values : List ℚ} {points : List ℕ} {interval a b i : ℕ} {low p q r v : ℚ}

/-! ## The least flow of a window -/

theorem windowMin_eq (values : List ℚ) : windowMin values = values.min?.getD 0 := by
  have hmin : (Arith.min : ℚ → ℚ → ℚ) = min := funext₂ Arith.min_rational
  have hall : (values.filter fun v => !Arith.isNaN v) = values :=
    List.filter_eq_self.mpr fun _ _ => rfl
  rw [windowMin, hall]
  cases values with
  | nil => rfl
  | cons v rest =>
    rw [Stat.min?, hmin, List.min?_cons']
    rfl

theorem isLeast_windowMin (h : values ≠ []) : IsLeast {v | v ∈ values} (windowMin values) := by
  obtain ⟨v, hv⟩ := Option.isSome_iff_exists.mp (List.isSome_min?_of_ne_nil h)
  rw [windowMin_eq, hv]
  exact ⟨List.min?_mem hv, (List.min?_eq_some_iff.mp hv).2⟩

/-- The positions lie in one interval around either of them. -/
def Near (interval i j : ℕ) : Prop := i ≤ j + (interval - 1) / 2 ∧ j ≤ i + (interval - 1) / 2

/-- The window at a position has the flows in the interval around it, cut off at the ends. -/
theorem mem_windowAt :
    v ∈ windowAt flow.toArray interval i ↔ ∃ j, Near interval i j ∧ flow[j]? = some v := by
  rw [windowAt, Array.toList_extract, List.extract_eq_take_drop, List.mem_iff_getElem?]
  simp only [List.getElem?_take, List.getElem?_drop, Near]
  constructor
  · rintro ⟨n, hn⟩
    split at hn
    · exact ⟨_, by omega, hn⟩
    · cases hn
  · rintro ⟨j, hnear, hj⟩
    have hplace : i - (interval - 1) / 2 + (j - (i - (interval - 1) / 2)) = j := by omega
    refine ⟨j - (i - (interval - 1) / 2), ?_⟩
    rw [if_pos (by omega), hplace]
    exact hj

theorem self_mem_windowAt (h : flow[i]? = some v) : v ∈ windowAt flow.toArray interval i :=
  mem_windowAt.mpr ⟨i, ⟨Nat.le_add_right _ _, Nat.le_add_right _ _⟩, h⟩

/-- The least flow of a window is one of the flows in the interval. -/
theorem exists_windowMin (interval : ℕ) (h : flow[i]? = some v) :
    ∃ j, Near interval i j ∧ flow[j]? = some (windowMin (windowAt flow.toArray interval i)) :=
  mem_windowAt.mp (isLeast_windowMin (List.ne_nil_of_mem (self_mem_windowAt h))).1

/-! ## Turning points -/

/-- The position has the least flow of the interval around it. -/
def IsTurningPoint (flow : List ℚ) (interval i : ℕ) : Prop :=
  ∃ q, flow[i]? = some q ∧ ∀ j p, Near interval i j → flow[j]? = some p → q ≤ p

/-- Two turning points without another one between them. -/
structure Neighbours (flow : List ℚ) (interval a b : ℕ) : Prop where
  left : IsTurningPoint flow interval a
  right : IsTurningPoint flow interval b
  lt : a < b
  none_between : ∀ i, a < i → i < b → ¬ IsTurningPoint flow interval i

theorem mem_turningPoints :
    i ∈ turningPoints flow.toArray interval ↔ IsTurningPoint flow interval i := by
  rw [turningPoints, List.mem_filter, List.mem_range, List.size_toArray, List.getElem?_toArray]
  constructor
  · rintro ⟨hi, hleast⟩
    rw [List.getElem?_eq_getElem hi] at hleast
    refine ⟨flow[i], List.getElem?_eq_getElem hi, fun j p hnear hj => ?_⟩
    have hmem := mem_windowAt.mpr ⟨j, hnear, hj⟩
    exact (of_decide_eq_true hleast).trans ((isLeast_windowMin (List.ne_nil_of_mem hmem)).2 hmem)
  · rintro ⟨q, hq, hleast⟩
    obtain ⟨j, hnear, hj⟩ := exists_windowMin interval hq
    rw [hq]
    exact ⟨(List.getElem?_eq_some_iff.mp hq).1, decide_eq_true (hleast j _ hnear hj)⟩

theorem pairwise_turningPoints (flow : Array ℚ) (interval : ℕ) :
    (turningPoints flow interval).Pairwise (· < ·) := List.pairwise_lt_range.filter _

theorem lt_length_of_mem_turningPoints (h : a ∈ turningPoints flow.toArray interval) :
    a < flow.length := by
  obtain ⟨q, hq, -⟩ := mem_turningPoints.mp h
  exact (List.getElem?_eq_some_iff.mp hq).1

/-! ## Lines between points -/

/-- The first of increasing points from a position on. -/
theorem find?_ge_eq_some (hpoints : points.Pairwise (· < ·)) (hb : b ∈ points) (hi : i ≤ b)
    (hfirst : ∀ c ∈ points, i ≤ c → b ≤ c) : points.find? (i ≤ ·) = some b := by
  obtain ⟨before, after, rfl⟩ := List.append_of_mem hb
  refine List.find?_eq_some_iff_append.mpr ⟨decide_eq_true hi, before, after, rfl, fun c hc => ?_⟩
  have hcb : c < b := (List.pairwise_append.mp hpoints).2.2 c hc b List.mem_cons_self
  have hci : ¬ i ≤ c := fun hle => hcb.not_ge (hfirst c (List.mem_append_left _ hc) hle)
  simpa using hci

/-- The last of increasing points before a position. -/
theorem getLast?_lt_eq_some (hpoints : points.Pairwise (· < ·)) (ha : a ∈ points) (hi : a < i)
    (hlast : ∀ c ∈ points, c < i → c ≤ a) : (points.filter (· < i)).getLast? = some a := by
  obtain ⟨before, after, rfl⟩ := List.append_of_mem ha
  have hnone : after.filter (· < i) = [] := by
    refine List.filter_eq_nil_iff.mpr fun c hc => ?_
    have hac : a < c :=
      List.rel_of_pairwise_cons (List.pairwise_append.mp hpoints).2.1 hc
    have hic : ¬ c < i := fun hlt =>
      hac.not_ge (hlast c (List.mem_append_right _ (List.mem_cons_of_mem _ hc)) hlt)
    simpa using hic
  rw [List.filter_append, List.filter_cons_of_pos (by simpa using hi), hnone, List.getLast?_concat]

/-- The straight line from the value `p` at `a` to the value `r` at `b`. -/
def lineAt (a b : ℕ) (p r : ℚ) (i : ℕ) : ℚ := p + (r - p) * (((i : ℚ) - a) / ((b : ℚ) - a))

theorem between_eq (ha : flow[a]? = some p) (hb : flow[b]? = some r) (hai : a ≤ i) (hib : i ≤ b) :
    between flow.toArray a b i = lineAt a b p r i := by
  rw [between, List.getElem?_toArray, List.getElem?_toArray, ha, hb]
  dsimp only
  rw [Arith.ofNat_rational, Arith.ofNat_rational, Nat.cast_sub hai, Nat.cast_sub (hai.trans hib),
    lineAt]

/-- Between its ends a line is nowhere below both of them. -/
theorem le_lineAt (hai : a ≤ i) (hib : i ≤ b) (hp : low ≤ p) (hr : low ≤ r) :
    low ≤ lineAt a b p r i := by
  have hstart : (0 : ℚ) ≤ (i : ℚ) - a := sub_nonneg.mpr (Nat.cast_le.mpr hai)
  have hwhole : (i : ℚ) - a ≤ (b : ℚ) - a := sub_le_sub_right (Nat.cast_le.mpr hib) _
  have hshare : 0 ≤ ((i : ℚ) - a) / ((b : ℚ) - a) := div_nonneg hstart (hstart.trans hwhole)
  have hrest : 0 ≤ 1 - ((i : ℚ) - a) / ((b : ℚ) - a) :=
    sub_nonneg.mpr (div_le_one_of_le₀ hwhole (hstart.trans hwhole))
  have hfirst := mul_le_mul_of_nonneg_right hp hrest
  have hsecond := mul_le_mul_of_nonneg_right hr hshare
  rw [lineAt]
  linarith

/-- The line through points goes through the flows at them. -/
theorem lineThrough_turning (hi : i ∈ turningPoints flow.toArray interval) (hq : flow[i]? = some q) :
    lineThrough flow.toArray (turningPoints flow.toArray interval) i = q := by
  have hfind := find?_ge_eq_some (pairwise_turningPoints flow.toArray interval) hi le_rfl
    fun _ _ hle => hle
  have hvalue : (flow.toArray[i]?).getD Arith.zero = q := by
    rw [List.getElem?_toArray, hq, Option.getD_some]
  rw [lineThrough, hfind]
  cases ((turningPoints flow.toArray interval).filter (· < i)).getLast? with
  | none => exact hvalue
  | some a => exact (if_pos rfl).trans hvalue

/-- Between turning points it goes straight on. -/
theorem lineThrough_between (h : Neighbours flow interval a b) (hp : flow[a]? = some p)
    (hr : flow[b]? = some r) (hai : a < i) (hib : i < b) :
    lineThrough flow.toArray (turningPoints flow.toArray interval) i = lineAt a b p r i := by
  have hpoints := pairwise_turningPoints flow.toArray interval
  have hlast := getLast?_lt_eq_some hpoints (mem_turningPoints.mpr h.left) hai fun c hc hci =>
    not_lt.mp fun hac => h.none_between c hac (hci.trans hib) (mem_turningPoints.mp hc)
  have hfirst := find?_ge_eq_some hpoints (mem_turningPoints.mpr h.right) hib.le fun c hc hic =>
    not_lt.mp fun hcb => h.none_between c (hai.trans_le hic) hcb (mem_turningPoints.mp hc)
  rw [lineThrough, hlast, hfirst]
  dsimp only
  rw [if_neg hib.ne', between_eq hp hr hai.le hib.le]

/-- A line through flows is nowhere below the least flow. -/
theorem le_lineThrough (hlow : ∀ q ∈ flow, low ≤ q) (hpoints : ∀ c ∈ points, c < flow.length)
    (hi : i < flow.length) : low ≤ lineThrough flow.toArray points i := by
  have hat : ∀ k < flow.length, low ≤ (flow.toArray[k]?).getD Arith.zero := fun k hk => by
    rw [List.getElem?_toArray, List.getElem?_eq_getElem hk]
    exact hlow _ (List.getElem_mem hk)
  unfold lineThrough
  dsimp only
  split
  next b _ hb => exact hat b (hpoints b (List.mem_of_find?_eq_some hb))
  next a ha _ =>
    exact hat a (hpoints a (List.mem_filter.mp (List.mem_of_getLast? ha)).1)
  next a b ha hb =>
    split
    next => exact hat i hi
    next hbi =>
      obtain ⟨hamem, hai⟩ := List.mem_filter.mp (List.mem_of_getLast? ha)
      have hib : i ≤ b := by simpa using List.find?_some hb
      have hp := List.getElem?_eq_getElem (hpoints a hamem)
      have hr := List.getElem?_eq_getElem (hpoints b (List.mem_of_find?_eq_some hb))
      rw [between_eq hp hr (of_decide_eq_true hai).le hib]
      exact le_lineAt (of_decide_eq_true hai).le hib (hlow _ (List.getElem_mem _))
        (hlow _ (List.getElem_mem _))
  next => exact hat i hi

/-! ## Before the cut -/

theorem length_raw (hinterval : 0 < interval) (method : Method) :
    (raw flow method interval).length = flow.length := by
  cases method with
  | fixed =>
    rw [raw, fixedMinima, List.length_flatMap]
    conv_rhs => rw [← Stat.flatten_chunks hinterval flow, List.length_flatten]
    simp only [List.length_map]
  | sliding => simp [raw, slidingMinima]
  | locMin => simp [raw, localMinima]

/-- The baseflow is nowhere below the least flow. -/
theorem le_of_mem_raw (hinterval : 0 < interval) (method : Method) (hlow : ∀ q ∈ flow, low ≤ q)
    (hv : v ∈ raw flow method interval) : low ≤ v := by
  cases method with
  | fixed =>
    obtain ⟨block, hblock, hv⟩ := List.mem_flatMap.mp hv
    obtain ⟨w, hw, rfl⟩ := List.mem_map.mp hv
    refine hlow _ ?_
    rw [← Stat.flatten_chunks hinterval flow]
    exact List.mem_flatten_of_mem hblock (isLeast_windowMin (List.ne_nil_of_mem hw)).1
  | sliding =>
    obtain ⟨i, hi, rfl⟩ := List.mem_map.mp hv
    have hself : flow[i]? = some _ := List.getElem?_eq_getElem (List.mem_range.mp hi)
    obtain ⟨j, -, hj⟩ := exists_windowMin interval hself
    exact hlow _ (List.mem_of_getElem? hj)
  | locMin =>
    obtain ⟨i, hi, rfl⟩ := List.mem_map.mp hv
    exact le_lineThrough hlow (fun _ => lt_length_of_mem_turningPoints) (List.mem_range.mp hi)

/-! ## Cut off at the flow -/

theorem separate_eq (hinterval : 0 < interval) (method : Method) :
    separate flow method interval = .ok ((raw flow method interval).zipWith min flow) := by
  have hmin : (Arith.min : ℚ → ℚ → ℚ) = min := funext₂ Arith.min_rational
  rw [separate, if_neg hinterval.ne', hmin]

/-- The line of the local method, cut off at the flow. -/
theorem getElem?_separate_locMin (hq : flow[i]? = some q) :
    ((raw flow .locMin interval).zipWith min flow)[i]? =
      some (min (lineThrough flow.toArray (turningPoints flow.toArray interval) i) q) := by
  have hi := (List.getElem?_eq_some_iff.mp hq).1
  rw [List.getElem?_zipWith_eq_some]
  refine ⟨_, q, ?_, hq, rfl⟩
  simp [raw, localMinima, hi]

/-- With an interval of at least one position there is a baseflow at every position of the flow, which
lies between the least flow of all and the flow at the position. The local method keeps the flow at its
turning points, and goes straight from one to the next where the line is not above the flow. -/
theorem separate_within (flow : List ℚ) (method : Method) (hinterval : 1 ≤ interval) :
    ∃ base, separate flow method interval = .ok base ∧ base.length = flow.length ∧
      (∀ (i : ℕ) (v q : ℚ), base[i]? = some v → flow[i]? = some q → v ≤ q) ∧
      (∀ low, IsLeast {q | q ∈ flow} low → ∀ v ∈ base, low ≤ v) ∧
      (method = .locMin →
        (∀ i, IsTurningPoint flow interval i → base[i]? = flow[i]?) ∧
        ∀ (a b : ℕ) (p r : ℚ), Neighbours flow interval a b → flow[a]? = some p →
          flow[b]? = some r → ∀ (i : ℕ) (q : ℚ), a < i → i < b → flow[i]? = some q →
            lineAt a b p r i ≤ q → base[i]? = some (lineAt a b p r i)) := by
  refine ⟨_, separate_eq hinterval method, ?_, ?_, ?_, ?_⟩
  · rw [List.length_zipWith, length_raw hinterval, min_self]
  · intro i v q hv hq
    obtain ⟨w, q', -, hq', rfl⟩ := List.getElem?_zipWith_eq_some.mp hv
    obtain rfl := Option.some.inj (hq.symm.trans hq')
    exact min_le_right w q
  · intro low hlow v hv
    obtain ⟨i, hi⟩ := List.mem_iff_getElem?.mp hv
    obtain ⟨w, q, hw, hq, rfl⟩ := List.getElem?_zipWith_eq_some.mp hi
    apply le_min
    · exact le_of_mem_raw hinterval method (fun _ hmem => hlow.2 hmem) (List.mem_of_getElem? hw)
    · exact hlow.2 (List.mem_of_getElem? hq)
  · rintro rfl
    constructor
    · intro i hi
      have hmem := mem_turningPoints.mpr hi
      obtain ⟨q, hq, -⟩ := hi
      rw [getElem?_separate_locMin hq, lineThrough_turning hmem hq, min_self, hq]
    · intro a b p r h hp hr i q hai hib hq hle
      rw [getElem?_separate_locMin hq, lineThrough_between h hp hr hai hib, min_eq_left hle]

/-- Flows with turning points at both ends of a rise and behind it. -/
def storm : List ℚ := [5, 4, 9, 12, 6, 3, 8, 7, 2, 4]

theorem isTurningPoint_storm : IsTurningPoint storm 5 i ↔ i = 1 ∨ i = 5 ∨ i = 8 := by
  have hpoints : turningPoints storm.toArray 5 = [1, 5, 8] := by decide +kernel
  rw [← mem_turningPoints, hpoints]
  simp

theorem neighbours_storm : Neighbours storm 5 5 8 := by
  constructor
  · simp [isTurningPoint_storm]
  · simp [isTurningPoint_storm]
  · decide
  · intro i hlow hhigh hi
    rw [isTurningPoint_storm] at hi
    omega

theorem separate_within_storm : 1 ≤ 5 ∧ ∃ base : List ℚ, separate storm .locMin 5 = .ok base ∧
    base.length = 10 ∧ base[5]? = some 3 ∧ base[6]? = some (8 / 3) ∧ base[7]? = some (7 / 3) ∧
    base[8]? = some 2 ∧ ∀ v ∈ base, 2 ≤ v := by
  have hinterval : 1 ≤ 5 := by decide
  obtain ⟨base, hbase, hlength, -, hlow, hlocal⟩ := separate_within storm .locMin hinterval
  obtain ⟨hturning, hlines⟩ := hlocal rfl
  have hleast : IsLeast {q | q ∈ storm} 2 := by
    constructor
    · simp [storm]
    · norm_num [lowerBounds, storm]
  have hsixth : lineAt 5 8 3 2 6 = 8 / 3 := by norm_num [lineAt]
  have hseventh : lineAt 5 8 3 2 7 = 7 / 3 := by norm_num [lineAt]
  have hline := hlines 5 8 3 2 neighbours_storm rfl rfl
  refine ⟨hinterval, base, hbase, hlength, ?_, ?_, ?_, ?_, hlow 2 hleast⟩
  · rw [hturning 5 neighbours_storm.left]
    rfl
  · rw [← hsixth]
    exact hline 6 8 (by decide) (by decide) rfl (by rw [hsixth]; norm_num)
  · rw [← hseventh]
    exact hline 7 7 (by decide) (by decide) rfl (by rw [hseventh]; norm_num)
  · rw [hturning 8 neighbours_storm.right]
    rfl

end Baseflow

end Hydroseries
