import Hydroseries.Proofs.Outcome
import Hydroseries.Proofs.Stat.Blocks
import Hydroseries.Stat.Event

/-!
# Peaks and the events around them

The walk over a series finds the peaks: the values that surpass those of the window before them and are
not surpassed in the window behind (`exists_peaks`). So two peaks are more than a window apart
(`IsPeak.apart`), and where the greatest value of all stands first there is a peak if it is high enough
(`IsFirstGreatest.isPeak`). What is kept of the series are the values near a peak
(`events_of_extract`).
-/

namespace Hydroseries.Event

variable {values : List (Option Double)} {window p q : ℕ} {minPeak v w : Double}

/-! ## Peaks -/

/-- The value at a position is high enough, surpasses all that come up to a window before it, and is
not surpassed by those that come up to a window after it. -/
structure IsPeak (values : List (Option Double)) (window : ℕ) (minPeak : Double) (p : ℕ)
    (v : Double) : Prop where
  value : values[p]? = some (some v)
  size : ¬ v < minPeak
  before : ∀ (j : ℕ) (w : Double), j < p → p ≤ j + window → values[j]? = some (some w) → w < v
  after : ∀ (j : ℕ) (w : Double), p ≤ j → j ≤ p + window → values[j]? = some (some w) → w ≤ v

/-- No value is greater, and no earlier one is equal. -/
structure IsFirstGreatest (values : List (Option Double)) (p : ℕ) (v : Double) : Prop where
  value : values[p]? = some (some v)
  greatest : ∀ (j : ℕ) (w : Double), values[j]? = some (some w) → w ≤ v
  first : ∀ (j : ℕ) (w : Double), j < p → values[j]? = some (some w) → (w == v) = false

/-- Of two peaks in one window, the later one would surpass the earlier one. -/
theorem IsPeak.apart (hp : IsPeak values window minPeak p v) (hq : IsPeak values window minPeak q w)
    (hlt : p < q) : p + window < q := by
  by_contra hnear
  have hearlier := Double.lt_iff.mp (hq.before p v hlt (by omega) hp.value)
  have hlater := Double.le_iff.mp (hp.after q w hlt.le (by omega) hq.value)
  omega

theorem IsFirstGreatest.isPeak (h : IsFirstGreatest values p v) (window : ℕ) (hmin : minPeak ≤ v) :
    IsPeak values window minPeak p v := by
  refine ⟨h.value, ?_, ?_, fun j w _ _ hw => h.greatest j w hw⟩
  · intro hlt
    have hless := Double.lt_iff.mp hlt
    have hle := Double.le_iff.mp hmin
    omega
  · intro j w hj _ hw
    have hle : (w.less v || w.equal v) = true := h.greatest j w hw
    have hne : w.equal v = false := h.first j w hj hw
    show w.less v = true
    simpa [hne] using hle

/-! ## The walk -/

section Walk

variable {β : Type} (passed rest : List β) {n : ℕ} {x : β}

/-- What has been passed, nearest first, stands right before the position of the walk. -/
theorem mem_take_passed : x ∈ passed.take n ↔
    ∃ j, j < passed.length ∧ passed.length ≤ j + n ∧ (passed.reverse ++ rest)[j]? = some x := by
  rw [List.mem_iff_getElem?]
  simp only [List.getElem?_take]
  constructor
  · rintro ⟨k, hk⟩
    split at hk
    next hkn =>
      have hlt := (List.getElem?_eq_some_iff.mp hk).1
      refine ⟨passed.length - 1 - k, by omega, by omega, ?_⟩
      rw [List.getElem?_append_left (by simp; omega), List.getElem?_reverse (by omega)]
      rwa [show passed.length - 1 - (passed.length - 1 - k) = k by omega]
    · cases hk
  · rintro ⟨j, hlt, hnear, hj⟩
    refine ⟨passed.length - 1 - j, ?_⟩
    rw [List.getElem?_append_left (by simpa using hlt), List.getElem?_reverse hlt] at hj
    rwa [if_pos (by omega)]

theorem mem_take_rest : x ∈ rest.take n ↔
    ∃ j, passed.length ≤ j ∧ j < passed.length + n ∧ (passed.reverse ++ rest)[j]? = some x := by
  rw [List.mem_iff_getElem?]
  simp only [List.getElem?_take]
  constructor
  · rintro ⟨k, hk⟩
    split at hk
    next hkn =>
      refine ⟨passed.length + k, by omega, by omega, ?_⟩
      rw [List.getElem?_append_right (by simp), List.length_reverse, Nat.add_sub_cancel_left]
      exact hk
    · cases hk
  · rintro ⟨j, hle, hlt, hj⟩
    refine ⟨j - passed.length, ?_⟩
    rw [List.getElem?_append_right (by simpa using hle), List.length_reverse] at hj
    rwa [if_pos (by omega)]

/-- Positions from `n` on are `n` and those from the next one on. -/
theorem mem_ite_cons {P : ℕ → Prop} {n : ℕ} {here : Bool} {later : List ℕ} (hhere : here = true ↔ P n)
    (hlater : ∀ p, p ∈ later ↔ n + 1 ≤ p ∧ P p) (p : ℕ) :
    p ∈ (if here then n :: later else later) ↔ n ≤ p ∧ P p := by
  have hsplit : n ≤ p ↔ p = n ∨ n + 1 ≤ p := by omega
  cases here with
  | true => grind
  | false => grind

end Walk

theorem all_all_iff {P : Double → Prop} [DecidablePred P] {l : List (Option Double)} :
    (l.all fun o => o.all fun w => decide (P w)) = true ↔ ∀ w, some w ∈ l → P w := by
  rw [List.all_eq_true]
  constructor
  · intro h w hw
    simpa using h (some w) hw
  · intro h o ho
    cases o with
    | none => rfl
    | some w => simpa using h w ho

/-- The test of the walk at a value that is high enough. -/
theorem dominates_iff {passed rest : List (Option Double)} (hsize : ¬ v < minPeak) :
    dominates v (passed.take window) ((some v :: rest).take (window + 1)) = true ↔
      IsPeak (passed.reverse ++ some v :: rest) window minPeak passed.length v := by
  have hvalue : (passed.reverse ++ some v :: rest)[passed.length]? = some (some v) := by
    simp
  refine (Bool.and_eq_true_iff.trans (and_congr all_all_iff all_all_iff)).trans ?_
  constructor
  · rintro ⟨hbefore, hafter⟩
    refine ⟨hvalue, hsize, ?_, ?_⟩
    · intro j w hlt hnear hw
      exact hbefore w ((mem_take_passed _ _).mpr ⟨j, hlt, hnear, hw⟩)
    · intro j w hle hnear hw
      exact hafter w ((mem_take_rest _ _).mpr ⟨j, hle, by omega, hw⟩)
  · intro h
    constructor
    · intro w hw
      obtain ⟨j, hlt, hnear, hj⟩ := (mem_take_passed passed (some v :: rest)).mp hw
      exact h.before j w hlt hnear hj
    · intro w hw
      obtain ⟨j, hle, hnear, hj⟩ := (mem_take_rest passed _).mp hw
      exact h.after j w hle (by omega) hj

/-- The window of every value that is high enough ends at a position that can be counted. -/
def WindowsFit (values : List (Option Double)) (window : ℕ) (minPeak : Double) : Prop :=
  ∀ (j : ℕ) (v : Double), values[j]? = some (some v) → ¬ v < minPeak → j + window + 1 < positionBound

/-- The test of the walk at a position. -/
def test (window : ℕ) (minPeak : Double) (i : ℕ) (passed : List (Option Double)) (o : Option Double)
    (rest : List (Option Double)) : Outcome Bool :=
  match o with
  | none => .ok false
  | some v =>
    if v < minPeak then .ok false
    else if i + window + 1 < positionBound then
      .ok (dominates v (passed.take window) ((o :: rest).take (window + 1)))
    else .error .outOfRange

theorem peaksFrom_cons (window : ℕ) (minPeak : Double) (i : ℕ) (passed : List (Option Double))
    (o : Option Double) (rest : List (Option Double)) :
    peaksFrom window minPeak i passed (o :: rest) = (do
      let here ← test window minPeak i passed o rest
      let later ← peaksFrom window minPeak (i + 1) (o :: passed) rest
      pure (if here then i :: later else later)) := by
  cases o with
  | none => rfl
  | some v =>
    rw [peaksFrom.eq_def, test]
    dsimp only
    split
    · rfl
    · split <;> rfl

/-- The test tells the peaks. -/
theorem exists_test {passed rest : List (Option Double)} {o : Option Double}
    (hfit : WindowsFit (passed.reverse ++ o :: rest) window minPeak) :
    ∃ here, test window minPeak passed.length passed o rest = .ok here ∧
      (here = true ↔ ∃ v, IsPeak (passed.reverse ++ o :: rest) window minPeak passed.length v) := by
  have hvalue : (passed.reverse ++ o :: rest)[passed.length]? = some o := by simp
  have hsame {v : Double} (h : IsPeak (passed.reverse ++ o :: rest) window minPeak passed.length v) :
      o = some v := Option.some.inj (hvalue.symm.trans h.value)
  cases o with
  | none =>
    refine ⟨false, rfl, iff_of_false Bool.false_ne_true ?_⟩
    rintro ⟨v, hpeak⟩
    cases hsame hpeak
  | some v =>
    by_cases hsize : v < minPeak
    · refine ⟨false, if_pos hsize, iff_of_false Bool.false_ne_true ?_⟩
      rintro ⟨w, hpeak⟩
      obtain rfl := Option.some.inj (hsame hpeak)
      exact hpeak.size hsize
    · refine ⟨_, (if_neg hsize).trans (if_pos (hfit _ v hvalue hsize)), ?_⟩
      rw [dominates_iff hsize]
      constructor
      · intro hpeak
        exact ⟨v, hpeak⟩
      · rintro ⟨w, hpeak⟩
        obtain rfl := Option.some.inj (hsame hpeak)
        exact hpeak

/-- From a position on, the walk finds the peaks. -/
theorem exists_peaksFrom (passed rest : List (Option Double))
    (hfit : WindowsFit (passed.reverse ++ rest) window minPeak) :
    ∃ found, peaksFrom window minPeak passed.length passed rest = .ok found ∧
      ∀ p, p ∈ found ↔
        passed.length ≤ p ∧ ∃ v, IsPeak (passed.reverse ++ rest) window minPeak p v := by
  induction rest generalizing passed with
  | nil =>
    refine ⟨[], rfl, fun p => ?_⟩
    simp only [List.not_mem_nil, false_iff, not_and]
    rintro hle ⟨v, hpeak⟩
    have hlt := (List.getElem?_eq_some_iff.mp hpeak.value).1
    simp at hlt
    omega
  | cons o rest ih =>
    have hwhole : (o :: passed).reverse ++ rest = passed.reverse ++ o :: rest := by simp
    obtain ⟨here, hhere, hpeak⟩ := exists_test hfit
    obtain ⟨later, hlater, hmem⟩ := ih (o :: passed) (hwhole ▸ hfit)
    rw [hwhole] at hmem
    refine ⟨if here then passed.length :: later else later, ?_, mem_ite_cons hpeak hmem⟩
    rw [peaksFrom_cons]
    exact bind_eq_ok.mpr ⟨here, hhere, bind_eq_ok.mpr ⟨later, hlater, rfl⟩⟩

theorem exists_peaks (hfit : WindowsFit values window minPeak) :
    ∃ found, peaks values window minPeak = .ok found ∧
      ∀ p, p ∈ found ↔ ∃ v, IsPeak values window minPeak p v := by
  obtain ⟨found, hfound, hmem⟩ := exists_peaksFrom [] values hfit
  exact ⟨found, hfound, by simpa using hmem⟩

/-- If the walk comes to an end, all its windows do. -/
theorem windowsFit_of_peaksFrom {found : List ℕ} (passed rest : List (Option Double))
    (h : peaksFrom window minPeak passed.length passed rest = .ok found) :
    ∀ (j : ℕ) (v : Double), passed.length ≤ j → (passed.reverse ++ rest)[j]? = some (some v) →
      ¬ v < minPeak → j + window + 1 < positionBound := by
  induction rest generalizing passed found with
  | nil =>
    intro j v hj hv
    have hlt := (List.getElem?_eq_some_iff.mp hv).1
    simp at hlt
    omega
  | cons o rest ih =>
    rw [peaksFrom_cons] at h
    obtain ⟨here, hhere, h⟩ := bind_eq_ok.mp h
    obtain ⟨later, hlater, -⟩ := bind_eq_ok.mp h
    intro j v hj hv hsize
    rcases Nat.eq_or_lt_of_le hj with rfl | hj
    · obtain rfl : o = some v := by simpa using hv
      simp only [test, if_neg hsize] at hhere
      split at hhere
      next hfit => exact hfit
      next => cases hhere
    · exact ih (o :: passed) hlater j v hj (by simpa using hv) hsize

/-- The walk does not fail but at a window that leaves the positions. -/
theorem peaksFrom_eq_error {i : ℕ} {passed rest : List (Option Double)} {fault : Fault}
    (h : peaksFrom window minPeak i passed rest = .error fault) : fault = .outOfRange := by
  induction rest generalizing i passed with
  | nil => cases h
  | cons o rest ih =>
    rw [peaksFrom_cons] at h
    cases hhere : test window minPeak i passed o rest with
    | error cause =>
      rw [hhere] at h
      obtain rfl := Except.error.inj h
      unfold test at hhere
      split at hhere
      · cases hhere
      · split at hhere
        · cases hhere
        · split at hhere
          · cases hhere
          · exact (Except.error.inj hhere).symm
    | ok here =>
      rw [hhere] at h
      cases hlater : peaksFrom window minPeak (i + 1) (o :: passed) rest with
      | error cause =>
        dsimp only [bind, Except.bind] at h
        rw [hlater] at h
        obtain rfl := Except.error.inj h
        exact ih hlater
      | ok later =>
        dsimp only [bind, Except.bind] at h
        rw [hlater] at h
        cases h

theorem peaks_eq_error (h : ¬ WindowsFit values window minPeak) :
    peaks values window minPeak = .error .outOfRange := by
  cases hpeaks : peaks values window minPeak with
  | error fault => rw [peaksFrom_eq_error hpeaks]
  | ok found =>
    refine absurd (fun j v hv hsize => ?_) h
    exact windowsFit_of_peaksFrom [] values hpeaks j v (Nat.zero_le j) hv hsize

/-! ## Events -/

/-- The walk and the events reach positions that can be counted only. -/
structure SumsFit (values : List (Option Double)) (s : Settings Double) : Prop where
  windows : WindowsFit values s.window s.minPeak
  events : ∀ (p : ℕ) (v : Double), IsPeak values s.window s.minPeak p v →
    p + s.fallLag + 1 < positionBound

variable {series : Series} {s : Settings Double} {found : List ℕ} {i : ℕ}

/-- The positions of a short series can be counted, whatever its values. -/
theorem sumsFit_of_length (hwindow : values.length + s.window < positionBound)
    (hfall : values.length + s.fallLag < positionBound) : SumsFit values s := by
  constructor
  · intro j v hv _
    have hlt := (List.getElem?_eq_some_iff.mp hv).1
    omega
  · intro p v hpeak
    have hlt := (List.getElem?_eq_some_iff.mp hpeak.value).1
    omega

/-- The series with the values near some positions only. -/
def near (series : Series) (s : Settings Double) (found : List ℕ) : Series :=
  ⟨series.points.mapIdx fun i p => (p.1, if found.any (covers s i) then p.2 else none)⟩

theorem any_covers : found.any (covers s i) = true ↔
    ∃ p ∈ found, p ≤ i + s.riseLag ∧ i ≤ p + s.fallLag := by
  simp [covers, Nat.sub_le_iff_le_add]

@[simp] theorem index_near (series : Series) (s : Settings Double) (found : List ℕ) :
    (near series s found).index = series.index := by
  apply List.ext_getElem?
  intro n
  simp [near, TimeSeries.index, Option.map_map, Function.comp_def]

theorem getElem?_values_near (series : Series) (s : Settings Double) (found : List ℕ) (i : ℕ) :
    (near series s found).values[i]? =
      series.values[i]?.map fun o => if found.any (covers s i) then o else none := by
  simp [near, TimeSeries.values, Option.map_map, Function.comp_def]

/-- What is left of a series are the values near the peaks that have been found. -/
theorem extract_eq (hwindow : 1 ≤ s.window)
    (hfound : peaks series.values s.window s.minPeak = .ok found)
    (hfit : ∀ p ∈ found, p + s.fallLag + 1 < positionBound) :
    extract series s = .ok (near series s found) := by
  have hinside : (found.any fun p => decide (positionBound ≤ p + s.fallLag + 1)) = false := by
    simpa using hfit
  have hpositive : s.window ≠ 0 := by omega
  simp [extract, near, hpositive, hfound, hinside, bind, Except.bind, pure, Except.pure]

/-- There are no events if the walk or one of them leaves the positions that can be counted. -/
theorem extract_eq_error (hwindow : 1 ≤ s.window) (h : ¬ SumsFit series.values s) :
    extract series s = .error .outOfRange := by
  have hpositive : s.window ≠ 0 := by omega
  by_cases hfit : WindowsFit series.values s.window s.minPeak
  · obtain ⟨found, hfound, hmem⟩ := exists_peaks hfit
    have houtside : (found.any fun p => decide (positionBound ≤ p + s.fallLag + 1)) = true := by
      by_contra hinside
      refine h ⟨hfit, fun p v hpeak => ?_⟩
      simpa using fun hp => hinside (List.any_eq_true.mpr
        ⟨p, (hmem p).mpr ⟨v, hpeak⟩, decide_eq_true hp⟩)
    simp [extract, hpositive, hfound, houtside, bind, Except.bind, throw, throwThe,
      MonadExceptOf.throw]
  · simp [extract, hpositive, peaks_eq_error hfit, bind, Except.bind]

/-- What is left of the series are the values near its peaks. -/
def NearPeaks (series : Series) (s : Settings Double) (new : Series) : Prop :=
  ∃ found, new = near series s found ∧
    ∀ p, p ∈ found ↔ ∃ v, IsPeak series.values s.window s.minPeak p v

/-- The values near the peaks are left, unless a position that is computed cannot be counted. -/
theorem extract_cases (series : Series) (hwindow : 1 ≤ s.window) :
    (SumsFit series.values s ∧ ∃ new, extract series s = .ok new ∧ NearPeaks series s new) ∨
    (¬ SumsFit series.values s ∧ extract series s = .error .outOfRange) := by
  by_cases hfit : SumsFit series.values s
  · obtain ⟨found, hfound, hmem⟩ := exists_peaks hfit.windows
    refine .inl ⟨hfit, _, extract_eq hwindow hfound fun p hp => ?_, found, rfl, hmem⟩
    obtain ⟨v, hpeak⟩ := (hmem p).mp hp
    exact hfit.events p v hpeak
  · exact .inr ⟨hfit, extract_eq_error hwindow hfit⟩

/-- With a window of at least one position, and lags that stay within the positions that can be counted,
there are events of every series. Two peaks are more than a window apart, and the first of the greatest
values is a peak if it is high enough. The events have the moments of the series; they keep the values
from the rise to the fall of a peak, and all others are missing. -/
theorem events_of_extract (series : Series) (s : Settings Double) (hwindow : 1 ≤ s.window)
    (hfit : SumsFit series.values s) :
    ∃ found events, peaks series.values s.window s.minPeak = .ok found ∧
      extract series s = .ok events ∧
      (∀ p ∈ found, ∀ q ∈ found, p < q → p + s.window < q) ∧
      (∀ p v, IsFirstGreatest series.values p v → s.minPeak ≤ v → p ∈ found) ∧
      events.index = series.index ∧
      ∀ i < series.length,
        ((∃ p ∈ found, p ≤ i + s.riseLag ∧ i ≤ p + s.fallLag) →
          events.values[i]? = series.values[i]?) ∧
        ((¬ ∃ p ∈ found, p ≤ i + s.riseLag ∧ i ≤ p + s.fallLag) → events.values[i]? = some none) := by
  obtain ⟨found, hfound, hmem⟩ := exists_peaks hfit.windows
  have hextract := extract_eq hwindow hfound fun p hp => by
    obtain ⟨v, hpeak⟩ := (hmem p).mp hp
    exact hfit.events p v hpeak
  refine ⟨found, _, hfound, hextract, ?_, ?_, index_near series s found, ?_⟩
  · intro p hp q hq hlt
    obtain ⟨v, hpeak⟩ := (hmem p).mp hp
    obtain ⟨w, hpeak'⟩ := (hmem q).mp hq
    exact hpeak.apart hpeak' hlt
  · intro p v h hmin
    exact (hmem p).mpr ⟨v, h.isPeak s.window hmin⟩
  · intro i hi
    have hvalue : i < series.values.length := by
      simpa [TimeSeries.values, TimeSeries.length] using hi
    rw [getElem?_values_near, List.getElem?_eq_getElem hvalue, Option.map_some, ← any_covers]
    constructor
    · intro hcovered
      rw [if_pos hcovered]
    · intro hfree
      rw [if_neg hfree]

/-- A rise before a gap, and behind the gap two equal values that are the greatest. -/
def plateau : Series :=
  ⟨[some 1, some 5, some 2, none, some 8, some 8, some 1].mapIdx fun k o => (.ofDate ⟨k⟩ 0, o)⟩

/-- Events of one day before and one day after their peak. -/
def daysAround : Settings Double := ⟨1, 1, 1, 3⟩

theorem isFirstGreatest_plateau : IsFirstGreatest plateau.values 4 8 := by
  have hgreatest : ∀ o ∈ plateau.values, ∀ w ∈ o, w ≤ (8 : Double) := by decide +kernel
  have hfirst : ∀ o ∈ plateau.values.take 4, ∀ w ∈ o, (w == (8 : Double)) = false := by
    decide +kernel
  refine ⟨rfl, fun j w hw => hgreatest _ (List.mem_of_getElem? hw) w rfl, fun j w hj hw => ?_⟩
  refine hfirst (some w) (List.mem_of_getElem? (i := j) ?_) w rfl
  rw [List.getElem?_take, if_pos hj, hw]

theorem events_of_plateau : 1 ≤ daysAround.window ∧ SumsFit plateau.values daysAround ∧
    ∃ events, peaks plateau.values 1 3 = .ok [1, 4] ∧ extract plateau daysAround = .ok events ∧
      4 ∈ [1, 4] ∧ events.index = plateau.index ∧
      events.values[2]? = plateau.values[2]? ∧ events.values[5]? = plateau.values[5]? ∧
      events.values[6]? = some none := by
  have hfit : SumsFit plateau.values daysAround :=
    sumsFit_of_length (by decide) (by decide)
  obtain ⟨found, events, hfound, hevents, -, hgreatest, hindex, hvalues⟩ :=
    events_of_extract plateau daysAround (by decide) hfit
  have hpeaks : peaks plateau.values 1 3 = .ok [1, 4] := by rfl
  obtain rfl := Except.ok.inj (hpeaks.symm.trans hfound)
  refine ⟨by decide, hfit, events, hpeaks, hevents, ?_, hindex, ?_, ?_, ?_⟩
  · exact hgreatest 4 8 isFirstGreatest_plateau (by decide +kernel)
  · exact (hvalues 2 (by decide)).1 (by decide)
  · exact (hvalues 5 (by decide)).1 (by decide)
  · exact (hvalues 6 (by decide)).2 (by decide)

end Hydroseries.Event
