import Hydroseries.Series.Basic
import Hydroseries.Proofs.Time.Calendar
import Hydroseries.Proofs.Time.Timestamp
import Mathlib.Tactic.Linarith

/-!
# Grids

The grid of a frequency from one timestamp to another is the walk that goes from the first to the
next one and on, as long as it does not pass the last. `Walk` says this without fuel and without an
accumulator, and `walk_of_grid` shows that the bound on the length of a grid never cuts a walk
short.

* A walk increases and stays between its ends (`Walk.increasing`, `Walk.bounds`).
* Timestamps that follow each other on the grid are the whole walk (`Walk.eq_of_follows`).
* The walk of a fixed step holds every timestamp that lies whole steps after the first
  (`Walk.mem_of_multiple`).
* A grid exists unless a fixed step leaves the calendar (`grid_isOk`).
-/

namespace Hydroseries.Frequency

open Timestamp (secondNanos dayNanos)

/-! ## Steps -/

/-- Fixed steps are positive, and months are months. -/
def Proper : Frequency → Prop
  | fixed step => 0 < step
  | yearEnd month | yearStart month => 1 ≤ month ∧ month ≤ 12
  | _ => True

/-- A span that every step of the grid has at least: fixed steps themselves, else a day. -/
def span : Frequency → Int
  | fixed step => step * secondNanos
  | _ => dayNanos

theorem span_pos {f : Frequency} (hf : f.Proper) : 0 < f.span := by
  cases f with
  | fixed step =>
    have hpos : 0 < step := hf
    simp only [span, secondNanos]
    omega
  | _ => exact (by decide : (0 : Int) < dayNanos)

theorem next?_monthEnd (t : Timestamp) :
    monthEnd.next? t =
      (Calendar.lastDayOfMonth? (Calendar.nextMonth t.date.civil.year t.date.civil.month).1
        (Calendar.nextMonth t.date.civil.year t.date.civil.month).2).map (atTimeOf t) := rfl

/-- The timestamp after `t` is later by at least the span. -/
theorem span_le_since_of_next? {f : Frequency} (hf : f.Proper) {t u : Timestamp}
    (h : f.next? t = some u) : f.span ≤ u.since t := by
  cases f with
  | fixed step =>
    have hu := Timestamp.plus?_eq_some (show t.plus? (step * secondNanos) = some u from h)
    simp only [span, Timestamp.since]
    omega
  | monthEnd =>
    rw [next?_monthEnd] at h
    obtain ⟨d, hd, rfl⟩ := Option.map_eq_some_iff.mp h
    have hday := t.date.day_lt_firstOfNextMonth
    have hone := Calendar.one_le_daysInMonth
      (Calendar.nextMonth t.date.civil.year t.date.civil.month).1
      (Calendar.nextMonth t.date.civil.year t.date.civil.month).2
    have hlast := Date.lastDayOfMonth?_eq_some (Calendar.one_le_nextMonth _ _) hd
    exact Timestamp.dayNanos_le_since_of_lt (by omega)
  | monthStart =>
    obtain ⟨d, hd, rfl⟩ := Option.map_eq_some_iff.mp h
    obtain ⟨rfl, -⟩ := Date.ofYmd?_eq_some hd
    exact Timestamp.dayNanos_le_since_of_lt t.date.day_lt_firstOfNextMonth
  | yearEnd month =>
    obtain ⟨d, hd, rfl⟩ := Option.map_eq_some_iff.mp h
    have hlast := Date.lastDayOfMonth?_eq_some hf.1 hd
    have hone := Calendar.one_le_daysInMonth (t.date.civil.year + 1) month
    have hday := t.date.day_lt_ofCivil_nextYear month 1 (le_refl 1)
    exact Timestamp.dayNanos_le_since_of_lt (by omega)
  | yearStart month =>
    obtain ⟨d, hd, rfl⟩ := Option.map_eq_some_iff.mp h
    obtain ⟨rfl, -⟩ := Date.ofYmd?_eq_some hd
    exact Timestamp.dayNanos_le_since_of_lt (t.date.day_lt_ofCivil_nextYear month 1 (le_refl 1))
  | irregular => cases h

theorem lt_of_next? {f : Frequency} (hf : f.Proper) {t u : Timestamp}
    (h : f.next? t = some u) : t < u := by
  have hle := span_le_since_of_next? hf h
  have hpos := span_pos hf
  rw [Timestamp.lt_iff]
  simp only [Timestamp.since] at hle
  omega

/-! ## Walks -/

/-- `Walk f last t g` says that `g` lists `t` and what follows it on the grid, up to `last`. -/
inductive Walk (f : Frequency) (last : Timestamp) : Timestamp → List Timestamp → Prop
  | past {t} : last < t → Walk f last t []
  | ends {t} : t ≤ last → f.next? t = none → Walk f last t [t]
  | step {t u g} : t ≤ last → f.next? t = some u → Walk f last u g → Walk f last t (t :: g)

/-- A step of the loop that ends well finds no following timestamp, or one. -/
theorem next_eq_ok {f : Frequency} {t : Timestamp} {o : Option Timestamp}
    (h : f.next t = .ok o) : f.next? t = o := by
  unfold next at h
  split at h
  · cases h
  · exact Except.ok.inj h

/-- The loop walks on, however the fuel is spent before the walk is over. -/
theorem walk_of_gridGo {f : Frequency} (hf : f.Proper) {last : Timestamp} :
    ∀ {fuel : Nat} {t : Timestamp} {acc out : List Timestamp},
      last.since t < f.span * ((fuel : Int) - 1) →
      gridGo f last fuel t acc = .ok out → ∃ g, out = acc.reverse ++ g ∧ Walk f last t g
  | 0, t, acc, out, hfuel, h => by
    have hpos := span_pos hf
    have hpast : last < t := by
      rw [Timestamp.lt_iff]
      simp only [Timestamp.since, Nat.cast_zero] at hfuel
      linarith
    exact ⟨[], by rw [← Except.ok.inj h, List.append_nil], .past hpast⟩
  | fuel + 1, t, acc, out, hfuel, h => by
    unfold gridGo at h
    split at h
    next hpast => exact ⟨[], by rw [← Except.ok.inj h, List.append_nil], .past hpast⟩
    next hle =>
      split at h
      · cases h
      next hnone =>
        refine ⟨[t], ?_, .ends (not_lt.mp hle) (next_eq_ok hnone)⟩
        rw [← Except.ok.inj h, List.reverse_cons]
      next u hsome =>
        have hnext := next_eq_ok hsome
        have hspan := span_le_since_of_next? hf hnext
        have hfuel' : last.since u < f.span * ((fuel : Int) - 1) := by
          simp only [Timestamp.since, Nat.cast_add, Nat.cast_one] at hfuel hspan ⊢
          linarith
        obtain ⟨g, rfl, hg⟩ := walk_of_gridGo hf hfuel' h
        exact ⟨t :: g, by simp, .step (not_lt.mp hle) hnext hg⟩

theorem gridBound_eq (f : Frequency) (first last : Timestamp) :
    gridBound f first last = (last.since first / f.span).toNat + 2 := by
  cases f <;> rfl

/-- A grid is a walk from its first to its last timestamp. -/
theorem walk_of_grid {f : Frequency} (hf : f.Proper) {first last : Timestamp}
    {g : List Timestamp} (h : f.grid first last = .ok g) : Walk f last first g := by
  have hpos := span_pos hf
  have hdiv := Int.lt_mul_ediv_self_add (x := last.since first) hpos
  have hfuel : last.since first < f.span * ((gridBound f first last : Int) - 1) := by
    have hle : last.since first / f.span ≤ ((last.since first / f.span).toNat : Int) :=
      Int.self_le_toNat _
    rw [gridBound_eq]
    push_cast
    nlinarith
  obtain ⟨g', rfl, hg⟩ := walk_of_gridGo hf hfuel h
  simpa using hg

/-- The calendar reaches one step beyond `last`. Only a fixed step can leave the calendar with a
fault. -/
def HasRoom : Frequency → Timestamp → Prop
  | fixed step, last => (last.plus? (step * secondNanos)).isSome
  | _, _ => True

theorem next_of_next? {f : Frequency} {t u : Timestamp} (h : f.next? t = some u) :
    f.next t = .ok (some u) := by
  unfold next
  rw [h]
  cases f <;> rfl

theorem next_isOk {f : Frequency} {first last t : Timestamp} (hf : f.Proper)
    (hroom : f.HasRoom last) (hfirst : first.date.inCalendar = true) (hft : first ≤ t)
    (htl : t ≤ last) : ∃ o, f.next t = .ok o := by
  cases f with
  | fixed step =>
    have hpos : 0 < step := hf
    have hin : (⟨t.nanos + step * secondNanos⟩ : Timestamp).date.inCalendar = true := by
      refine Timestamp.inCalendar_of_between hfirst (Timestamp.plus?_isSome.mp hroom) ?_ ?_ <;>
        simp only [Timestamp.le_iff, secondNanos] at * <;> omega
    obtain ⟨u, hu⟩ := Option.isSome_iff_exists.mp (Timestamp.plus?_isSome.mpr hin)
    exact ⟨some u, next_of_next? hu⟩
  | _ => exact ⟨_, rfl⟩

theorem gridGo_isOk {f : Frequency} (hf : f.Proper) {first last : Timestamp}
    (hnext : ∀ t, first ≤ t → t ≤ last → ∃ o, f.next t = .ok o) :
    ∀ (fuel : Nat) (t : Timestamp) (acc : List Timestamp), first ≤ t →
      ∃ g, gridGo f last fuel t acc = .ok g
  | 0, t, acc, _ => ⟨_, rfl⟩
  | fuel + 1, t, acc, hft => by
    unfold gridGo
    split
    · exact ⟨_, rfl⟩
    next hle =>
      obtain ⟨o, ho⟩ := hnext t hft (not_lt.mp hle)
      rw [ho]
      cases o with
      | none => exact ⟨_, rfl⟩
      | some u =>
        exact gridGo_isOk hf hnext fuel u (t :: acc)
          (le_trans hft (lt_of_next? hf (next_eq_ok ho)).le)

/-- A grid exists if the calendar has room for it. -/
theorem grid_isOk {f : Frequency} (hf : f.Proper) {first last : Timestamp}
    (hroom : f.HasRoom last) (hfirst : first.date.inCalendar = true) :
    ∃ g, f.grid first last = .ok g :=
  gridGo_isOk hf (fun _ => next_isOk hf hroom hfirst) _ first [] (le_refl first)

/-- The only fault on the way along a grid is a step that leaves the calendar. -/
theorem gridGo_eq_error {f : Frequency} {last : Timestamp} {fault : Fault} :
    ∀ {fuel : Nat} {t : Timestamp} {acc : List Timestamp},
      gridGo f last fuel t acc = .error fault → fault = .outOfRange
  | 0, t, acc, h => by cases h
  | fuel + 1, t, acc, h => by
    unfold gridGo at h
    split at h
    · cases h
    · split at h
      next cause hnext =>
        rw [← Except.error.inj h]
        unfold next at hnext
        split at hnext
        · exact (Except.error.inj hnext).symm
        · cases hnext
      · cases h
      · exact gridGo_eq_error h

theorem le_getLast_of_follows {f : Frequency} (hf : f.Proper) {t : Timestamp}
    {ts : List Timestamp} (h : f.follows (t :: ts) = true) :
    t ≤ (t :: ts).getLast (List.cons_ne_nil t ts) := by
  induction ts generalizing t with
  | nil => simp
  | cons u ts ih =>
    simp only [follows, Bool.and_eq_true, beq_iff_eq] at h
    rw [List.getLast_cons (List.cons_ne_nil u ts)]
    exact le_trans (lt_of_next? hf h.1).le (ih h.2)

namespace Walk

variable {f : Frequency} {first last t : Timestamp} {g : List Timestamp}

theorem bounds (hf : f.Proper) (h : Walk f last t g) : ∀ u ∈ g, t ≤ u ∧ u ≤ last := by
  induction h with
  | past _ => simp
  | ends hle _ => simp [hle]
  | step hle hnext _ ih =>
    intro u hu
    rcases List.mem_cons.mp hu with rfl | hu
    · exact ⟨le_refl _, hle⟩
    · exact ⟨le_trans (lt_of_next? hf hnext).le (ih u hu).1, (ih u hu).2⟩

theorem increasing (hf : f.Proper) (h : Walk f last t g) : Increasing g := by
  induction h with
  | past _ => exact .nil
  | ends _ _ => exact List.pairwise_singleton _ _
  | step _ hnext hg ih =>
    refine .cons (fun u hu => ?_) ih
    exact lt_of_lt_of_le (lt_of_next? hf hnext) (hg.bounds hf u hu).1

theorem head_mem (h : Walk f last t g) (hle : t ≤ last) : t ∈ g := by
  cases h with
  | past hlt => exact absurd hle (not_le.mpr hlt)
  | ends _ _ => simp
  | step _ _ _ => simp

theorem head?_eq (h : Walk f last t g) (hle : t ≤ last) : g.head? = some t := by
  cases h with
  | past hlt => exact absurd hle (not_le.mpr hlt)
  | ends _ _ | step _ _ _ => rfl

/-- Each timestamp of a walk is followed by the next one of the grid. -/
theorem isChain (h : Walk f last t g) : g.IsChain fun t u => f.next? t = some u := by
  induction h with
  | past _ => exact .nil
  | ends _ _ => exact .singleton _
  | @step t u g _ hnext hg ih =>
    cases g with
    | nil => exact .singleton t
    | cons v g =>
      have hv : v = u := by cases hg <;> rfl
      exact .cons_cons (hv ▸ hnext) ih

/-- Timestamps that follow each other on the grid, up to the last, are the walk. -/
theorem eq_of_follows (hf : f.Proper) {ts : List Timestamp} (h : Walk f last t g)
    (hfollows : f.follows (t :: ts) = true)
    (hlast : (t :: ts).getLast (List.cons_ne_nil t ts) = last) : g = t :: ts := by
  induction ts generalizing t g with
  | nil =>
    simp only [List.getLast_singleton] at hlast
    subst hlast
    cases h with
    | past hlt => exact absurd hlt (lt_irrefl _)
    | ends _ _ => rfl
    | step _ hnext hg =>
      cases hg with
      | past _ => rfl
      | ends hle _ => exact absurd (lt_of_next? hf hnext) (not_lt.mpr hle)
      | step hle _ _ => exact absurd (lt_of_next? hf hnext) (not_lt.mpr hle)
  | cons u ts ih =>
    have hle := hlast ▸ le_getLast_of_follows hf hfollows
    simp only [follows, Bool.and_eq_true, beq_iff_eq] at hfollows
    obtain ⟨hnext, hrest⟩ := hfollows
    rw [List.getLast_cons (List.cons_ne_nil u ts)] at hlast
    cases h with
    | past hlt => exact absurd hle (not_le.mpr hlt)
    | ends _ hnone => rw [hnone] at hnext; cases hnext
    | step _ hnext' hg =>
      rw [hnext] at hnext'
      cases hnext'
      rw [ih hg hrest hlast]

/-- The walk of a fixed step holds all timestamps that lie whole steps after its first one. -/
theorem mem_of_multiple {step : Int} (hstep : 0 < step) (h : Walk (fixed step) last t g)
    (ht : t.date.inCalendar = true) (hlast : last.date.inCalendar = true) {u : Timestamp} {k : Nat}
    (hu : u.nanos = t.nanos + k * (step * secondNanos)) (hul : u ≤ last) : u ∈ g := by
  have hspan : 0 < step * secondNanos := span_pos (f := fixed step) hstep
  induction h generalizing k with
  | past hlt =>
    have : 0 ≤ (k : Int) * (step * secondNanos) := by positivity
    rw [Timestamp.lt_iff] at hlt
    rw [Timestamp.le_iff] at hul
    omega
  | @ends t hle hnone =>
    match k with
    | 0 => exact List.mem_singleton.mpr (Timestamp.ext (by simpa using hu))
    | k + 1 =>
      -- The following timestamp lies between two timestamps of the calendar.
      have hk : 0 ≤ (k : Int) * (step * secondNanos) := by positivity
      push_cast [add_mul] at hu
      have hin : (⟨t.nanos + step * secondNanos⟩ : Timestamp).date.inCalendar = true := by
        refine Timestamp.inCalendar_of_between ht hlast ?_ ?_ <;>
          simp only [Timestamp.le_iff] at * <;> omega
      have hsome := Timestamp.plus?_isSome.mpr hin
      rw [show t.plus? (step * secondNanos) = none from hnone] at hsome
      cases hsome
  | @step t v g hle hnext hg ih =>
    match k with
    | 0 =>
      rw [show u = t from Timestamp.ext (by simpa using hu)]
      exact List.mem_cons_self
    | k + 1 =>
      have hv := Timestamp.plus?_eq_some (show t.plus? (step * secondNanos) = some v from hnext)
      have hk : 0 ≤ (k : Int) * (step * secondNanos) := by positivity
      push_cast [add_mul] at hu
      have hvl : v ≤ last := by
        simp only [Timestamp.le_iff] at *
        omega
      have hvin := Timestamp.inCalendar_of_between ht hlast
        (lt_of_next? (f := fixed step) hstep hnext).le hvl
      exact List.mem_cons_of_mem _ (ih hvin (k := k) (by omega))

end Walk

end Hydroseries.Frequency
