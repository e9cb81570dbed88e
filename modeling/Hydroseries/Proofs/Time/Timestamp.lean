import Hydroseries.Time.Timestamp
import Mathlib.Algebra.Order.Field.Basic
import Mathlib.Algebra.Order.Ring.Rat
import Mathlib.Order.Defs.LinearOrder
import Mathlib.Tactic.NormNum
import Mathlib.Tactic.Ring

/-!
# The order of timestamps

Timestamps are ordered as their nanoseconds, linearly. A timestamp is its day at its time of day, so
a later day at the same time of day is later by whole days.

The seconds from one moment to another, with their fractions, add up. Counting in milliseconds cuts a
part of them off (`millisSince_add_le`), between whole milliseconds none (`millisSince_of_whole`).
-/

namespace Hydroseries.Timestamp

@[ext] theorem ext {s t : Timestamp} (h : s.nanos = t.nanos) : s = t := by
  cases s
  cases t
  congr

theorem lt_iff {s t : Timestamp} : s < t ↔ s.nanos < t.nanos := Iff.rfl

theorem le_iff {s t : Timestamp} : s ≤ t ↔ s.nanos ≤ t.nanos := Iff.rfl

instance : LinearOrder Timestamp where
  le_refl _ := Int.le_refl _
  le_trans _ _ _ := Int.le_trans
  le_antisymm _ _ h₁ h₂ := ext (Int.le_antisymm h₁ h₂)
  le_total s t := Int.le_total s.nanos t.nanos
  lt_iff_le_not_ge s t := by
    rw [lt_iff, le_iff, le_iff]
    omega
  toDecidableLE := inferInstance
  toDecidableLT := inferInstance
  toDecidableEq := inferInstance

/-! ## Day and time of day -/

/-- A timestamp is its day at its time of day. -/
theorem nanos_eq (t : Timestamp) : t.nanos = t.date.day * dayNanos + t.sinceMidnight := by
  have h := Int.mul_fdiv_add_fmod t.nanos dayNanos
  rw [Int.mul_comm] at h
  exact h.symm

theorem sinceMidnight_mem (t : Timestamp) : 0 ≤ t.sinceMidnight ∧ t.sinceMidnight < dayNanos :=
  ⟨Int.fmod_nonneg_of_pos t.nanos (by decide), Int.fmod_lt_of_pos t.nanos (by decide)⟩

/-- A time of day is that of one moment of a day. -/
theorem eq_ofDate_iff {t : Timestamp} {d : Date} {s : Int} (hs : 0 ≤ s ∧ s < dayNanos) :
    t = ofDate d s ↔ t.date = d ∧ t.sinceMidnight = s := by
  have ht := nanos_eq t
  have hmem := t.sinceMidnight_mem
  constructor
  · intro h
    have hnanos : t.nanos = d.day * dayNanos + s := congrArg nanos h
    simp only [dayNanos] at *
    exact ⟨congrArg Date.mk (by omega : t.date.day = d.day), by omega⟩
  · rintro ⟨rfl, rfl⟩
    exact ext ht

/-- A later day at the same time of day is later by one day at least. -/
theorem dayNanos_le_since_of_lt {t : Timestamp} {d : Date} (h : t.date.day < d.day) :
    dayNanos ≤ (Timestamp.ofDate d t.sinceMidnight).since t := by
  have ht := nanos_eq t
  simp only [since, ofDate, dayNanos] at *
  omega

theorem plus?_eq_some {t u : Timestamp} {span : Int} (h : t.plus? span = some u) :
    u.nanos = t.nanos + span := by
  simp only [plus?] at h
  split at h
  · cases h
    rfl
  · cases h

/-! ## The bounds of the calendar -/

theorem inCalendar_iff {t : Timestamp} :
    t.date.inCalendar = true ↔ Date.first.day ≤ t.date.day ∧ t.date.day ≤ Date.last.day := by
  simp [Date.inCalendar]

theorem date_mono {s t : Timestamp} (h : s ≤ t) : s.date.day ≤ t.date.day := by
  have hs := Int.mul_fdiv_add_fmod s.nanos dayNanos
  have ht := Int.mul_fdiv_add_fmod t.nanos dayNanos
  have := Int.fmod_nonneg_of_pos s.nanos (by decide : (0 : Int) < dayNanos)
  have := Int.fmod_lt_of_pos t.nanos (by decide : (0 : Int) < dayNanos)
  rw [le_iff] at h
  simp only [date, dayNanos] at *
  omega

/-- The calendar has no gaps. -/
theorem inCalendar_of_between {s t u : Timestamp} (hs : s.date.inCalendar = true)
    (hu : u.date.inCalendar = true) (hst : s ≤ t) (htu : t ≤ u) : t.date.inCalendar = true := by
  rw [inCalendar_iff] at *
  exact ⟨Int.le_trans hs.1 (date_mono hst), Int.le_trans (date_mono htu) hu.2⟩

theorem plus?_isSome {t : Timestamp} {span : Int} :
    (t.plus? span).isSome ↔ (⟨t.nanos + span⟩ : Timestamp).date.inCalendar = true := by
  simp only [plus?]
  split <;> simp_all

theorem plus?_eq_some_iff {t u : Timestamp} {span : Int} :
    t.plus? span = some u ↔ (⟨t.nanos + span⟩ : Timestamp) = u ∧ u.date.inCalendar = true := by
  simp only [plus?, Option.ite_none_right_eq_some, Option.some.injEq]
  constructor
  · rintro ⟨hin, rfl⟩
    exact ⟨rfl, hin⟩
  · rintro ⟨rfl, hin⟩
    exact ⟨hin, rfl⟩

/-! ## Time that passes -/

variable {s t u : Timestamp}

/-- The moment has no fraction of a millisecond. -/
def IsWholeMilli (t : Timestamp) : Prop := 1000000 ∣ t.nanos

instance (t : Timestamp) : Decidable t.IsWholeMilli := inferInstanceAs (Decidable (_ ∣ _))

/-- Seconds from one moment to another, with their fractions. -/
def elapsed (s t : Timestamp) : ℚ := t.since s / secondNanos

@[simp] theorem elapsed_self (t : Timestamp) : elapsed t t = 0 := by
  simp [elapsed, since]

theorem elapsed_add (s t u : Timestamp) : elapsed s t + elapsed t u = elapsed s u := by
  simp only [elapsed, since]
  push_cast
  ring

theorem elapsed_pos (h : s < t) : 0 < elapsed s t := by
  have hsince : 0 < t.since s := Int.sub_pos.mpr h
  have hnanos : (0 : ℚ) < secondNanos := by norm_num [secondNanos]
  exact div_pos (Int.cast_pos.mpr hsince) hnanos

/-- No part of a millisecond is cut off between whole ones. -/
theorem millisSince_of_whole (hs : s.IsWholeMilli) (ht : t.IsWholeMilli) :
    ((t.millisSince s : ℤ) : ℚ) = 1000 * elapsed s t := by
  obtain ⟨m, hm⟩ := hs
  obtain ⟨n, hn⟩ := ht
  have hsince : t.since s = 1000000 * (n - m) := by
    rw [since, hm, hn]
    ring
  have hmillis : t.millisSince s = n - m := by
    rw [millisSince, hsince, Int.mul_tdiv_cancel_left _ (by decide)]
  rw [elapsed, hmillis, hsince, secondNanos]
  push_cast
  ring

theorem millisSince_of_le (h : s ≤ t) : t.millisSince s = t.since s / 1000000 :=
  Int.tdiv_eq_ediv_of_nonneg (Int.sub_nonneg.mpr h)

/-- Cut to milliseconds, two stretches of time are no longer than both together. -/
theorem millisSince_add_le (hst : s ≤ t) (htu : t ≤ u) :
    t.millisSince s + u.millisSince t ≤ u.millisSince s := by
  rw [millisSince_of_le hst, millisSince_of_le htu, millisSince_of_le (hst.trans htu)]
  simp only [since]
  omega

end Hydroseries.Timestamp
