import Hydroseries.Time.Calendar
import Mathlib.Data.List.Basic

/-!
# Days and civil dates

Year, month and day of the month determine a day and are determined by it.

* The year found for a day is the one that the day lies in (`daysBeforeYear_yearOf_le`,
  `lt_daysBeforeYear_yearOf_succ`).
* A day is the day of its civil date (`Date.ofCivil_civil`), whose month and day are in range
  (`Date.civil_month_mem`, `Date.civil_day_mem`).
* The first of the next month is the first day after all days of a month
  (`Date.day_lt_firstOfNextMonth`).
-/

namespace Hydroseries

open Calendar

namespace Calendar

/-! ## Years -/

/-- The floor divisions of the definition as divisions that `omega` reads. -/
theorem daysBeforeYear_eq (year : Int) :
    daysBeforeYear year =
      365 * year + (year - 1) / 4 - (year - 1) / 100 + (year - 1) / 400 + 1 := by
  simp only [daysBeforeYear, Int.fdiv_eq_ediv_of_nonneg _ (by decide : (0 : Int) ≤ 4),
    Int.fdiv_eq_ediv_of_nonneg _ (by decide : (0 : Int) ≤ 100),
    Int.fdiv_eq_ediv_of_nonneg _ (by decide : (0 : Int) ≤ 400)]

theorem isLeap_iff (year : Int) :
    isLeap year = true ↔ year % 4 = 0 ∧ (year % 100 ≠ 0 ∨ year % 400 = 0) := by
  simp [isLeap]

theorem daysBeforeYear_succ (year : Int) :
    daysBeforeYear (year + 1) = daysBeforeYear year + daysInYear year := by
  simp only [daysBeforeYear_eq, daysInYear, isLeap_iff]
  split <;> omega

/-- The estimate of the year is too late by at most one year. -/
theorem daysBeforeYear_yearOf_le (days : Int) : daysBeforeYear (yearOf days) ≤ days := by
  simp only [yearOf, Int.fdiv_eq_ediv_of_nonneg _ (by decide : (0 : Int) ≤ 146097)]
  split
  · simp only [daysBeforeYear_eq] at *
    omega
  · split
    · assumption
    · simp only [daysBeforeYear_eq] at *
      omega

/-- The estimate of the year is too early by at most one year. -/
theorem lt_daysBeforeYear_yearOf_succ (days : Int) :
    days < daysBeforeYear (yearOf days + 1) := by
  simp only [yearOf, Int.fdiv_eq_ediv_of_nonneg _ (by decide : (0 : Int) ≤ 146097)]
  split
  · rw [Int.sub_add_cancel]
    assumption
  · split
    · simp only [daysBeforeYear_eq] at *
      omega
    · omega

/-! ## Months -/

@[simp] theorem daysBeforeMonth_one (year : Int) : daysBeforeMonth year 1 = 0 := rfl

theorem daysBeforeMonth_succ (year : Int) {month : Nat} (h : 1 ≤ month) :
    daysBeforeMonth year (month + 1) = daysBeforeMonth year month + daysInMonth year month := by
  obtain ⟨m, rfl⟩ : ∃ m, month = m + 1 := ⟨month - 1, by omega⟩
  rfl

theorem daysBeforeMonth_thirteen (year : Int) :
    daysBeforeMonth year 13 = daysInYear year := by
  simp only [daysBeforeMonth, daysInMonth, daysInYear]
  split <;> rfl

theorem one_le_daysInMonth (year : Int) (month : Nat) : 1 ≤ daysInMonth year month := by
  unfold daysInMonth
  split <;> (try split) <;> decide

theorem daysInMonth_le (year : Int) (month : Nat) : daysInMonth year month ≤ 31 := by
  unfold daysInMonth
  split <;> (try split) <;> decide

theorem one_le_nextMonth (year : Int) (month : Nat) : 1 ≤ (nextMonth year month).2 := by
  unfold nextMonth
  split <;> simp

/-- A day of the year lies in the month found for it. -/
theorem monthOf_spec {year : Int} {ordinal : Nat} (h : ordinal < daysInYear year) :
    1 ≤ (monthOf year ordinal).1 ∧ (monthOf year ordinal).1 ≤ 12 ∧
    1 ≤ (monthOf year ordinal).2 ∧
    (monthOf year ordinal).2 ≤ daysInMonth year (monthOf year ordinal).1 ∧
    daysBeforeMonth year (monthOf year ordinal).1 + (monthOf year ordinal).2 = ordinal + 1 := by
  unfold monthOf
  split
  next m hm =>
    obtain ⟨hle, i, hi, him, hbefore⟩ := List.find?_eq_some_iff_getElem.mp hm
    simp only [decide_eq_true_eq] at hle
    simp only [List.getElem_reverse, List.getElem_range, List.length_range] at him
    simp only [List.length_reverse, List.length_range] at hi
    -- The next month begins later: it was tried before, or the year is over.
    have hnext : ordinal < daysBeforeMonth year (m + 1 + 1) := by
      by_cases hlast : m = 11
      · rw [hlast, daysBeforeMonth_thirteen]
        exact h
      · have htried := hbefore (i - 1) (by omega)
        simp only [List.getElem_reverse, List.getElem_range, List.length_range,
          Bool.not_eq_true', decide_eq_false_iff_not] at htried
        rw [show 12 - 1 - (i - 1) = m + 1 by omega] at htried
        omega
    rw [daysBeforeMonth_succ year (by omega : 1 ≤ m + 1)] at hnext
    dsimp only
    omega
  next hnone =>
    have hfirst := List.find?_eq_none.mp hnone 0 (by decide)
    simp at hfirst

end Calendar

namespace Date

/-! ## The civil date of a day -/

theorem civil_ordinal_lt (d : Date) :
    (d.day + epoch - daysBeforeYear (yearOf (d.day + epoch))).toNat <
      daysInYear (yearOf (d.day + epoch)) := by
  have hle := daysBeforeYear_yearOf_le (d.day + epoch)
  have hlt := lt_daysBeforeYear_yearOf_succ (d.day + epoch)
  rw [daysBeforeYear_succ] at hlt
  omega

theorem civil_month_mem (d : Date) : 1 ≤ d.civil.month ∧ d.civil.month ≤ 12 :=
  ⟨(monthOf_spec d.civil_ordinal_lt).1, (monthOf_spec d.civil_ordinal_lt).2.1⟩

theorem civil_day_mem (d : Date) :
    1 ≤ d.civil.day ∧ d.civil.day ≤ daysInMonth d.civil.year d.civil.month :=
  ⟨(monthOf_spec d.civil_ordinal_lt).2.2.1, (monthOf_spec d.civil_ordinal_lt).2.2.2.1⟩

/-- A day is the day of its civil date. -/
theorem ofCivil_civil (d : Date) : ofCivil d.civil = d := by
  have hle := daysBeforeYear_yearOf_le (d.day + epoch)
  have hsum := (monthOf_spec d.civil_ordinal_lt).2.2.2.2
  simp only [ofCivil, civil]
  rcases d with ⟨day⟩
  congr 1
  dsimp only at *
  omega

/-- The first of the month after a month comes as many days later as the month has. -/
theorem ofCivil_nextMonth (year : Int) {month : Nat} (h : 1 ≤ month) (h12 : month ≤ 12) :
    (ofCivil ⟨(nextMonth year month).1, (nextMonth year month).2, 1⟩).day =
      (ofCivil ⟨year, month, 1⟩).day + daysInMonth year month := by
  unfold nextMonth
  split
  next hm =>
    subst hm
    have hyear := daysBeforeMonth_thirteen year
    rw [daysBeforeMonth_succ year h] at hyear
    simp only [ofCivil, daysBeforeYear_succ, daysBeforeMonth_one]
    omega
  next =>
    simp only [ofCivil, daysBeforeMonth_succ year h]
    omega

theorem ofCivil_day (c : Civil) :
    (ofCivil c).day = (ofCivil ⟨c.year, c.month, 1⟩).day + c.day - 1 := by
  simp only [ofCivil]
  omega

/-- The first of the next month comes after the day. -/
theorem day_lt_firstOfNextMonth (d : Date) :
    d.day < (ofCivil ⟨(nextMonth d.civil.year d.civil.month).1,
      (nextMonth d.civil.year d.civil.month).2, 1⟩).day := by
  have hday : d.day = (ofCivil d.civil).day := by rw [ofCivil_civil]
  rw [ofCivil_nextMonth _ d.civil_month_mem.1 d.civil_month_mem.2, hday, ofCivil_day]
  have := d.civil_day_mem
  omega

/-- Every month of the next year begins after the day. -/
theorem day_lt_ofCivil_nextYear (d : Date) (month day : Nat) (hday : 1 ≤ day) :
    d.day < (ofCivil ⟨d.civil.year + 1, month, day⟩).day := by
  have hlt := lt_daysBeforeYear_yearOf_succ (d.day + epoch)
  have hyear : d.civil.year = yearOf (d.day + epoch) := rfl
  simp only [ofCivil, hyear]
  omega

/-! ## Days by year and month -/

theorem ofYmd?_eq_some {year : Int} {month day : Nat} {d : Date}
    (h : ofYmd? year month day = some d) :
    d = ofCivil ⟨year, month, day⟩ ∧ 1 ≤ month ∧ month ≤ 12 ∧ 1 ≤ day := by
  unfold ofYmd? at h
  split at h
  · next hr => exact ⟨(Option.some.inj h).symm, hr.2.2.1, hr.2.2.2.1, hr.2.2.2.2.1⟩
  · cases h

theorem plus?_eq_some {d e : Date} {n : Int} (h : d.plus? n = some e) : e.day = d.day + n := by
  simp only [plus?] at h
  split at h
  · cases h
    rfl
  · cases h

/-- The last day of a month comes as many days after the first, the first counted, as the month
has. -/
theorem lastDayOfMonth?_eq_some {year : Int} {month : Nat} {d : Date} (hm : 1 ≤ month)
    (h : lastDayOfMonth? year month = some d) :
    d.day = (ofCivil ⟨year, month, 1⟩).day + daysInMonth year month - 1 := by
  change (ofYmd? (nextMonth year month).1 (nextMonth year month).2 1).bind (·.plus? (-1)) =
    some d at h
  obtain ⟨first, hfirst, hd⟩ := Option.bind_eq_some_iff.mp h
  obtain ⟨rfl, -, hle, -⟩ := ofYmd?_eq_some hfirst
  have hm12 : month ≤ 12 := by
    unfold nextMonth at hle
    split at hle
    · omega
    · exact Nat.le_of_succ_le hle
  rw [plus?_eq_some hd, ofCivil_nextMonth year hm hm12]
  omega

end Date

end Hydroseries
