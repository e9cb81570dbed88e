import Hydroseries.Proofs.Time.Calendar
import Hydroseries.Proofs.Time.Timestamp
import Mathlib.Algebra.Order.Ring.Int
import Mathlib.Order.Monotone.Basic
import Mathlib.Order.SuccPred.Basic

/-!
# Months by number

Month `m` of year `y` has the number `12 * y + m`, so that the month after it has the next number.
A day lies in a month if it comes not before the begin of the month, and before that of the next
(`monthBegin_le_iff`).

A number of months later stands for one day: that of the same place in its month, or the last one of a
month that is too short (`isMonthsLater_iff`). Days that are more months later come later, by at least
four weeks for each month (`fourWeeks_mul_le`), whatever was clipped on the way.
-/

namespace Hydroseries

open Calendar

namespace Date

/-- The number of the month of a day. -/
def monthNumber (d : Date) : Int := 12 * d.civil.year + d.civil.month

/-- The day number of the first day of the month with a number. -/
def monthBegin (n : Int) : Int := (ofCivil ⟨(n - 1) / 12, ((n - 1) % 12).toNat + 1, 1⟩).day

theorem monthBegin_of_month (year : Int) {month : Nat} (h : 1 ≤ month) (h12 : month ≤ 12) :
    monthBegin (12 * year + month) = (ofCivil ⟨year, month, 1⟩).day := by
  have hyear : (12 * year + month - 1) / 12 = year := by omega
  have hmonth : ((12 * year + month - 1) % 12).toNat + 1 = month := by omega
  rw [monthBegin, hyear, hmonth]

/-- A month begins when the one before is over. -/
theorem monthBegin_next (year : Int) {month : Nat} (h : 1 ≤ month) (h12 : month ≤ 12) :
    monthBegin (12 * year + month + 1) =
      (ofCivil ⟨year, month, 1⟩).day + daysInMonth year month := by
  rw [← ofCivil_nextMonth year h h12, nextMonth]
  split
  next hlast =>
    rw [← monthBegin_of_month (year + 1) (le_refl 1) (by decide)]
    congr 1
    omega
  next =>
    rw [← monthBegin_of_month year (by omega : 1 ≤ month + 1) (by omega)]
    congr 1
    push_cast
    omega

theorem nextMonth_number (year : Int) (month : Nat) :
    12 * (nextMonth year month).1 + (nextMonth year month).2 = 12 * year + month + 1 := by
  rw [nextMonth]
  split <;> push_cast <;> omega

theorem nextMonth_le_twelve (year : Int) {month : Nat} (h12 : month ≤ 12) :
    (nextMonth year month).2 ≤ 12 := by
  rw [nextMonth]
  split <;> dsimp only <;> omega

theorem monthBegin_lt_succ (n : Int) : monthBegin n < monthBegin (n + 1) := by
  obtain ⟨year, month, h, h12, rfl⟩ : ∃ (year : Int) (month : Nat), 1 ≤ month ∧ month ≤ 12 ∧
      n = 12 * year + month := ⟨(n - 1) / 12, ((n - 1) % 12).toNat + 1, by omega, by omega, by omega⟩
  have hdays := one_le_daysInMonth year month
  rw [monthBegin_next year h h12, monthBegin_of_month year h h12]
  omega

theorem monthBegin_lt_monthBegin {m n : Int} : monthBegin m < monthBegin n ↔ m < n :=
  (strictMono_int_of_lt_succ monthBegin_lt_succ).lt_iff_lt

theorem monthBegin_le_monthBegin {m n : Int} : monthBegin m ≤ monthBegin n ↔ m ≤ n :=
  (strictMono_int_of_lt_succ monthBegin_lt_succ).le_iff_le

/-- The first day of the month of a day. -/
theorem monthBegin_monthNumber_le (d : Date) : monthBegin d.monthNumber ≤ d.day := by
  have hday := ofCivil_day d.civil
  have hcivil := d.civil_day_mem
  rw [ofCivil_civil] at hday
  rw [monthNumber, monthBegin_of_month _ d.civil_month_mem.1 d.civil_month_mem.2]
  omega

theorem lt_monthBegin_monthNumber (d : Date) : d.day < monthBegin (d.monthNumber + 1) := by
  have hlt := d.day_lt_firstOfNextMonth
  rwa [ofCivil_nextMonth _ d.civil_month_mem.1 d.civil_month_mem.2,
    ← monthBegin_next _ d.civil_month_mem.1 d.civil_month_mem.2] at hlt

/-- A day comes after the begin of a month if its own month does not come before. -/
theorem monthBegin_le_iff {n : Int} {d : Date} : monthBegin n ≤ d.day ↔ n ≤ d.monthNumber := by
  constructor
  · intro h
    have hlt := lt_of_le_of_lt h d.lt_monthBegin_monthNumber
    exact Int.lt_add_one_iff.mp (monthBegin_lt_monthBegin.mp hlt)
  · intro h
    exact le_trans (monthBegin_le_monthBegin.mpr h) d.monthBegin_monthNumber_le

/-! ## The bounds of the calendar -/

theorem inCalendar_of_plus? {d e : Date} {n : Int} (h : d.plus? n = some e) :
    e.inCalendar = true := by
  simp only [plus?] at h
  split at h
  next hin => exact Option.some.inj h ▸ hin
  · cases h

theorem inCalendar_of_ofYmd? {year : Int} {month day : Nat} {d : Date}
    (h : ofYmd? year month day = some d) : d.inCalendar = true := by
  obtain ⟨rfl, hone, htwelve, hday⟩ := ofYmd?_eq_some h
  unfold ofYmd? at h
  split at h
  next hrange =>
    obtain ⟨hlow, hhigh, -, -, -, hdays⟩ := hrange
    -- The month lies from the first month of the calendar to the last.
    have hfirst := monthBegin_le_monthBegin.mpr
      (by push_cast; omega : 12 * firstYear + ((1 : Nat) : Int) ≤ 12 * year + month)
    have hlast := monthBegin_le_monthBegin.mpr
      (by push_cast; omega : 12 * year + month + 1 ≤ 12 * lastYear + ((12 : Nat) : Int) + 1)
    rw [monthBegin_of_month _ (le_refl 1) (by decide), monthBegin_of_month _ hone htwelve] at hfirst
    rw [monthBegin_next _ hone htwelve, monthBegin_next _ (by decide) (le_refl 12)] at hlast
    have hd := ofCivil_day ⟨year, month, day⟩
    have hend := ofCivil_day ⟨lastYear, 12, 31⟩
    have hdays' : daysInMonth lastYear 12 = 31 := by decide
    simp only at hd hend
    rw [inCalendar, Bool.and_eq_true, decide_eq_true_eq, decide_eq_true_eq, first, last]
    omega
  · cases h

/-- A day of a month is found if the calendar has it. -/
theorem ofYmd?_eq_some_iff {year : Int} {month day : Nat} {d : Date} (h : 1 ≤ month)
    (h12 : month ≤ 12) (hday : 1 ≤ day) (hdays : day ≤ daysInMonth year month) :
    ofYmd? year month day = some d ↔ ofCivil ⟨year, month, day⟩ = d ∧ d.inCalendar = true := by
  constructor
  · intro hd
    exact ⟨(ofYmd?_eq_some hd).1.symm, inCalendar_of_ofYmd? hd⟩
  · rintro ⟨rfl, hin⟩
    have hfirst : first.day = monthBegin (12 * firstYear + 1) := by decide
    have hlast : last.day = monthBegin (12 * lastYear + 13) - 1 := by decide
    have hbegin := monthBegin_of_month year h h12
    have hnext := monthBegin_next year h h12
    have hplace := ofCivil_day ⟨year, month, day⟩
    rw [inCalendar, Bool.and_eq_true, decide_eq_true_eq, decide_eq_true_eq, hfirst, hlast] at hin
    -- The month ends after the calendar begins, and begins before it ends.
    have hlow := monthBegin_lt_monthBegin.mp
      (by dsimp only at hplace; omega :
        monthBegin (12 * firstYear + 1) < monthBegin (12 * year + month + 1))
    have hhigh := monthBegin_lt_monthBegin.mp
      (by dsimp only at hplace; omega :
        monthBegin (12 * year + month) < monthBegin (12 * lastYear + 13))
    rw [ofYmd?, if_pos]
    omega

/-- The first of a month is found if the calendar has it. -/
theorem ofYmd?_one_eq_some {year : Int} {month : Nat} {d : Date} (h : 1 ≤ month) (h12 : month ≤ 12) :
    ofYmd? year month 1 = some d ↔ ofCivil ⟨year, month, 1⟩ = d ∧ d.inCalendar = true :=
  ofYmd?_eq_some_iff h h12 (le_refl 1) (one_le_daysInMonth year month)

theorem lastDayOfMonth?_eq_ofCivil {year : Int} {month : Nat} {d : Date} (hm : 1 ≤ month)
    (h : lastDayOfMonth? year month = some d) :
    d = ofCivil ⟨year, month, daysInMonth year month⟩ ∧ d.inCalendar = true := by
  have hday := lastDayOfMonth?_eq_some hm h
  have hlast := ofCivil_day ⟨year, month, daysInMonth year month⟩
  rw [← hday] at hlast
  obtain ⟨first, -, hplus⟩ := Option.bind_eq_some_iff.mp h
  exact ⟨congrArg Date.mk hlast.symm, inCalendar_of_plus? hplus⟩

end Date

/-! ## Midnights -/

namespace Timestamp

@[simp] theorem date_midnight (d : Date) : (ofDate d 0).date = d := by
  have h : (d.day * dayNanos).fdiv dayNanos = d.day := Int.mul_fdiv_cancel _ (by decide)
  simp [ofDate, date, h]

@[simp] theorem nanosecond_midnight (d : Date) : (ofDate d 0).nanosecond = 0 := by
  have h : (d.day * dayNanos).fmod dayNanos = 0 := Int.mul_fmod_left ..
  simp [ofDate, nanosecond, sinceMidnight, h]

/-- A day begins at or before a moment if it is not after the day of the moment. -/
theorem midnight_le_iff {d : Date} {t : Timestamp} : ofDate d 0 ≤ t ↔ d.day ≤ t.date.day := by
  have ht := nanos_eq t
  have hlow := Int.fmod_nonneg_of_pos t.nanos (by decide : (0 : Int) < dayNanos)
  have hhigh := Int.fmod_lt_of_pos t.nanos (by decide : (0 : Int) < dayNanos)
  simp only [le_iff, ofDate, sinceMidnight, dayNanos] at *
  omega

theorem midnight_lt_midnight {d e : Date} : ofDate d 0 < ofDate e 0 ↔ d.day < e.day := by
  simp only [lt_iff, ofDate, dayNanos]
  omega

end Timestamp

end Hydroseries

/-! # Months later -/

namespace Hydroseries

open Calendar

theorem Calendar.fourWeeks_le_daysInMonth (year : Int) (month : Nat) :
    28 ≤ daysInMonth year month := by
  unfold daysInMonth
  split <;> (try split) <;> decide

namespace Date

/-- The day `e` lies `n` months after `d`, on the same day of the month or on the last day of a month
that is too short. -/
structure IsMonthsLater (d : Date) (n : Nat) (e : Date) : Prop where
  month : e.monthNumber = d.monthNumber + n
  day : e.civil.day = min d.civil.day (daysInMonth e.civil.year e.civil.month)

/-! ## The day of a month by its place -/

theorem day_eq (d : Date) : d.day = monthBegin d.monthNumber + d.civil.day - 1 := by
  have hday := ofCivil_day d.civil
  rwa [ofCivil_civil, ← monthBegin_of_month _ d.civil_month_mem.1 d.civil_month_mem.2] at hday

theorem daysInMonth_eq (d : Date) : (daysInMonth d.civil.year d.civil.month : Int) =
    monthBegin (d.monthNumber + 1) - monthBegin d.monthNumber := by
  rw [monthNumber, monthBegin_next _ d.civil_month_mem.1 d.civil_month_mem.2,
    monthBegin_of_month _ d.civil_month_mem.1 d.civil_month_mem.2]
  omega

theorem monthNumber_eq_iff {n : Int} {d : Date} :
    d.monthNumber = n ↔ monthBegin n ≤ d.day ∧ d.day < monthBegin (n + 1) := by
  rw [monthBegin_le_iff, ← not_le, monthBegin_le_iff]
  omega

theorem fourWeeks_le_monthBegin (n : Int) : 28 ≤ monthBegin (n + 1) - monthBegin n := by
  have hnumber : (⟨monthBegin n⟩ : Date).monthNumber = n :=
    monthNumber_eq_iff.mpr ⟨le_refl _, monthBegin_lt_succ n⟩
  have hdays := daysInMonth_eq ⟨monthBegin n⟩
  have hweeks := fourWeeks_le_daysInMonth (⟨monthBegin n⟩ : Date).civil.year
    (⟨monthBegin n⟩ : Date).civil.month
  rw [hnumber] at hdays
  omega

/-- The day at the place of `d` in the month with a number, or the last one of the month. -/
def onMonth (d : Date) (n : Int) : Date :=
  ⟨monthBegin n + min ((d.civil.day : Int) - 1) (monthBegin (n + 1) - monthBegin n - 1)⟩

theorem day_onMonth (d : Date) (n : Int) : (d.onMonth n).day =
    monthBegin n + min ((d.civil.day : Int) - 1) (monthBegin (n + 1) - monthBegin n - 1) := rfl

theorem monthNumber_onMonth (d : Date) (n : Int) : (d.onMonth n).monthNumber = n := by
  have hday := d.civil_day_mem.1
  have hmonth := monthBegin_lt_succ n
  rw [monthNumber_eq_iff, day_onMonth]
  omega

@[simp] theorem onMonth_monthNumber (d : Date) : d.onMonth d.monthNumber = d := by
  have hday := d.civil_day_mem.2
  have hdays := d.daysInMonth_eq
  have hplace := d.day_eq
  have hsame : (d.onMonth d.monthNumber).day = d.day := by
    rw [day_onMonth]
    omega
  exact congrArg mk hsame

theorem isMonthsLater_iff {d e : Date} {n : Nat} :
    d.IsMonthsLater n e ↔ e = d.onMonth (d.monthNumber + n) := by
  constructor
  · intro h
    have hday := h.day
    have hdays := e.daysInMonth_eq
    have hplace := e.day_eq
    rw [h.month] at hdays hplace
    have hsame : e.day = (d.onMonth (d.monthNumber + n)).day := by
      rw [day_onMonth]
      omega
    exact congrArg mk hsame
  · intro he
    have hmonth : e.monthNumber = d.monthNumber + n := he ▸ d.monthNumber_onMonth _
    have hday := congrArg Date.day he
    have hdays := e.daysInMonth_eq
    have hplace := e.day_eq
    rw [hmonth] at hdays hplace
    rw [day_onMonth] at hday
    exact ⟨hmonth, by omega⟩

/-! ## Spacing -/

/-- A clipped day does not come closer to the next one than four weeks. -/
theorem fourWeeks_le_onMonth (d : Date) (n : Int) :
    28 ≤ (d.onMonth (n + 1)).day - (d.onMonth n).day := by
  have hthis := fourWeeks_le_monthBegin n
  have hnext := fourWeeks_le_monthBegin (n + 1)
  -- Two days at one place are a month apart, and a clipped one is the last of its month.
  rw [day_onMonth, day_onMonth]
  omega

theorem fourWeeks_mul_le (d : Date) (n : Int) (k : Nat) :
    28 * (k : Int) ≤ (d.onMonth (n + k)).day - (d.onMonth n).day := by
  induction k with
  | zero => simp
  | succ k ih =>
    have hstep := d.fourWeeks_le_onMonth (n + k)
    push_cast
    rw [← add_assoc]
    omega

/-! ## The bounds of the calendar -/

/-- No two days of the calendar are more months apart than the calendar has. -/
theorem months_lt_of_inCalendar {d : Date} {n : Nat} (hd : d.inCalendar = true)
    (he : (d.onMonth (d.monthNumber + n)).inCalendar = true) : n < Nat.pow 2 31 := by
  have hweeks := d.fourWeeks_mul_le d.monthNumber n
  have hspan : last.day - first.day < 28 * 2 ^ 31 := by decide
  rw [onMonth_monthNumber] at hweeks
  simp only [inCalendar, Bool.and_eq_true, decide_eq_true_eq] at hd he
  show n < 2 ^ 31
  omega

end Date

end Hydroseries
