import Hydroseries.Proofs.Time.Month
import Hydroseries.Series.Basic
import Hydroseries.Stat.Volume
import Mathlib.Data.List.Chain
import Mathlib.Order.Bounds.Basic

/-!
# Years, months and days follow each other

The years, months and days of the calendar have numbers without gaps: a day lies in the period with a
number if it does not come before the first day of that period, and comes before that of the next
(`firstDay_le_iff`). The period that follows has the next number, so the periods between two moments are
those with the numbers from one to another (`periods_eq`). They begin at all starts between the two
moments, and each ends a nanosecond before the next start (`periods_tile`).
-/

namespace Hydroseries.CalendarPeriod

open Calendar
open Timestamp (ofDate)

variable {p : CalendarPeriod} {n : ℤ} {d e : Date} {t first last : Timestamp}

/-- A period of the kind starts at the moment. -/
def IsStart (p : CalendarPeriod) (t : Timestamp) : Prop :=
  match p with
  | year => ∃ y, t = ofDate (.ofCivil ⟨y, 1, 1⟩) 0
  | month => ∃ y m, 1 ≤ m ∧ m ≤ 12 ∧ t = ofDate (.ofCivil ⟨y, m, 1⟩) 0
  | day => ∃ d, t = ofDate d 0

/-! ## Numbers of periods -/

/-- The number of the period that a day lies in. -/
def number (p : CalendarPeriod) (d : Date) : ℤ :=
  match p with
  | year => d.civil.year
  | month => d.monthNumber
  | day => d.day

/-- The first day of the period with a number. -/
def firstDay (p : CalendarPeriod) (n : ℤ) : Date :=
  match p with
  | year => ⟨Date.monthBegin (12 * n + 1)⟩
  | month => ⟨Date.monthBegin n⟩
  | day => ⟨n⟩

theorem firstDay_year (y : ℤ) : year.firstDay y = .ofCivil ⟨y, 1, 1⟩ :=
  congrArg Date.mk (Date.monthBegin_of_month y (le_refl 1) (by decide))

theorem firstDay_month (y : ℤ) {m : ℕ} (h : 1 ≤ m) (h12 : m ≤ 12) :
    month.firstDay (12 * y + m) = .ofCivil ⟨y, m, 1⟩ :=
  congrArg Date.mk (Date.monthBegin_of_month y h h12)

/-- A day comes after the first day of a period if its own period does not come before. -/
theorem firstDay_le_iff : (p.firstDay n).day ≤ d.day ↔ n ≤ p.number d := by
  cases p with
  | year =>
    refine Date.monthBegin_le_iff.trans ?_
    have hmonth := d.civil_month_mem
    rw [Date.monthNumber, number]
    omega
  | month => exact Date.monthBegin_le_iff
  | day => exact Iff.rfl

theorem firstDay_lt_firstDay {m : ℤ} : (p.firstDay m).day < (p.firstDay n).day ↔ m < n := by
  have hrise : StrictMono fun n => (p.firstDay n).day := by
    refine strictMono_int_of_lt_succ fun n => ?_
    cases p with
    | year => exact Date.monthBegin_lt_monthBegin.mpr (by omega)
    | month => exact Date.monthBegin_lt_succ n
    | day => exact Int.lt_succ n
  exact hrise.lt_iff_lt

theorem firstDay_le_firstDay {m : ℤ} : (p.firstDay m).day ≤ (p.firstDay n).day ↔ m ≤ n := by
  rw [← not_lt, firstDay_lt_firstDay, not_lt]

theorem number_firstDay (p : CalendarPeriod) (n : ℤ) : p.number (p.firstDay n) = n := by
  refine le_antisymm ?_ (firstDay_le_iff.mp le_rfl)
  exact firstDay_le_firstDay.mp (firstDay_le_iff.mpr le_rfl)

theorem lt_firstDay_number_succ (p : CalendarPeriod) (d : Date) :
    d.day < (p.firstDay (p.number d + 1)).day := by
  rw [← not_le, firstDay_le_iff]
  exact (Int.lt_succ _).not_ge

theorem startOf_eq (p : CalendarPeriod) (d : Date) : p.startOf d = p.firstDay (p.number d) := by
  cases p with
  | year => exact (firstDay_year _).symm
  | month => exact (firstDay_month _ d.civil_month_mem.1 d.civil_month_mem.2).symm
  | day => rfl

/-- Periods start at the midnights of their first days. -/
theorem isStart_iff : p.IsStart t ↔ ∃ n, t = ofDate (p.firstDay n) 0 := by
  cases p with
  | year => simp only [firstDay_year, IsStart]
  | month =>
    constructor
    · rintro ⟨y, m, h, h12, rfl⟩
      exact ⟨12 * y + m, by rw [firstDay_month y h h12]⟩
    · rintro ⟨n, rfl⟩
      have hn := number_firstDay month n
      have hmonth := (month.firstDay n).civil_month_mem
      refine ⟨(month.firstDay n).civil.year, _, hmonth.1, hmonth.2, ?_⟩
      rw [← firstDay_month _ hmonth.1 hmonth.2]
      exact congrArg (fun k => ofDate (month.firstDay k) 0) hn.symm
  | day => exact ⟨fun ⟨d, hd⟩ => ⟨d.day, hd⟩, fun ⟨n, hn⟩ => ⟨⟨n⟩, hn⟩⟩

/-- The period that follows has the next number, if the calendar has its first day. -/
theorem nextStart?_firstDay :
    p.nextStart? (p.firstDay n) = some e ↔ p.firstDay (n + 1) = e ∧ e.inCalendar = true := by
  cases p with
  | year =>
    have hn : (year.firstDay n).civil.year = n := number_firstDay year n
    rw [nextStart?, hn, firstDay_year]
    exact Date.ofYmd?_one_eq_some (le_refl 1) (by decide)
  | month =>
    have hn : 12 * (month.firstDay n).civil.year + (month.firstDay n).civil.month = n :=
      number_firstDay month n
    have hmonth := (month.firstDay n).civil_month_mem
    have hone := one_le_nextMonth (month.firstDay n).civil.year (month.firstDay n).civil.month
    have htwelve := Date.nextMonth_le_twelve (month.firstDay n).civil.year hmonth.2
    rw [← hn, ← Date.nextMonth_number, firstDay_month _ hone htwelve, hn]
    exact Date.ofYmd?_one_eq_some hone htwelve
  | day =>
    show (if (day.firstDay (n + 1)).inCalendar then some (day.firstDay (n + 1)) else none) = some e ↔ _
    split
    next hin => exact ⟨fun h => Option.some.inj h ▸ ⟨rfl, hin⟩, fun h => congrArg some h.1⟩
    next hin => exact ⟨nofun, fun h => absurd (h.1 ▸ h.2) hin⟩

/-! ## From start to start -/

/-- The period with a number, from its start to the nanosecond before the next. -/
def span (p : CalendarPeriod) (n : ℤ) : Timestamp × Timestamp :=
  (ofDate (p.firstDay n) 0, ⟨(p.firstDay (n + 1)).day * Timestamp.dayNanos - 1⟩)

theorem span_end_succ (p : CalendarPeriod) (n : ℤ) :
    (⟨(p.span n).2.nanos + 1⟩ : Timestamp) = ofDate (p.firstDay (n + 1)) 0 := by
  rw [span, sub_add_cancel]
  exact Timestamp.ext (add_zero _).symm

theorem start_lt_start {m : ℤ} : ofDate (p.firstDay m) 0 < ofDate (p.firstDay n) 0 ↔ m < n :=
  Timestamp.midnight_lt_midnight.trans firstDay_lt_firstDay

theorem start_le_iff : ofDate (p.firstDay n) 0 ≤ t ↔ n ≤ p.number t.date :=
  Timestamp.midnight_le_iff.trans firstDay_le_iff

/-- A period is over when the next one starts. -/
theorem isLeast_span_end_succ (p : CalendarPeriod) (n : ℤ) :
    IsLeast {t | p.IsStart t ∧ (p.span n).1 < t} ⟨(p.span n).2.nanos + 1⟩ := by
  rw [span_end_succ]
  refine ⟨⟨isStart_iff.mpr ⟨n + 1, rfl⟩, start_lt_start.mpr (Int.lt_succ n)⟩, ?_⟩
  rintro t ⟨hstart, hlater⟩
  obtain ⟨m, rfl⟩ := isStart_iff.mp hstart
  have hlt : n < m := start_lt_start.mp hlater
  rw [← not_lt, start_lt_start]
  omega

/-- So many periods, from the one with the number `n` on. -/
def spans (p : CalendarPeriod) (n : ℤ) : ℕ → List (Timestamp × Timestamp)
  | 0 => []
  | count + 1 => p.span n :: p.spans (n + 1) count

theorem mem_spans {count : ℕ} {q : Timestamp × Timestamp} :
    q ∈ p.spans n count ↔ ∃ m, n ≤ m ∧ m < n + count ∧ p.span m = q := by
  induction count generalizing n with
  | zero =>
    refine ⟨nofun, ?_⟩
    rintro ⟨m, hlow, hhigh, -⟩
    omega
  | succ count ih =>
    rw [spans, List.mem_cons, ih]
    constructor
    · rintro (rfl | ⟨m, hlow, hhigh, hq⟩)
      · exact ⟨n, le_rfl, by omega, rfl⟩
      · exact ⟨m, by omega, by omega, hq⟩
    · rintro ⟨m, hlow, hhigh, rfl⟩
      rcases hlow.eq_or_lt with rfl | hlt
      · exact .inl rfl
      · exact .inr ⟨m, by omega, by omega, rfl⟩

/-- Later periods start later. -/
theorem increasing_spans (p : CalendarPeriod) (n : ℤ) (count : ℕ) :
    Increasing ((p.spans n count).map Prod.fst) := by
  induction count generalizing n with
  | zero => exact .nil
  | succ count ih =>
    refine .cons (fun t ht => ?_) (ih (n + 1))
    obtain ⟨q, hq, rfl⟩ := List.mem_map.mp ht
    obtain ⟨m, hlow, -, rfl⟩ := mem_spans.mp hq
    exact start_lt_start.mpr (by omega)

/-- A period ends a nanosecond before the next one starts. -/
theorem isChain_spans (p : CalendarPeriod) (n : ℤ) (count : ℕ) :
    (p.spans n count).IsChain fun q r => r.1.nanos = q.2.nanos + 1 := by
  induction count generalizing n with
  | zero => exact .nil
  | succ count ih =>
    refine .cons (ih (n + 1)) fun r hr => ?_
    cases count with
    | zero => cases hr
    | succ count =>
      obtain rfl := Option.some.inj hr
      exact congrArg Timestamp.nanos (p.span_end_succ n).symm

/-- The walk from a start reaches all further starts up to the last moment, with enough fuel. -/
theorem periodsFrom_eq {fuel : ℕ} (hlow : Date.first.day ≤ (p.firstDay (n + 1)).day)
    (hhigh : (p.firstDay (p.number last.date + 1)).day ≤ Date.last.day)
    (hfuel : p.number last.date + 1 - n ≤ fuel) :
    p.periodsFrom last fuel (some (p.firstDay n)) =
      p.spans n (p.number last.date + 1 - n).toNat := by
  induction fuel generalizing n with
  | zero =>
    have hcount : (p.number last.date + 1 - n).toNat = 0 := by omega
    rw [hcount]
    rfl
  | succ fuel ih =>
    rw [periodsFrom]
    split
    next hstart =>
      rw [start_le_iff] at hstart
      have hnext : p.nextStart? (p.firstDay n) = some (p.firstDay (n + 1)) := by
        refine nextStart?_firstDay.mpr ⟨rfl, ?_⟩
        rw [Date.inCalendar, Bool.and_eq_true, decide_eq_true_eq, decide_eq_true_eq]
        exact ⟨hlow, (firstDay_le_firstDay.mpr (by omega)).trans hhigh⟩
      have hlater : (p.firstDay (n + 1)).day ≤ (p.firstDay (n + 1 + 1)).day :=
        firstDay_le_firstDay.mpr (by omega)
      have hcount : (p.number last.date + 1 - n).toNat =
          (p.number last.date + 1 - (n + 1)).toNat + 1 := by omega
      rw [hnext, hcount, spans, ← ih (hlow.trans hlater) (by omega)]
      rfl
    next hstart =>
      rw [start_le_iff, not_le] at hstart
      have hcount : (p.number last.date + 1 - n).toNat = 0 := by omega
      rw [hcount]
      rfl

/-! ## The first start -/

/-- The number of the first period that starts at or after a moment. -/
def firstNumber (p : CalendarPeriod) (t : Timestamp) : ℤ :=
  if ofDate (p.startOf t.date) 0 = t then p.number t.date else p.number t.date + 1

theorem firstNumber_le_iff : p.firstNumber t ≤ n ↔ t ≤ ofDate (p.firstDay n) 0 := by
  rw [firstNumber, startOf_eq]
  split
  next hstart =>
    conv_rhs => rw [← hstart]
    rw [← not_lt, ← not_lt, start_lt_start]
  next hstart =>
    rw [Int.add_one_le_iff, ← not_le, ← start_le_iff, not_le]
    refine ⟨le_of_lt, fun hle => lt_of_le_of_ne hle ?_⟩
    -- A moment at the start of a period is at the start of its own.
    rintro rfl
    rw [Timestamp.date_midnight, number_firstDay] at hstart
    exact hstart rfl

theorem firstStart?_eq (hlow : Date.first.day ≤ first.date.day)
    (hhigh : (p.firstDay (p.number first.date + 1)).day ≤ Date.last.day) :
    p.firstStart? first = some (p.firstDay (p.firstNumber first)) := by
  unfold firstStart? firstNumber
  dsimp only
  split
  next => rw [startOf_eq]
  next =>
    have hlater := p.lt_firstDay_number_succ first.date
    rw [startOf_eq, nextStart?_firstDay, Date.inCalendar, Bool.and_eq_true, decide_eq_true_eq,
      decide_eq_true_eq]
    exact ⟨rfl, hlow.trans hlater.le, hhigh⟩

/-- Every period has a day at least. -/
theorem number_sub_number_le (p : CalendarPeriod) (h : d.day ≤ e.day) :
    p.number e - p.number d ≤ e.day - d.day := by
  have hlonger : Monotone fun n => (p.firstDay n).day - n := by
    refine monotone_int_of_le_succ fun n => ?_
    show (p.firstDay n).day - n ≤ (p.firstDay (n + 1)).day - (n + 1)
    have hlt : (p.firstDay n).day < (p.firstDay (n + 1)).day := firstDay_lt_firstDay.mpr (by omega)
    omega
  have hbegun : (p.firstDay (p.number e)).day ≤ e.day := firstDay_le_iff.mpr le_rfl
  have hover := p.lt_firstDay_number_succ d
  rcases le_or_gt (p.number e) (p.number d) with hle | hlt
  · omega
  · have hbetween := hlonger (Int.add_one_le_of_lt hlt)
    dsimp only at hbetween
    omega

/-- The fuel of the walk lasts for all periods that start between the two moments. -/
theorem number_sub_firstNumber_le (p : CalendarPeriod) (h : first ≤ last) :
    p.number last.date + 1 - p.firstNumber first ≤
      ((last.since first / Timestamp.dayNanos).toNat + 2 : ℕ) := by
  have hperiods := p.number_sub_number_le (Timestamp.date_mono h)
  have hnumber : p.number first.date ≤ p.firstNumber first := by
    rw [firstNumber]
    split <;> omega
  have hfirst := Timestamp.nanos_eq first
  have hlast := Timestamp.nanos_eq last
  have hlow := Int.fmod_nonneg_of_pos last.nanos (by decide : (0 : Int) < Timestamp.dayNanos)
  have hhigh := Int.fmod_lt_of_pos first.nanos (by decide : (0 : Int) < Timestamp.dayNanos)
  rw [Timestamp.le_iff] at h
  simp only [Timestamp.since, Timestamp.sinceMidnight, Timestamp.dayNanos] at *
  omega

/-! ## Between two moments -/

/-- How many periods start between two moments. -/
def startCount (p : CalendarPeriod) (first last : Timestamp) : ℕ :=
  (p.number last.date + 1 - p.firstNumber first).toNat

/-- The starts between two moments are those of the periods counted from the first start on. -/
theorem mem_starts (p : CalendarPeriod) (first last t : Timestamp) :
    t ∈ (p.spans (p.firstNumber first) (p.startCount first last)).map Prod.fst ↔
      p.IsStart t ∧ first ≤ t ∧ t ≤ last := by
  have hcounted {m : ℤ} (hm : p.firstNumber first ≤ m) :
      m < p.firstNumber first + p.startCount first last ↔ m ≤ p.number last.date := by
    rw [startCount]
    omega
  rw [List.mem_map, isStart_iff]
  constructor
  · rintro ⟨q, hq, rfl⟩
    obtain ⟨m, hlow, hhigh, rfl⟩ := mem_spans.mp hq
    exact ⟨⟨m, rfl⟩, firstNumber_le_iff.mp hlow, start_le_iff.mpr ((hcounted hlow).mp hhigh)⟩
  · rintro ⟨⟨m, rfl⟩, hlow, hhigh⟩
    have hm := firstNumber_le_iff.mpr hlow
    exact ⟨p.span m, mem_spans.mpr ⟨m, hm, (hcounted hm).mpr (start_le_iff.mp hhigh), rfl⟩, rfl⟩

/-- The walk with all fuel that it needs. -/
theorem periodsFrom_firstStart? (hfirst : first.date.inCalendar = true) (hle : first ≤ last)
    (hnext : (p.nextStart? (p.startOf last.date)).isSome = true) {fuel : ℕ}
    (hfuel : (last.since first / Timestamp.dayNanos).toNat + 2 ≤ fuel) :
    p.periodsFrom last fuel (p.firstStart? first) =
      p.spans (p.firstNumber first) (p.startCount first last) := by
  obtain ⟨following, hfollowing⟩ := Option.isSome_iff_exists.mp hnext
  rw [startOf_eq] at hfollowing
  obtain ⟨rfl, hhigh⟩ := nextStart?_firstDay.mp hfollowing
  rw [Date.inCalendar, Bool.and_eq_true, decide_eq_true_eq, decide_eq_true_eq] at hhigh hfirst
  have hnumber : p.number first.date ≤ p.number last.date :=
    firstDay_le_iff.mp ((firstDay_le_iff.mpr le_rfl).trans (Timestamp.date_mono hle))
  have hlow : Date.first.day ≤ (p.firstDay (p.firstNumber first + 1)).day := by
    have hsecond : p.number first.date + 1 ≤ p.firstNumber first + 1 := by
      rw [firstNumber]
      split <;> omega
    exact hfirst.1.trans ((p.lt_firstDay_number_succ first.date).le.trans (firstDay_le_firstDay.mpr hsecond))
  have henough := p.number_sub_firstNumber_le hle
  have hwithin : (p.firstDay (p.number first.date + 1)).day ≤
      (p.firstDay (p.number last.date + 1)).day := firstDay_le_firstDay.mpr (by omega)
  rw [firstStart?_eq hfirst.1 (hwithin.trans hhigh.2)]
  exact periodsFrom_eq hlow hhigh.2 (by omega)

/-- Between two moments of the calendar, the periods are all that start there, one after the other.
Each ends a nanosecond before the next start of its kind. More fuel would change nothing. -/
theorem periods_tile (p : CalendarPeriod) (hfirst : first.date.inCalendar = true) (hle : first ≤ last)
    (hnext : (p.nextStart? (p.startOf last.date)).isSome = true) :
    (∃ enough, ∀ fuel, enough ≤ fuel →
      p.periodsFrom last fuel (p.firstStart? first) = p.periods first last) ∧
    Increasing ((p.periods first last).map Prod.fst) ∧
    (∀ t, t ∈ (p.periods first last).map Prod.fst ↔ p.IsStart t ∧ first ≤ t ∧ t ≤ last) ∧
    (∀ q ∈ p.periods first last, IsLeast {t | p.IsStart t ∧ q.1 < t} ⟨q.2.nanos + 1⟩) ∧
    (p.periods first last).IsChain fun q r => r.1.nanos = q.2.nanos + 1 := by
  have hwalk : p.periods first last = p.spans (p.firstNumber first) (p.startCount first last) :=
    periodsFrom_firstStart? hfirst hle hnext le_rfl
  rw [hwalk]
  refine ⟨⟨_, fun fuel hfuel => periodsFrom_firstStart? hfirst hle hnext hfuel⟩,
    increasing_spans p _ _, mem_starts p first last, fun q hq => ?_, isChain_spans p _ _⟩
  obtain ⟨m, -, -, rfl⟩ := mem_spans.mp hq
  exact isLeast_span_end_succ p m

/-- From ten o'clock on the last day of 2019 to the first midnight of March 2020. -/
theorem months_of_leap_year : ∃ first last : Timestamp,
    first.isoText = "2019-12-31T10:00:00" ∧ last.isoText = "2020-03-01T00:00:00" ∧
    first.date.inCalendar = true ∧ first ≤ last ∧
    (month.nextStart? (month.startOf last.date)).isSome = true ∧
    (∀ t, t ∈ (month.periods first last).map Prod.fst ↔ month.IsStart t ∧ first ≤ t ∧ t ≤ last) ∧
    (month.periods first last).map (fun q => (q.1.isoText, q.2.isoText)) =
      [("2020-01-01T00:00:00", "2020-01-31T23:59:59.999999999"),
        ("2020-02-01T00:00:00", "2020-02-29T23:59:59.999999999"),
        ("2020-03-01T00:00:00", "2020-03-31T23:59:59.999999999")] := by
  let first := ofDate (.ofCivil ⟨2019, 12, 31⟩) 36000000000000
  let last := ofDate (.ofCivil ⟨2020, 3, 1⟩) 0
  have hfirst : first.date.inCalendar = true := by decide
  have hle : first ≤ last := by decide
  have hnext : (month.nextStart? (month.startOf last.date)).isSome = true := by decide
  have hstarts := (periods_tile month hfirst hle hnext).2.2.1
  exact ⟨first, last, by decide +kernel, by decide +kernel, hfirst, hle, hnext, hstarts,
    by decide +kernel⟩

end Hydroseries.CalendarPeriod
