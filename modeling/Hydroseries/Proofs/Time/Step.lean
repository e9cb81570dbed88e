import Hydroseries.Proofs.Decimal.Rounding
import Hydroseries.Proofs.Outcome
import Hydroseries.Proofs.Text.Blank
import Hydroseries.Time.DateFormat

/-!
# Steps of time that are read

A step of time is a time of day or an amount of a unit. It has at least one second and fits into a span
of time, or is refused as an invalid value, except in two cases (`read_usable`): the time of day that is
midnight is a step of no length, and an amount may be too long for a span of time.
-/

namespace Hydroseries

/-! ## Times of day -/

namespace Clock

variable {time : String} {c : Clock}

/-- The numbers of a time of day are separated by colons. -/
def parts (time : String) : List String := Text.splitAtChar (Text.trim time) ':'

def part? (s : String) : Option ℕ := Text.readWord32? (Text.trim s)

/-- A time of day from its numbers; those that are left out are zero. -/
def ofNumbers? : List ℕ → Option Clock
  | [h] => some ⟨h, 0, 0⟩
  | [h, m] => some ⟨h, m, 0⟩
  | [h, m, s] => some ⟨h, m, s⟩
  | _ => none

/-- More than three numbers are no time of day. -/
theorem ofNumbers?_of_many (h m s x : String) (rest : List String) :
    ((h :: m :: s :: x :: rest).mapM part?).bind ofNumbers? = none := by
  simp only [List.mapM_cons]
  cases part? h with
  | none => rfl
  | some _ => cases part? m with
    | none => rfl
    | some _ => cases part? s with
      | none => rfl
      | some _ => cases part? x with
        | none => rfl
        | some _ => cases rest.mapM part? <;> rfl

/-- The time of day that a text spells, in range or not. -/
def spelled? (time : String) : Option Clock := ((parts time).mapM part?).bind ofNumbers?

theorem read_eq (time : String) : read time =
    match spelled? time with
    | some c => if c.inDay then .ok c else .error (.invalid "time" time "time of day out of range")
    | none => .error (.invalid "time" time "expected HH, HH:MM or HH:MM:SS") := by
  unfold read spelled?
  rw [show Text.splitAtChar (Text.trim time) ':' = parts time from rfl]
  rcases parts time with _ | ⟨h, _ | ⟨m, _ | ⟨s, _ | ⟨x, rest⟩⟩⟩⟩
  case nil => rfl
  case cons.nil =>
    cases hh : Text.readWord32? (Text.trim h) <;> simp [part?, hh] <;> rfl
  case cons.cons.nil =>
    cases hh : Text.readWord32? (Text.trim h) <;> cases hm : Text.readWord32? (Text.trim m) <;>
      simp [part?, hh, hm] <;> rfl
  case cons.cons.cons.nil =>
    cases hh : Text.readWord32? (Text.trim h) <;> cases hm : Text.readWord32? (Text.trim m) <;>
      cases hs : Text.readWord32? (Text.trim s) <;> simp [part?, hh, hm, hs] <;> rfl
  case cons.cons.cons.cons =>
    rw [ofNumbers?_of_many]
    rfl

/-- A text is read as the time of day that it spells, or refused. -/
theorem read_cases (time : String) :
    (∃ c, spelled? time = some c ∧ c.inDay = true ∧ read time = .ok c) ∨
      (∀ c, spelled? time = some c → c.inDay = false) ∧
        ∃ reason, read time = .error (.invalid "time" time reason) := by
  rw [read_eq]
  cases spelled? time with
  | none => exact .inr ⟨nofun, _, rfl⟩
  | some c =>
    cases hin : c.inDay with
    | true => exact .inl ⟨c, rfl, hin, by simp [hin]⟩
    | false => exact .inr ⟨fun c' hc' => Option.some.inj hc' ▸ hin, _, by simp [hin]; rfl⟩

theorem totalSeconds_le (h : c.inDay = true) : c.totalSeconds ≤ 86400 := by
  simp only [inDay, Bool.and_eq_true, decide_eq_true_eq, Bool.not_eq_true', Bool.and_eq_false_iff,
    beq_eq_false_iff_ne, Bool.or_eq_false_iff, decide_eq_false_iff_not] at h
  rw [totalSeconds]
  omega

theorem totalSeconds_eq_zero_iff : c.totalSeconds = 0 ↔ c = midnight := by
  obtain ⟨h, m, s⟩ := c
  simp only [totalSeconds, midnight, mk.injEq]
  omega

theorem parts_ne_nil (time : String) : parts time ≠ [] := by
  rw [parts, Text.splitAtChar, Ne, List.map_eq_nil_iff]
  exact Text.piecesOf_ne_nil _ _

/-- Midnight is spelled by zeros. -/
theorem spelled?_eq_midnight_iff : spelled? time = some midnight ↔
    (parts time).length ≤ 3 ∧ ∀ part ∈ parts time, part? part = some 0 := by
  unfold spelled?
  rcases hparts : parts time with _ | ⟨h, _ | ⟨m, _ | ⟨s, _ | ⟨x, rest⟩⟩⟩⟩
  case nil => exact absurd hparts (parts_ne_nil time)
  case cons.nil => cases hh : part? h <;> simp [hh, ofNumbers?, midnight]
  case cons.cons.nil =>
    cases hh : part? h <;> cases hm : part? m <;> simp [hh, hm, ofNumbers?, midnight]
  case cons.cons.cons.nil =>
    cases hh : part? h <;> cases hm : part? m <;> cases hs : part? s <;>
      simp [hh, hm, hs, ofNumbers?, midnight]
  case cons.cons.cons.cons =>
    rw [ofNumbers?_of_many]
    simp

end Clock

/-! ## Amounts -/

namespace TimeStep

variable {text : String}

/-- A colon makes a step a time of day. -/
def IsClock (text : String) : Prop := ':' ∈ (Text.trim text).toList

/-- The seconds of an amount of a unit. What is missing is one, or a day. -/
def seconds? (text : String) : Option Double := do
  let (number, unit) := (Text.trim text).toList.span fun c => Text.isDigit c || c == '.'
  let amount ← if number.isEmpty then some 1.0 else Text.readDouble? (String.ofList number)
  let seconds ← unitSeconds? (Text.trim (String.ofList unit))
  some (amount * seconds)

/-- A time of day of two or three zeros. -/
structure IsMidnight (text : String) : Prop where
  clock : IsClock text
  length : (Clock.parts text).length ≤ 3
  zeros : ∀ part ∈ Clock.parts text, Clock.part? part = some 0

/-- An amount that is rounded to more seconds than a span of time holds. -/
def IsTooLong (text : String) : Prop :=
  ¬ IsClock text ∧ ∃ x, seconds? text = some x ∧
    ((x.isInf = true ∧ x.isNegative = false) ∨
      (x.isFinite = true ∧ (maxSeconds : ℚ) + 1 / 2 ≤ x.toRat))

theorem read_of_clock (h : IsClock text) :
    read text = (Clock.read (Text.trim text)).map fun c => (c.totalSeconds : ℤ) := by
  unfold read
  rw [if_pos (List.contains_iff_mem.mpr h), String.ofList_toList]
  cases Clock.read (Text.trim text) <;> rfl

/-- An amount of a unit is rounded to whole seconds, if there are any and not too many. -/
theorem read_of_amount (h : ¬ IsClock text) :
    (seconds? text = none ∧ ∃ reason, read text = .error (.invalid "time_increment" text reason)) ∨
    ∃ x, seconds? text = some x ∧ read text =
      if Decimal.roundToWord64 x ≤ 0 then
        .error (.invalid "time_increment" text "must be positive")
      else if Decimal.roundToWord64 x > maxSeconds then .error .outOfRange
      else .ok (Decimal.roundToWord64 x) := by
  unfold read seconds?
  rw [if_neg (mt List.contains_iff_mem.mp h)]
  rcases (Text.trim text).toList.span fun c => Text.isDigit c || c == '.' with ⟨number, unit⟩
  dsimp only
  cases number.isEmpty with
  | true =>
    cases hunit : unitSeconds? (Text.trim (String.ofList unit)) with
    | none => exact .inl ⟨by simp, _, rfl⟩
    | some u => exact .inr ⟨1.0 * u, rfl, rfl⟩
  | false =>
    cases Text.readDouble? (String.ofList number) with
    | none => exact .inl ⟨by simp, _, rfl⟩
    | some amount =>
      cases unitSeconds? (Text.trim (String.ofList unit)) with
      | none => exact .inl ⟨by simp, _, rfl⟩
      | some u => exact .inr ⟨amount * u, rfl, rfl⟩

/-- A time of day is a step of its seconds, which is none at midnight only. -/
theorem read_clock_cases (h : IsClock text) :
    (IsMidnight text ∧ read text = .ok 0) ∨
    (¬ IsMidnight text ∧ ((∃ n, read text = .ok n ∧ 0 < n ∧ n ≤ maxSeconds) ∨
      ∃ keyword value reason, read text = .error (.invalid keyword value reason))) := by
  have hparts : Clock.parts (Text.trim text) = Clock.parts text := by
    rw [Clock.parts, Clock.parts, Text.trim_trim]
  have hmidnight : IsMidnight text ↔ Clock.spelled? (Text.trim text) = some .midnight := by
    rw [Clock.spelled?_eq_midnight_iff, hparts]
    exact ⟨fun hm => ⟨hm.length, hm.zeros⟩, fun hm => ⟨h, hm.1, hm.2⟩⟩
  rw [read_of_clock h, hmidnight]
  rcases Clock.read_cases (Text.trim text) with ⟨c, hc, hin, hread⟩ | ⟨hout, reason, hread⟩
  · rw [hread, hc, Option.some_inj, ← Clock.totalSeconds_eq_zero_iff]
    have hle := Clock.totalSeconds_le hin
    rcases Nat.eq_zero_or_pos c.totalSeconds with hzero | hpos
    · exact .inl ⟨hzero, congrArg (fun n : ℕ => Except.ok (n : ℤ)) hzero⟩
    · refine .inr ⟨hpos.ne', .inl ⟨c.totalSeconds, rfl, by omega, ?_⟩⟩
      rw [maxSeconds]
      omega
  · rw [hread]
    exact .inr ⟨fun hm => absurd (hout _ hm) (by decide), .inr ⟨_, _, _, rfl⟩⟩

/-- An amount is a step of at least one second, or is too long, or refused. -/
theorem read_amount_cases (h : ¬ IsClock text) :
    (IsTooLong text ∧ read text = .error .outOfRange) ∨
    (¬ IsTooLong text ∧ ((∃ n, read text = .ok n ∧ 0 < n ∧ n ≤ maxSeconds) ∨
      ∃ keyword value reason, read text = .error (.invalid keyword value reason))) := by
  rcases read_of_amount h with ⟨hnone, reason, hread⟩ | ⟨x, hx, hread⟩
  · refine .inr ⟨?_, .inr ⟨_, _, reason, hread⟩⟩
    rintro ⟨-, x, hx, -⟩
    rw [hnone] at hx
    cases hx
  · have hlong : IsTooLong text ↔ maxSeconds < Decimal.roundToWord64 x := by
      have hmax : maxSeconds = (9223372036854775 : ℕ) := rfl
      rw [hmax, Decimal.lt_roundToWord64_iff (by decide)]
      constructor
      · rintro ⟨-, y, hy, hlong⟩
        rw [Option.some.inj (hx.symm.trans hy)]
        exact hlong
      · exact fun hlong => ⟨h, x, hx, hlong⟩
    rw [hlong, hread]
    split
    next hzero => exact .inr ⟨by rw [maxSeconds]; omega, .inr ⟨_, _, _, rfl⟩⟩
    next hpos =>
      split
      next hlong => exact .inl ⟨hlong, rfl⟩
      next hfits => exact .inr ⟨hfits, .inl ⟨_, rfl, by omega, by omega⟩⟩

/-- Every text is read as a step of at least one second that a span of time holds, or refused as an
invalid value, unless it is midnight or too long. The time of day that is midnight is read as a step of
no length, and an amount that is too long leaves the range of the spans. -/
theorem read_usable (text : String) :
    (IsMidnight text ∧ read text = .ok 0) ∨ (IsTooLong text ∧ read text = .error .outOfRange) ∨
    (¬ IsMidnight text ∧ ¬ IsTooLong text ∧ ((∃ n, read text = .ok n ∧ 0 < n ∧ n ≤ maxSeconds) ∨
      ∃ keyword value reason, read text = .error (.invalid keyword value reason))) := by
  by_cases hclock : IsClock text
  · have hshort : ¬ IsTooLong text := fun hlong => hlong.1 hclock
    rcases read_clock_cases hclock with hzero | ⟨hmidnight, h⟩
    · exact .inl hzero
    · exact .inr (.inr ⟨hmidnight, hshort, h⟩)
  · have hmidnight : ¬ IsMidnight text := fun hzero => hclock hzero.clock
    rcases read_amount_cases hclock with hlong | ⟨hshort, h⟩
    · exact .inr (.inl hlong)
    · exact .inr (.inr ⟨hmidnight, hshort, h⟩)

/-- Midnight is a step of no length, though no seconds at all are refused, and a hundred quadrillion
weeks are no step. -/
theorem read_unusable : read "00:00:00" = .ok 0 ∧
    read "0s" = .error (.invalid "time_increment" "0s" "must be positive") ∧
      read "99999999999999999w" = .error .outOfRange := by
  decide +kernel

end TimeStep

end Hydroseries
