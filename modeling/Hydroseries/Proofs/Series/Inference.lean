import Hydroseries.Proofs.Decimal.Digits
import Hydroseries.Proofs.Series.Grid
import Mathlib.Tactic.Ring

/-!
# Inferred frequencies

What an inferred frequency says about the timestamps that it was inferred from.

* It has a positive step or a month of the calendar (`infer_proper`).
* With a fixed step, timestamps that are whole seconds apart lie whole steps after the first one
  (`multiple_of_infer_fixed`).
* With months or years, the timestamps follow each other on the grid (`follows_of_infer`).
* Its code tells it from all other frequencies that can be inferred (`code_injective`).
-/

namespace Hydroseries

open Timestamp (secondNanos dayNanos)

namespace Timestamp

/-! ## Whole seconds -/

theorem nanosecond_eq_zero_iff {t : Timestamp} :
    t.nanosecond = 0 ↔ t.nanos % secondNanos = 0 := by
  unfold nanosecond sinceMidnight
  rw [Int.fmod_eq_emod_of_nonneg t.nanos (by decide : (0 : Int) ≤ dayNanos)]
  simp only [secondNanos, dayNanos]
  omega

/-- Between whole seconds nothing is cut off. -/
theorem dvd_since_of_whole {s t : Timestamp} (hs : s.nanosecond = 0) (ht : t.nanosecond = 0) :
    secondNanos ∣ t.since s := by
  rw [nanosecond_eq_zero_iff] at hs ht
  apply Int.dvd_of_emod_eq_zero
  simp only [since, secondNanos] at *
  omega

theorem secondsSince_mul {s t : Timestamp} (h : secondNanos ∣ t.since s) :
    t.secondsSince s * secondNanos = t.since s :=
  Int.tdiv_mul_cancel h

theorem secondsSince_nonneg {s t : Timestamp} (h : s ≤ t) : 0 ≤ t.secondsSince s := by
  rw [le_iff] at h
  apply Int.tdiv_nonneg
  · simp only [since]
    omega
  · decide

end Timestamp

namespace Frequency

/-! ## Fixed steps -/

theorem fixedStep?_eq_some {index : List Timestamp} {step : Int}
    (h : fixedStep? index = some step) :
    0 < step ∧ step < monthLike ∧ ∀ s ∈ stepsOf index, s % step = 0 := by
  unfold fixedStep? at h
  split at h
  · cases h
  next first rest hsteps =>
    simp only at h
    split at h
    next hall =>
      obtain ⟨hpos, hmonth, hmul⟩ := hall
      cases h
      refine ⟨hpos, hmonth, fun s hs => ?_⟩
      rw [hsteps] at hs
      simpa using List.all_eq_true.mp hmul s hs
    · cases h

theorem infer_eq_fixed {index : List Timestamp} {step : Int} (h : infer index = fixed step) :
    fixedStep? index = some step := by
  unfold infer at h
  split at h
  · split at h
    next step' hstep =>
      rw [hstep]
      cases h
      rfl
    next =>
      -- None of the candidates is a fixed step.
      simp only [List.find?] at h
      repeat' split at h
      all_goals cases h
  · cases h

/-- Timestamps that increase by multiples of a step lie whole steps after the first. -/
theorem multiple_of_steps {step : Int} (hstep : 0 < step) :
    ∀ {first : Timestamp} {rest : List Timestamp}, Increasing (first :: rest) →
      (∀ t ∈ first :: rest, secondNanos ∣ t.since first) →
      (∀ s ∈ stepsOf (first :: rest), s % step = 0) →
      ∀ t ∈ first :: rest, ∃ k : Nat, t.nanos = first.nanos + k * (step * secondNanos)
  | first, [], _, _, _, t, ht => by
    rw [List.mem_singleton.mp ht]
    exact ⟨0, by simp⟩
  | first, second :: rest, hinc, hwhole, hsteps, t, ht => by
    rcases List.mem_cons.mp ht with rfl | ht
    · exact ⟨0, by simp⟩
    have hsecond : secondNanos ∣ second.since first := hwhole second (by simp)
    have htail := multiple_of_steps hstep (List.Pairwise.of_cons hinc)
      (fun t ht => by
        have hsum := Int.dvd_sub (hwhole t (List.mem_cons_of_mem _ ht)) hsecond
        rwa [Timestamp.since, Timestamp.since, sub_sub_sub_cancel_right] at hsum)
      (fun s hs => hsteps s (List.mem_cons_of_mem _ hs))
    obtain ⟨k, hk⟩ := htail t ht
    have hlt : first < second := List.rel_of_pairwise_cons hinc List.mem_cons_self
    have hmod : second.secondsSince first % step = 0 := hsteps _ List.mem_cons_self
    have hnonneg : 0 ≤ second.secondsSince first / step :=
      Int.ediv_nonneg (Timestamp.secondsSince_nonneg hlt.le) hstep.le
    have hsecs : second.secondsSince first = (second.secondsSince first / step).toNat * step := by
      rw [Int.toNat_of_nonneg hnonneg, Int.ediv_mul_cancel (Int.dvd_of_emod_eq_zero hmod)]
    have hspan := Timestamp.secondsSince_mul hsecond
    refine ⟨(second.secondsSince first / step).toNat + k, ?_⟩
    rw [hsecs, mul_assoc] at hspan
    simp only [Timestamp.since] at hspan
    push_cast
    rw [hk, add_mul, hspan]
    ring

/-- With an inferred fixed step, all timestamps lie whole steps after the first. -/
theorem multiple_of_infer_fixed {first : Timestamp} {rest : List Timestamp} {step : Int}
    (h : infer (first :: rest) = fixed step) (hinc : Increasing (first :: rest))
    (hwhole : ∀ t ∈ first :: rest, secondNanos ∣ t.since first) :
    ∀ t ∈ first :: rest, ∃ k : Nat, t.nanos = first.nanos + k * (step * secondNanos) :=
  have hstep := fixedStep?_eq_some (infer_eq_fixed h)
  multiple_of_steps hstep.1 hinc hwhole hstep.2.2

/-! ## Months and years -/

/-- The grids that are tried when no fixed step fits. -/
def calendarGrids (month : Nat) : List Frequency :=
  [monthEnd, monthStart, yearEnd month, yearStart month]

/-- An inferred frequency is a fixed step, one of the grids of the calendar that the timestamps lie
on, or none. -/
theorem infer_cases (index : List Timestamp) :
    (∃ step, infer index = fixed step) ∨
    (∃ first rest, index = first :: rest ∧ infer index ∈ calendarGrids first.date.month ∧
      (infer index).isAnchor first = true ∧ (infer index).follows index = true) ∨
    infer index = irregular := by
  unfold infer
  split
  next first second rest =>
    split
    next step _ => exact .inl ⟨step, rfl⟩
    next =>
      refine .inr ?_
      dsimp only
      cases hfound : [monthEnd, monthStart, yearEnd first.date.month,
          yearStart first.date.month].find? fun f =>
          f.isAnchor first && f.follows (first :: second :: rest) with
      | none => exact .inr rfl
      | some f =>
        have hgrid := List.find?_some hfound
        rw [Bool.and_eq_true] at hgrid
        exact .inl ⟨first, _, rfl, List.mem_of_find?_eq_some hfound, hgrid.1, hgrid.2⟩
  next => exact .inr (.inr rfl)

theorem infer_proper (index : List Timestamp) : (infer index).Proper := by
  rcases infer_cases index with ⟨step, h⟩ | ⟨first, rest, -, hmem, -⟩ | h
  · rw [h]
    exact (fixedStep?_eq_some (infer_eq_fixed h)).1
  · have hmonth := first.date.civil_month_mem
    simp only [calendarGrids, List.mem_cons, List.not_mem_nil, or_false] at hmem
    rcases hmem with h | h | h | h <;> rw [h]
    · trivial
    · trivial
    · exact hmonth
    · exact hmonth
  · rw [h]
    trivial

/-- On the grids of the calendar, the timestamps follow each other. -/
theorem follows_of_infer {index : List Timestamp} (hfixed : ∀ step, infer index ≠ fixed step)
    (hirregular : infer index ≠ irregular) : (infer index).follows index = true := by
  rcases infer_cases index with ⟨step, h⟩ | ⟨_, _, _, _, _, hfollows⟩ | h
  · exact absurd h (hfixed step)
  · exact hfollows
  · exact absurd h hirregular

/-! ## Codes -/

/-- The units of fixed steps, with their seconds. -/
def stepUnits : List (Char × Int) := [('D', 86400), ('H', 3600), ('T', 60), ('S', 1)]

/-- A count as it stands before its unit: nothing for one. -/
def countChars (n : Nat) : List Char := if n = 1 then [] else Nat.toDigits 10 n

theorem isDigit_of_mem_countChars {n : Nat} : ∀ c ∈ countChars n, Text.isDigit c = true := by
  unfold countChars
  split
  · exact nofun
  · exact fun c => Text.isDigit_of_mem_toDigits

theorem countChars_injective {m n : Nat} (h : countChars m = countChars n) : m = n := by
  unfold countChars at h
  split at h <;> split at h
  next hm hn => rw [hm, hn]
  next => exact absurd h.symm Nat.toDigits_ne_nil
  next => exact absurd h Nat.toDigits_ne_nil
  next => simpa using congrArg (fun cs => Nat.ofDigitChars 10 cs 0) h

theorem toList_count {n : Nat} {name : String} {letter : Char} (hname : name.toList = [letter]) :
    (if (n : Int) = 1 then name else toString (n : Int) ++ name).toList =
      countChars n ++ [letter] := by
  unfold countChars
  by_cases hn : n = 1
  · rw [if_pos (by exact_mod_cast hn), if_pos hn, hname]
    rfl
  · have hcount : toString (n : Int) = toString n := rfl
    rw [if_neg (by exact_mod_cast hn), if_neg hn, String.toList_append, hname, hcount,
      Text.toList_toString]

/-- A step of whole units is written as their count and their letter. -/
theorem exists_count {step : Int} (hstep : 0 < step) (unit : Char × Int) (name : String)
    (hunit : unit ∈ stepUnits) (hname : name.toList = [unit.1]) (hmod : step.tmod unit.2 = 0) :
    ∃ n : Nat, step = n * unit.2 ∧
      (if step.tdiv unit.2 = 1 then name else toString (step.tdiv unit.2) ++ name).toList =
        countChars n ++ [unit.1] := by
  have hpos : ∀ unit ∈ stepUnits, 0 < unit.2 := by decide
  obtain ⟨n, hn⟩ := Int.eq_ofNat_of_zero_le (Int.tdiv_nonneg hstep.le (hpos unit hunit).le)
  have hmul := Int.tdiv_mul_cancel (Int.dvd_of_tmod_eq_zero hmod)
  rw [hn] at hmul ⊢
  exact ⟨n, hmul.symm, toList_count hname⟩

/-- The code of a positive step is a count before one of the units. -/
theorem stepCode_cases {step : Int} (hstep : 0 < step) :
    ∃ n : Nat, ∃ unit ∈ stepUnits, step = n * unit.2 ∧
      (stepCode step).toList = countChars n ++ [unit.1] := by
  by_cases hday : step.tmod 86400 = 0
  · obtain ⟨n, hn, hcode⟩ := exists_count hstep ('D', 86400) "D" (by decide) rfl hday
    exact ⟨n, _, by decide, hn, by simpa only [stepCode, if_pos hday] using hcode⟩
  by_cases hhour : step.tmod 3600 = 0
  · obtain ⟨n, hn, hcode⟩ := exists_count hstep ('H', 3600) "H" (by decide) rfl hhour
    exact ⟨n, _, by decide, hn, by simpa only [stepCode, if_neg hday, if_pos hhour] using hcode⟩
  by_cases hminute : step.tmod 60 = 0
  · obtain ⟨n, hn, hcode⟩ := exists_count hstep ('T', 60) "T" (by decide) rfl hminute
    refine ⟨n, _, by decide, hn, ?_⟩
    simpa only [stepCode, if_neg hday, if_neg hhour, if_pos hminute] using hcode
  · obtain ⟨n, hn, hcode⟩ := exists_count hstep ('S', 1) "S" (by decide) rfl (Int.tmod_one step)
    refine ⟨n, _, by decide, hn, ?_⟩
    simpa only [stepCode, if_neg hday, if_neg hhour, if_neg hminute, Int.tdiv_one] using hcode

/-- Different positive steps have different codes. -/
theorem stepCode_injective {step other : Int} (hstep : 0 < step) (hother : 0 < other)
    (h : stepCode step = stepCode other) : step = other := by
  obtain ⟨m, unit, hunit, rfl, hcode⟩ := stepCode_cases hstep
  obtain ⟨n, unit', hunit', rfl, hcode'⟩ := stepCode_cases hother
  rw [h, hcode'] at hcode
  obtain ⟨hcount, hletter⟩ := List.append_inj' hcode rfl
  have hletters : ∀ u ∈ stepUnits, ∀ v ∈ stepUnits, u.1 = v.1 → u = v := by decide
  have hsame : unit' = unit := hletters _ hunit' _ hunit (List.singleton_inj.mp hletter)
  rw [countChars_injective hcount, hsame]

/-- The frequencies that timestamps can have other than fixed steps. -/
def unstepped : List Frequency := irregular :: (List.range' 1 12).flatMap calendarGrids

theorem mem_unstepped {f : Frequency} (hf : f.Proper) (hstep : ∀ step, f ≠ fixed step) :
    f ∈ unstepped := by
  have hmonth : ∀ {month : Nat}, 1 ≤ month ∧ month ≤ 12 → month ∈ List.range' 1 12 := by
    intro month h
    rw [List.mem_range'_1]
    omega
  cases f with
  | fixed step => exact absurd rfl (hstep step)
  | monthEnd | monthStart | irregular => decide
  | yearEnd month | yearStart month =>
    exact List.mem_cons_of_mem _
      (List.mem_flatMap.mpr ⟨month, hmonth hf, by simp [calendarGrids]⟩)

theorem unstepped_codes : ∀ f ∈ unstepped, ∀ g ∈ unstepped, f.code = g.code → f = g := by
  decide +kernel

/-- Codes other than of fixed steps that end in the letter of a unit have more than a count before
it. -/
theorem unstepped_uncounted : ∀ f ∈ unstepped, ∀ unit ∈ stepUnits,
    f.code.toList.getLast? = some unit.1 → f.code.toList.dropLast.all Text.isDigit = false := by
  decide +kernel

theorem code_ne_stepCode {f : Frequency} (hf : f ∈ unstepped) {step : Int} (hstep : 0 < step) :
    f.code ≠ stepCode step := by
  intro h
  obtain ⟨n, unit, hunit, -, hcode⟩ := stepCode_cases hstep
  rw [← h] at hcode
  have huncounted := unstepped_uncounted f hf unit hunit (by simp [hcode])
  rw [hcode, List.dropLast_concat, List.all_eq_true.mpr isDigit_of_mem_countChars] at huncounted
  cases huncounted

/-- Different frequencies have different codes. -/
theorem code_injective {f g : Frequency} (hf : f.Proper) (hg : g.Proper) (h : f.code = g.code) :
    f = g := by
  by_cases hstep : ∃ step, f = fixed step
  · obtain ⟨step, rfl⟩ := hstep
    by_cases hother : ∃ other, g = fixed other
    · obtain ⟨other, rfl⟩ := hother
      rw [stepCode_injective hf hg h]
    · have hmem := mem_unstepped hg fun other hg => hother ⟨other, hg⟩
      exact absurd h.symm (code_ne_stepCode hmem hf)
  · have hmem := mem_unstepped hf fun step hf => hstep ⟨step, hf⟩
    by_cases hother : ∃ other, g = fixed other
    · obtain ⟨other, rfl⟩ := hother
      exact absurd h (code_ne_stepCode hmem hg)
    · exact unstepped_codes f hmem g (mem_unstepped hg fun other hg => hother ⟨other, hg⟩) h

end Frequency

end Hydroseries
