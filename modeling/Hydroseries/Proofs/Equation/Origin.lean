import Hydroseries.Equation.Parser
import Hydroseries.Proofs.Decimal.Digits
import Hydroseries.Proofs.Text.Blank
import Hydroseries.Proofs.Time.Calendar

/-!
# Origins written and read back

The origin of a count of days is written as `mm/dd/yyyy_hh:mm:ss`, each number filled up with
zeros to its width. A number of full width is read back whatever stands behind it, so the stamp is
read back field by field (`readOrigin?_stamp`).
-/

namespace Hydroseries

/-! ## Numbers of full width -/

namespace Text

theorem toList_padZero (width n : Nat) :
    (padZero width (toString n)).toList = paddedDigits (width - (Nat.toDigits 10 n).length) n := by
  rw [padZero, String.toList_append, String.toList_ofList, Nat.toString_eq_ofList_toDigits,
    String.toList_ofList, String.length_ofList, paddedDigits]

theorem length_padZero {width n : Nat} (hwidth : 1 ≤ width) (h : n < 10 ^ width) :
    (padZero width (toString n)).toList.length = width := by
  have hle := (Nat.length_toDigits_le_iff (by decide) hwidth).mpr h
  rw [toList_padZero, paddedDigits, List.length_append, List.length_replicate]
  omega

end Text

namespace Pattern

variable {f : Field} {width n : Nat}

theorem scanNumber?_padZero (hwidth : 1 ≤ width ∧ width ≤ 18) (h : n < 10 ^ width)
    (rest : List Char) :
    scanNumber? width ((Text.padZero width (toString n)).toList ++ rest) =
      some ((n : Int), rest) := by
  have hlength := Text.length_padZero hwidth.1 h
  have hword : n < Nat.pow 2 63 :=
    h.trans_le ((Nat.pow_le_pow_right (by decide) hwidth.2).trans (by decide))
  have hdigits : ((Text.padZero width (toString n)).toList.takeWhile Text.isDigit) =
      (Text.padZero width (toString n)).toList := by
    rw [List.takeWhile_eq_self_iff, Text.toList_padZero]
    exact fun c => Text.isDigit_of_mem_paddedDigits
  have hvalue : Text.digitsValue (Text.padZero width (toString n)).toList = n := by
    rw [Text.toList_padZero, Text.digitsValue_paddedDigits]
  have hne : (Text.padZero width (toString n)).toList.isEmpty = false :=
    List.isEmpty_eq_false_iff.mpr (List.ne_nil_of_length_pos (by omega))
  rw [scanNumber?, List.take_append_of_le_length (by omega), List.take_of_length_le (by omega),
    hdigits, hvalue, hne, List.drop_left]
  simp [hword]

/-- A field of full width is read back; a year of four digits has no sign. -/
theorem scanField?_padZero (hf : f.width = some width) (hwidth : 1 ≤ width ∧ width ≤ 18)
    (h : n < 10 ^ width) (rest : List Char) :
    scanField? f ((Text.padZero width (toString n)).toList ++ rest) = some ((n : Int), rest) := by
  have hscan := scanNumber?_padZero hwidth h rest
  have hlength := Text.length_padZero hwidth.1 h
  rcases hcs : (Text.padZero width (toString n)).toList with _ | ⟨c, cs⟩
  · rw [hcs, List.length_nil] at hlength
    omega
  have hc : Text.isDigit c = true := by
    have hmem : c ∈ (Text.padZero width (toString n)).toList := hcs ▸ List.mem_cons_self
    rw [Text.toList_padZero] at hmem
    exact Text.isDigit_of_mem_paddedDigits hmem
  have htrim : Text.trimFront (c :: cs ++ rest) = c :: (cs ++ rest) := by
    rw [Text.trimFront, List.cons_append,
      List.dropWhile_cons_of_neg (by simp [Text.isBlank_of_isDigit hc])]
  rw [hcs, List.cons_append] at hscan
  rw [scanField?, htrim, hf]
  split
  · split
    next heq => cases heq; cases hc
    next heq => cases heq; cases hc
    next => exact hscan
  · exact hscan

theorem within?_of_mem {low high v : Int} (h : low ≤ v ∧ v ≤ high) :
    within? low high v = some v := if_pos h

/-! Fields that nothing has been put in yet. -/

section Put

variable {g : Gathered}

theorem put?_year {y : Int} (hg : g.year = none) (h : 0 ≤ y ∧ y ≤ 9999) :
    g.put? .year y.toNat = some { g with year := some y } := by
  have hy : ((y.toNat : Nat) : Int) = y := Int.toNat_of_nonneg h.1
  have hword : -((Nat.pow 2 31 : Nat) : Int) ≤ y ∧ y ≤ (Nat.pow 2 31 : Nat) - 1 := by
    rw [show Nat.pow 2 31 = 2147483648 from rfl]
    omega
  simp only [Gathered.put?, hy, within?_of_mem hword, hg]
  rfl

theorem put?_month (hg : g.month = none) (h : 1 ≤ (n : Int) ∧ (n : Int) ≤ 12) :
    g.put? .month n = some { g with month := some n } := by
  simp only [Gathered.put?, Gathered.putMonth?, within?_of_mem h, hg]
  rfl

theorem put?_day (hg : g.day = none) (h : 1 ≤ (n : Int) ∧ (n : Int) ≤ 31) :
    g.put? .day n = some { g with day := some n } := by
  simp only [Gathered.put?, within?_of_mem h, hg]
  rfl

theorem put?_hour (hhalf : g.half = none) (hg : g.hourOfHalf = none)
    (h : 0 ≤ (n : Int) ∧ (n : Int) ≤ 23) :
    g.put? .hour n = some { g with half := some (n / 12), hourOfHalf := some (n % 12) } := by
  simp only [Gathered.put?, Gathered.putHalf?, within?_of_mem h, hhalf, hg]
  rfl

theorem put?_minute (hg : g.minute = none) (h : 0 ≤ (n : Int) ∧ (n : Int) ≤ 59) :
    g.put? .minute n = some { g with minute := some n } := by
  simp only [Gathered.put?, within?_of_mem h, hg]
  rfl

theorem put?_second (hg : g.second = none) (h : 0 ≤ (n : Int) ∧ (n : Int) ≤ 60) :
    g.put? .second n = some { g with second := some n } := by
  simp only [Gathered.put?, within?_of_mem h, hg]
  rfl

end Put

/-- The items take their fields from a text and leave nothing of it. -/
def Covers (items : List Item) (g : Gathered) (cs : List Char) (g' : Gathered) : Prop :=
  items.foldlM (fun (g, cs) item => item.read? g cs) (g, cs) = some (g', [])

namespace Covers

variable {items : List Item} {g g' g'' : Gathered} {rest : List Char}

theorem nil (g : Gathered) : Covers [] g [] g := rfl

theorem zeros (hf : f.width = some width) (hwidth : 1 ≤ width ∧ width ≤ 18) (h : n < 10 ^ width)
    (hput : g.put? f n = some g') (hrest : Covers items g' rest g'') :
    Covers (.zeros f :: items) g ((Text.padZero width (toString n)).toList ++ rest) g'' := by
  have hread : (Item.zeros f).read? g ((Text.padZero width (toString n)).toList ++ rest) =
      some (g', rest) := by
    rw [Item.read?, if_neg (by simp [Item.zeros]), Item.zeros, Item.readPlain?,
      scanField?_padZero hf hwidth h]
    simp only [Option.bind_eq_bind, Option.bind_some, hput]
  rw [Covers, List.foldlM_cons]
  simp only [hread]
  exact hrest

theorem char (c : Char) (hrest : Covers items g rest g') :
    Covers (.char c :: items) g (c :: rest) g' := by
  have hread : (Item.char c).read? g (c :: rest) = some (g, rest) := by
    rw [Item.read?, if_neg (by simp [Item.char]), Item.char, Item.readPlain?]
    simp
  rw [Covers, List.foldlM_cons]
  simp only [hread]
  exact hrest

theorem gather? {cs : List Char} (h : Covers items {} cs g) : gather? items cs = some g := by
  rw [Pattern.gather?, h]

end Covers

end Pattern

/-! ## Stamps -/

namespace Equation.DayOrigin

open Pattern

/-- Month, day, year and time of day, as an equation has them behind `@_days_`. -/
def stamp (o : DayOrigin) : List Char :=
  (Timestamp.twoDigits o.day.civil.month).toList ++ '/' ::
    ((Timestamp.twoDigits o.day.civil.day).toList ++ '/' ::
      ((Text.padZero 4 (toString o.day.civil.year.toNat)).toList ++ '_' ::
        ((Timestamp.twoDigits o.clock.hours).toList ++ ':' ::
          ((Timestamp.twoDigits o.clock.minutes).toList ++ ':' ::
            (Timestamp.twoDigits o.clock.seconds).toList))))

/-- Years of four digits, and times of day with a second that may be the sixtieth. -/
structure IsWritable (o : DayOrigin) : Prop where
  year_nonneg : 0 ≤ o.day.civil.year
  year_le : o.day.civil.year ≤ 9999
  hours_lt : o.clock.hours < 24
  minutes_lt : o.clock.minutes < 60
  seconds_le : o.clock.seconds ≤ 60

instance (o : DayOrigin) : Decidable o.IsWritable :=
  decidable_of_iff (0 ≤ o.day.civil.year ∧ o.day.civil.year ≤ 9999 ∧ o.clock.hours < 24 ∧
      o.clock.minutes < 60 ∧ o.clock.seconds ≤ 60)
    ⟨fun ⟨h₁, h₂, h₃, h₄, h₅⟩ => ⟨h₁, h₂, h₃, h₄, h₅⟩,
      fun ⟨h₁, h₂, h₃, h₄, h₅⟩ => ⟨h₁, h₂, h₃, h₄, h₅⟩⟩

theorem length_stamp {o : DayOrigin} (h : o.IsWritable) : o.stamp.length = 19 := by
  have hmonth := o.day.civil_month_mem
  have hday := o.day.civil_day_mem
  have hlong := Calendar.daysInMonth_le o.day.civil.year o.day.civil.month
  obtain ⟨hyear, hyear', hhours, hminutes, hseconds⟩ := h
  have htwo {n : Nat} (hn : n < 10 ^ 2) : (Timestamp.twoDigits n).toList.length = 2 :=
    Text.length_padZero (by decide) hn
  simp only [stamp, List.length_append, List.length_cons]
  rw [htwo (by omega), htwo (by omega), Text.length_padZero (by decide) (by omega),
    htwo (by omega), htwo (by omega), htwo (by omega)]

/-- A stamp begins with a digit. -/
theorem head_stamp (o : DayOrigin) :
    ∃ c tail, o.stamp = c :: tail ∧ Text.isDigit c = true := by
  have hmonth : (Timestamp.twoDigits o.day.civil.month).toList = _ := Text.toList_padZero ..
  rcases hcs : Text.paddedDigits (2 - (Nat.toDigits 10 o.day.civil.month).length)
    o.day.civil.month with _ | ⟨c, tail⟩
  · exact absurd (List.append_eq_nil_iff.mp hcs).2 Nat.toDigits_ne_nil
  · refine ⟨c, _, by rw [stamp, hmonth, hcs, List.cons_append], ?_⟩
    exact Text.isDigit_of_mem_paddedDigits (hcs ▸ List.mem_cons_self)

theorem itemsOf_stamp : itemsOf "%m/%d/%Y_%H:%M:%S".toList =
    [.zeros .month, .char '/', .zeros .day, .char '/', .zeros .year, .char '_', .zeros .hour,
      .char ':', .zeros .minute, .char ':', .zeros .second] := by
  simp [itemsOf, readField, padOfMark?, itemsOfLetter, isPlain, Text.isBlank, Text.inRanges,
    Text.blankRanges, Item.char]

/-- What a text holds of a day and a time of day. -/
def gathered (o : DayOrigin) : Gathered where
  year := some o.day.civil.year
  month := some o.day.civil.month
  day := some o.day.civil.day
  half := some (o.clock.hours / 12)
  hourOfHalf := some (o.clock.hours % 12)
  minute := some o.clock.minutes
  second := some o.clock.seconds

theorem gather?_stamp {o : DayOrigin} (h : o.IsWritable) :
    gather? (itemsOf "%m/%d/%Y_%H:%M:%S".toList) o.stamp = some o.gathered := by
  have hmonth := o.day.civil_month_mem
  have hday := o.day.civil_day_mem
  have hlong := Calendar.daysInMonth_le o.day.civil.year o.day.civil.month
  obtain ⟨hyear, hyear', hhours, hminutes, hseconds⟩ := h
  rw [itemsOf_stamp, stamp, ← List.append_nil (Timestamp.twoDigits o.clock.seconds).toList]
  refine Covers.gather? ?_
  refine .zeros rfl (by decide) (by omega) (put?_month rfl (by omega)) (.char '/' ?_)
  refine .zeros rfl (by decide) (by omega) (put?_day rfl (by omega)) (.char '/' ?_)
  refine .zeros rfl (by decide) (by omega) (put?_year rfl (by omega)) (.char '_' ?_)
  refine .zeros rfl (by decide) (by omega) (put?_hour rfl rfl (by omega)) (.char ':' ?_)
  refine .zeros rfl (by decide) (by omega) (put?_minute rfl (by omega)) (.char ':' ?_)
  exact .zeros rfl (by decide) (by omega) (put?_second rfl (by omega)) (.nil _)

theorem date?_gathered {o : DayOrigin} (h : o.IsWritable) : o.gathered.date? = some o.day := by
  have hmonth := o.day.civil_month_mem
  have hday := o.day.civil_day_mem
  obtain ⟨hyear, hyear', -, -, -⟩ := h
  have hcandidate : o.gathered.candidate? = some o.day := by
    simp only [gathered, Gathered.candidate?, resolveYear?, Option.bind_eq_bind, Option.bind_some,
      Int.toNat_natCast]
    rw [Date.ofYmd?, if_pos, Date.ofCivil_civil]
    simp only [Calendar.firstYear, Calendar.lastYear]
    omega
  rw [Gathered.date?, hcandidate, Option.filter_some, if_pos]
  simp [Gathered.agreesCivil, Gathered.agreesWeek, Gathered.agreesOrdinal, fits, fitsPart, gathered]

theorem clock?_gathered (o : DayOrigin) :
    o.gathered.clock? = some (o.clock.hours, o.clock.minutes, o.clock.seconds) := by
  simp only [gathered, Gathered.clock?, Option.bind_eq_bind, Option.bind_some, Option.getD_some,
    Int.toNat_natCast]
  congr 2
  omega

/-- The stamp of an origin is read as the origin. -/
theorem readOrigin?_stamp {o : DayOrigin} (h : o.IsWritable) : readOrigin? o.stamp = some o := by
  rw [readOrigin?, gather?_stamp h]
  simp only [Option.bind_eq_bind, Option.bind_some, date?_gathered h, clock?_gathered]

end Equation.DayOrigin

end Hydroseries
