import Hydroseries.Proofs.Record.Columns
import Hydroseries.Proofs.Record.General
import Hydroseries.Proofs.Report.Sections

/-!
# Cells of a report

Each kind of entity has a record format of its own, with the value in general form. Wherever the
other fields end, the span that is noted for the value holds its text (`hasCell_of_isEntry`).
-/

namespace Hydroseries.Report

open Record

variable {kind : EntityKind} {e : Entry} {written : Written}

/-- The columns of a value of some kind. -/
def valueWidth : EntityKind → ℕ
  | .series => 16
  | .vTable => 18
  | _ => 14

/-- The digits of a value of some kind. -/
def valueDigits : EntityKind → ℕ
  | .series => 9
  | .vTable => 12
  | _ => 7

/-- The scale factor for the values of some kind. -/
def valueScale : EntityKind → ℤ
  | .sTable | .cTable => 1
  | _ => 0

/-- The text of a value of some kind. -/
def valueText (kind : EntityKind) (v : Double) : String :=
  editGeneral v (valueWidth kind) (valueDigits kind) (valueScale kind)

theorem length_valueText (kind : EntityKind) (v : Double) :
    (valueText kind v).length = valueWidth kind :=
  length_editGeneral (by cases kind <;> decide) _ _ _

/-- The value at the end of a record. -/
theorem hasCell_of_write (kind : EntityKind) {before : Format} {given : List Field} {v : Double}
    (hcount : before.countP Descriptor.takesField = given.length)
    (hscale : Format.rescale 0 before = valueScale kind)
    (h : Format.write (before ++ [.general (valueWidth kind) (valueDigits kind)])
      (given ++ [.number v]) = .ok written) :
    written.HasCell given.length (valueText kind v).toList := by
  obtain ⟨line, spans, hspans, h⟩ := writeFrom_append hcount h
  have htext : render (Format.rescale 0 before) (.general (valueWidth kind) (valueDigits kind))
      (.number v) = .ok (valueText kind v) := by
    rw [hscale]
    exact general_eq (by cases kind <;> decide) v _ _
  have hsome : (valueText kind v).length ≠ 0 := by
    rw [length_valueText]
    cases kind <;> decide
  have hcell := hasCell_of_writeFrom rfl htext hsome (List.forall_mem_nil _) h
  rwa [hspans, List.length_nil, Nat.zero_add] at hcell

/-- The duration of an exceedance stands left of the fraction. -/
theorem hasCell_of_exceedanceRow {r : ExceedanceRow Double}
    (h : Format.write exceedanceRow (exceedanceEntry r).fields = .ok written) :
    written.HasCell 2 (valueText .eTable r.duration).toList := by
  have hparts : writeFrom 0 {} []
      ([.tab 2, .general 14 7, .tab 20, .general 14 7] ++
        [.tab 40, .general 14 7, .tab 63, .general 14 7])
      ([.number r.threshold, .number r.delay] ++ [.number r.duration, .number r.fraction]) =
        .ok written := h
  obtain ⟨line, spans, hspans, hrest⟩ := writeFrom_append rfl hparts
  have hvalue : writeFrom 0 (line.moveTo 39) spans [.general 14 7, .tab 63, .general 14 7]
      [.number r.duration, .number r.fraction] = .ok written :=
    writeFrom_of_not_takesField rfl hrest
  have htext : render 0 (.general 14 7) (.number r.duration) =
      .ok (valueText .eTable r.duration) := general_eq (by decide) r.duration 14 0
  have hlength : (valueText .eTable r.duration).length = 14 := length_valueText .eTable r.duration
  -- The fraction begins in column 63, and the duration ends in column 53.
  have hbehind : ∀ d ∈ [Descriptor.tab 63, .general 14 7], d.staysBehind (39 + 14) = true := by
    decide
  have hcell := hasCell_of_writeFrom rfl htext (by omega) (by rwa [hlength]) hvalue
  rwa [hspans] at hcell

/-- A value stands in its record where the span says. -/
theorem hasCell_of_isEntry (he : IsEntry kind e)
    (h : Format.write e.format e.fields = .ok written) :
    written.HasCell e.position (valueText kind e.value).toList := by
  cases he with
  | dated label date time v =>
    have hrow : Format.write (datedRow.dropLast ++ [.general 16 9])
        ([.text label, .text date, .text time] ++ [.number v]) = .ok written := h
    exact hasCell_of_write .series rfl rfl hrow
  | plain v =>
    have hrow : Format.write (plainRow.dropLast ++ [.general 16 9]) ([] ++ [.number v]) =
        .ok written := h
    exact hasCell_of_write .series rfl rfl hrow
  | statistic hkind label v =>
    have hrow : Format.write (statisticRow.dropLast ++ [.general 14 7])
        ([.text label] ++ [.number v]) = .ok written := h
    rcases hkind with rfl | rfl
    · exact hasCell_of_write .sTable rfl rfl hrow
    · exact hasCell_of_write .cTable rfl rfl hrow
  | volume start startTime finish finishTime v =>
    have hrow : Format.write (volumeRow.dropLast ++ [.general 18 12])
        ([.text start, .text startTime, .text finish, .text finishTime] ++ [.number v]) =
          .ok written := h
    exact hasCell_of_write .vTable rfl rfl hrow
  | exceedance r => exact hasCell_of_exceedanceRow h
  | general label v =>
    have hrow : Format.write (generalRow.dropLast ++ [.general 14 7])
        ([.text label] ++ [.number v]) = .ok written := h
    exact hasCell_of_write .gTable rfl rfl hrow

end Hydroseries.Report
