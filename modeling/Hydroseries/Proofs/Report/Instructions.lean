import Hydroseries.Proofs.Record.Edit
import Hydroseries.Report.Listing

/-!
# Following the instructions of a report

A calibration program reads the instructions line by line: each says how many lines to go down and
which columns to take. Names may hold any character but a line feed, because the columns begin behind
the last bracket. For a listing without line feeds in its lines the instructions lead to every line
with a value, and to the columns that are noted for it (`follow_instructions`).
-/

namespace Hydroseries.Report

open Text (isDigit readDigits? piecesOf)

/-! ## The reader -/

/-- An instruction: so many lines down to the columns of a named value. -/
structure Instruction where
  down : ℕ
  name : String
  columns : ℕ × ℕ
  deriving DecidableEq, Repr

/-- The text before and after the last place of a character. -/
def cutAtLast (sep : Char) (cs : List Char) : Option (List Char × List Char) :=
  (Text.cutAt (· == sep) cs.reverse).map fun (back, front) => (front.reverse, back.reverse)

/-- Two columns with a colon between them. -/
def readColumns? (cs : List Char) : Option (ℕ × ℕ) := do
  let (first, last) ← Text.cutAt (· == ':') cs
  pure (← readDigits? first, ← readDigits? last)

/-- Reads `l2 [name]3:5`. -/
def readInstruction? : List Char → Option Instruction
  | 'l' :: cs => do
    let (down, target) ← Text.cutAt (· == ' ') cs
    let (name, columns) ← cutAtLast ']' target
    match name with
    | '[' :: name => pure ⟨← readDigits? down, String.ofList name, ← readColumns? columns⟩
    | _ => none
  | _ => none

/-- The characters in a range of columns, counted from one. -/
def cut (columns : ℕ × ℕ) (line : List Char) : List Char :=
  (line.drop (columns.1 - 1)).take (columns.2 + 1 - columns.1)

/-- Goes down the lines of a report and takes what stands in the columns. -/
def followFrom : List (List Char) → List Instruction → Option (List (String × List Char))
  | _, [] => some []
  | lines, i :: rest =>
    if i.down = 0 then none
    else match lines.drop (i.down - 1) with
      | [] => none
      | line :: lines => (followFrom lines rest).map ((i.name, cut i.columns line) :: ·)

/-- What the instructions of a calibration program find in a report. -/
def follow (instructions report : String) : Option (List (String × List Char)) :=
  match (piecesOf (· == '\n') instructions.toList).filter (· ≠ []) with
  | header :: lines =>
    if header = "pif $".toList then do
      followFrom (piecesOf (· == '\n') report.toList) (← lines.mapM readInstruction?)
    else none
  | [] => none

/-! ## One instruction -/

theorem cutAtLast_append {sep : Char} {back : List Char} (h : sep ∉ back) (front : List Char) :
    cutAtLast sep (front ++ sep :: back) = some (front, back) := by
  have hreverse : (front ++ sep :: back).reverse = back.reverse ++ sep :: front.reverse := by simp
  rw [cutAtLast, hreverse, Text.cutAt_append (by simpa using fun c hc => by rintro rfl; exact h hc)
    (by simp)]
  simp

theorem readDigits?_toDigits (n : ℕ) : readDigits? (Nat.toDigits 10 n) = some n :=
  Record.readDigits?_paddedDigits 0 n

/-- A character that is no digit is not among digits. -/
theorem ne_of_mem_toDigits {n : ℕ} {sep : Char} (hsep : isDigit sep = false) :
    ∀ c ∈ Nat.toDigits 10 n, (c == sep) = false := by
  intro c hc
  rw [beq_eq_false_iff_ne]
  rintro rfl
  rw [Text.isDigit_of_mem_toDigits hc] at hsep
  cases hsep

theorem readColumns?_toDigits (first last : ℕ) :
    readColumns? (Nat.toDigits 10 first ++ ':' :: Nat.toDigits 10 last) = some (first, last) := by
  rw [readColumns?, Text.cutAt_append (ne_of_mem_toDigits (by decide)) (by decide)]
  simp [readDigits?_toDigits]

theorem toList_instruction (last n : ℕ) (o : Observation) : (Listing.instruction last n o).toList =
    'l' :: (Nat.toDigits 10 (n - last) ++ ' ' :: '[' :: (o.name.toList ++ ']' ::
      (Nat.toDigits 10 o.columns.1 ++ ':' :: Nat.toDigits 10 o.columns.2))) := by
  simp [Listing.instruction]

/-- An instruction is read back from its text, whatever the name. -/
theorem readInstruction?_instruction (last n : ℕ) (o : Observation) :
    readInstruction? (Listing.instruction last n o).toList = some ⟨n - last, o.name, o.columns⟩ := by
  have hcolumns : ']' ∉ Nat.toDigits 10 o.columns.1 ++ ':' :: Nat.toDigits 10 o.columns.2 := by
    have hdigits : ∀ n, ']' ∉ Nat.toDigits 10 n := fun n hmem =>
      absurd (Text.isDigit_of_mem_toDigits hmem) (by decide)
    simp [hdigits]
  have htarget : cutAtLast ']' ('[' :: (o.name.toList ++ ']' ::
      (Nat.toDigits 10 o.columns.1 ++ ':' :: Nat.toDigits 10 o.columns.2))) =
        some ('[' :: o.name.toList,
          Nat.toDigits 10 o.columns.1 ++ ':' :: Nat.toDigits 10 o.columns.2) :=
    cutAtLast_append hcolumns ('[' :: o.name.toList)
  rw [toList_instruction, readInstruction?,
    Text.cutAt_append (ne_of_mem_toDigits (by decide)) (by decide)]
  simp [htarget, readDigits?_toDigits, readColumns?_toDigits]

/-! ## All instructions -/

/-- The instructions for observations further down than line `last`. -/
def instructionsOf (last : ℕ) : List (ℕ × Observation) → List Instruction
  | [] => []
  | (n, o) :: rest => ⟨n - last, o.name, o.columns⟩ :: instructionsOf n rest

theorem mapM_readInstruction? (last : ℕ) (observed : List (ℕ × Observation)) :
    ((Listing.instructionsFrom last observed).map String.toList).mapM readInstruction? =
      some (instructionsOf last observed) := by
  induction observed generalizing last with
  | nil => rfl
  | cons found rest ih =>
    obtain ⟨n, o⟩ := found
    rw [Listing.instructionsFrom, List.map_cons, List.mapM_cons, readInstruction?_instruction, ih]
    rfl

/-- The observations of lines that are counted from some number on. -/
def observedFrom (n : ℕ) (lines : List Line) : List (ℕ × Observation) :=
  (lines.zipIdx n).filterMap fun (line, n) => line.observation.map fun o => (n, o)

/-- A line as it is in the report. -/
def shownLine (line : Line) : List Char := Text.trimBack line.text.toList

/-- What stands in the columns of the values of some lines. -/
def marked (lines : List Line) : List (String × List Char) :=
  lines.filterMap fun line => line.observation.map fun o => (o.name, cut o.columns (shownLine line))

/-- The instructions for the rest of a report lead to its values, over the lines without a value that
come first. -/
theorem followFrom_shownLines (skipped rest : List (List Char)) (last : ℕ) (lines : List Line) :
    followFrom (skipped ++ (lines.map shownLine ++ rest))
        (instructionsOf last (observedFrom (last + skipped.length + 1) lines)) =
      some (marked lines) := by
  induction lines generalizing skipped last with
  | nil => rfl
  | cons line lines ih =>
    obtain ⟨text, _ | o⟩ := line
    · have hskip := ih (skipped ++ [shownLine ⟨text, none⟩]) last
      rw [List.length_append, List.append_assoc] at hskip
      exact hskip
    · have hrest : followFrom (lines.map shownLine ++ rest)
          (instructionsOf (last + skipped.length + 1)
            (observedFrom (last + skipped.length + 1 + 1) lines)) = some (marked lines) :=
        ih [] (last + skipped.length + 1)
      have hdown : last + skipped.length + 1 - last = skipped.length + 1 := by omega
      show followFrom _ (⟨last + skipped.length + 1 - last, o.name, o.columns⟩ ::
        instructionsOf (last + skipped.length + 1) (observedFrom _ lines)) = _
      rw [hdown, followFrom, if_neg (Nat.succ_ne_zero _), Nat.add_sub_cancel, List.drop_left,
        List.map_cons, List.cons_append]
      dsimp only
      rw [hrest]
      rfl

theorem toList_text (l : Listing) :
    l.text.toList = (l.lines.map shownLine).flatMap fun line => line ++ ['\n'] := by
  have hfeed : "\n".toList = ['\n'] := rfl
  simp only [Listing.text, String.toList_join, List.flatMap_map, String.toList_append, hfeed,
    Text.trimEnd, String.toList_ofList, shownLine]

theorem toList_instructions (l : Listing) : l.instructions.toList =
    (("pif $" :: Listing.instructionsFrom 0 l.observed).map String.toList).flatMap
      fun line => line ++ ['\n'] := by
  have hfeed : "\n".toList = ['\n'] := rfl
  simp only [Listing.instructions, String.toList_join, List.flatMap_map, String.toList_append, hfeed]

/-- Every instruction is that of an observation. -/
theorem mem_instructionsFrom {last : ℕ} {observed : List (ℕ × Observation)} {text : String}
    (h : text ∈ Listing.instructionsFrom last observed) :
    ∃ last' n o, (n, o) ∈ observed ∧ text = Listing.instruction last' n o := by
  induction observed generalizing last with
  | nil => cases h
  | cons found rest ih =>
    obtain ⟨n, o⟩ := found
    rcases List.mem_cons.mp h with rfl | h
    · exact ⟨last, n, o, List.mem_cons_self, rfl⟩
    · obtain ⟨last', n', o', hmem, htext⟩ := ih h
      exact ⟨last', n', o', List.mem_cons_of_mem _ hmem, htext⟩

theorem lineFeed_not_mem_instruction {o : Observation} (ho : '\n' ∉ o.name.toList) (last n : ℕ) :
    '\n' ∉ (Listing.instruction last n o).toList := by
  have hdigits : ∀ n, '\n' ∉ Nat.toDigits 10 n := fun n hmem =>
    absurd (Text.isDigit_of_mem_toDigits hmem) (by decide)
  simp [toList_instruction, hdigits, ho]

/-- Lines without line feeds are cut apart as they were put together. -/
theorem piecesOf_feeds {lines : List (List Char)} (h : ∀ line ∈ lines, '\n' ∉ line) :
    piecesOf (· == '\n') (lines.flatMap fun line => line ++ ['\n']) = lines ++ [[]] := by
  refine Text.piecesOf_lines (fun line hline c hc => ?_) rfl
  rw [beq_eq_false_iff_ne]
  rintro rfl
  exact h line hline hc

/-- Without line feeds in its lines and its names, a report is read as it was laid out. -/
theorem follow_instructions (l : Listing) (hlines : ∀ line ∈ l.lines, '\n' ∉ line.text.toList)
    (hnames : ∀ o ∈ l.observed, '\n' ∉ o.2.name.toList) :
    follow l.instructions l.text = some (marked l.lines) := by
  have hreport : piecesOf (· == '\n') l.text.toList = l.lines.map shownLine ++ [[]] := by
    rw [toList_text]
    refine piecesOf_feeds fun text htext => ?_
    obtain ⟨line, hline, rfl⟩ := List.mem_map.mp htext
    exact fun hmem => hlines line hline ((List.rdropWhile_prefix _ _).subset hmem)
  have hpieces : piecesOf (· == '\n') l.instructions.toList =
      "pif $".toList :: (Listing.instructionsFrom 0 l.observed).map String.toList ++ [[]] := by
    rw [toList_instructions]
    refine piecesOf_feeds fun text htext => ?_
    obtain ⟨text, hmem, rfl⟩ := List.mem_map.mp htext
    rcases List.mem_cons.mp hmem with rfl | hmem
    · decide
    · obtain ⟨last, n, o, ho, rfl⟩ := mem_instructionsFrom hmem
      exact lineFeed_not_mem_instruction (hnames _ ho) last n
  have hfilter : (piecesOf (· == '\n') l.instructions.toList).filter (· ≠ []) =
      "pif $".toList :: (Listing.instructionsFrom 0 l.observed).map String.toList := by
    rw [hpieces, List.filter_append, List.filter_eq_self.mpr]
    · exact List.append_nil _
    · intro text htext
      rcases List.mem_cons.mp htext with rfl | htext
      · decide
      · obtain ⟨text, hmem, rfl⟩ := List.mem_map.mp htext
        obtain ⟨last, n, o, -, rfl⟩ := mem_instructionsFrom hmem
        simp [toList_instruction]
  rw [follow, hfilter]
  dsimp only
  rw [if_pos rfl, mapM_readInstruction?, hreport]
  exact followFrom_shownLines [] [[]] 0 l.lines

end Hydroseries.Report
