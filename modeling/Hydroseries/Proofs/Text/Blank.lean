import Hydroseries.Text.Blank
import Mathlib.Data.List.DropRight
import Mathlib.Data.List.TakeDrop

/-!
# Trimming and cutting into lines

Trimming takes off the blanks at an end and nothing else, and a text is cut at line feeds into the
lines that it was put together from.
-/

namespace Hydroseries.Text

variable {xs ys : List Char} {c : Char}

/-! ## Trimming -/

theorem trimBack_concat_of_blank (hc : isBlank c = true) (xs : List Char) :
    trimBack (xs ++ [c]) = trimBack xs :=
  List.rdropWhile_concat_pos isBlank xs c hc

theorem trimBack_concat (hc : isBlank c = false) (xs : List Char) :
    trimBack (xs ++ [c]) = xs ++ [c] :=
  List.rdropWhile_concat_neg isBlank xs c (by simp [hc])

theorem trimBack_append_blanks (h : ∀ c ∈ ys, isBlank c = true) (xs : List Char) :
    trimBack (xs ++ ys) = trimBack xs := by
  induction ys using List.reverseRecOn with
  | nil => rw [List.append_nil]
  | append_singleton ys c ih =>
    rw [← List.append_assoc, trimBack_concat_of_blank (h c (by simp))]
    exact ih fun d hd => h d (List.mem_append_left _ hd)

/-- What stands behind the last character that is no blank is taken off, and nothing else. -/
theorem trimBack_cases (xs : List Char) :
    (∀ c ∈ xs, isBlank c = true) ∧ trimBack xs = [] ∨
    ∃ front c blanks, isBlank c = false ∧ (∀ b ∈ blanks, isBlank b = true) ∧
      xs = front ++ c :: blanks ∧ trimBack xs = front ++ [c] := by
  induction xs using List.reverseRecOn with
  | nil => exact .inl ⟨nofun, rfl⟩
  | append_singleton xs c ih =>
    cases hc : isBlank c with
    | false => exact .inr ⟨xs, c, [], hc, nofun, rfl, trimBack_concat hc xs⟩
    | true =>
      rw [trimBack_concat_of_blank hc]
      rcases ih with ⟨hall, hnil⟩ | ⟨front, d, blanks, hd, hblanks, rfl, htrim⟩
      · refine .inl ⟨fun b hb => ?_, hnil⟩
        rcases List.mem_append.mp hb with hb | hb
        · exact hall b hb
        · rw [List.mem_singleton.mp hb]
          exact hc
      · refine .inr ⟨front, d, blanks ++ [c], hd, fun b hb => ?_, by simp, htrim⟩
        rcases List.mem_append.mp hb with hb | hb
        · exact hblanks b hb
        · rw [List.mem_singleton.mp hb]
          exact hc

theorem trimFront_append_blanks (h : ∀ c ∈ xs, isBlank c = true) (ys : List Char) :
    trimFront (xs ++ ys) = trimFront ys :=
  List.dropWhile_append_of_pos h

theorem trimBack_of_nonblank {blanks : List Char} (hc : isBlank c = false)
    (hblanks : ∀ b ∈ blanks, isBlank b = true) (xs : List Char) :
    trimBack (xs ++ c :: blanks) = xs ++ [c] := by
  rw [List.append_cons, trimBack_append_blanks hblanks, trimBack_concat hc]

theorem trimChars_of_blanks (h : ∀ c ∈ xs, isBlank c = true) : trimChars xs = [] := by
  have hfront : trimFront xs = [] := List.dropWhile_eq_nil_iff.mpr h
  rw [trimChars, hfront]
  rfl

/-- Blanks behind a text do not matter. -/
theorem trimChars_append_blanks (h : ∀ c ∈ ys, isBlank c = true) (xs : List Char) :
    trimChars (xs ++ ys) = trimChars xs := by
  by_cases hxs : ∀ c ∈ xs, isBlank c = true
  · rw [trimChars_of_blanks hxs, trimChars_of_blanks fun c hc => ?_]
    rcases List.mem_append.mp hc with hc | hc
    · exact hxs c hc
    · exact h c hc
  · have hfront : trimFront (xs ++ ys) = trimFront xs ++ ys := by
      rw [trimFront, List.dropWhile_append, if_neg]
      · rfl
      · simpa [List.dropWhile_eq_nil_iff] using hxs
    rw [trimChars, hfront, trimBack_append_blanks h]
    rfl

theorem trimFront_head (cs : List Char) : ∀ c ∈ (trimFront cs).head?, isBlank c = false := by
  intro c hc
  have hnot := List.head?_dropWhile_not isBlank cs
  rw [← trimFront, Option.mem_def.mp hc] at hnot
  exact hnot

/-- A trimmed text does not begin with a blank. -/
theorem trimChars_head (cs : List Char) : ∀ c ∈ (trimChars cs).head?, isBlank c = false := by
  rcases trimBack_cases (trimFront cs) with ⟨-, hnil⟩ | ⟨front, c, blanks, -, -, hcs, htrim⟩
  · rw [trimChars, hnil]
    exact nofun
  · have hhead := trimFront_head cs
    rw [hcs] at hhead
    rw [trimChars, htrim]
    cases front <;> exact hhead

theorem trimFront_of_head (h : ∀ c ∈ xs.head?, isBlank c = false) : trimFront xs = xs := by
  cases xs with
  | nil => rfl
  | cons c cs => exact List.dropWhile_cons_of_neg (by simpa using h c rfl)

/-- A text with no blank at either end is trimmed already. -/
theorem trimChars_of_ends (hfront : ∀ c ∈ xs.head?, isBlank c = false)
    (hback : ∀ c ∈ xs.getLast?, isBlank c = false) : trimChars xs = xs := by
  rw [trimChars, trimFront_of_head hfront]
  cases xs using List.reverseRecOn with
  | nil => rfl
  | append_singleton cs c => exact trimBack_concat (hback c (by simp)) cs

/-- Trimming again takes nothing off. -/
theorem trimChars_trimChars (cs : List Char) : trimChars (trimChars cs) = trimChars cs := by
  rw [trimChars, trimFront_of_head (trimChars_head cs)]
  rcases trimBack_cases (trimFront cs) with ⟨-, hnil⟩ | ⟨front, c, blanks, hc, -, -, htrim⟩
  · rw [trimChars, hnil]
    rfl
  · rw [trimChars, htrim]
    exact trimBack_concat hc front

theorem trim_trim (s : String) : trim (trim s) = trim s := by
  rw [trim, trim, String.toList_ofList, trimChars_trimChars]

/-- A text without blanks comes out of the blanks around it. -/
theorem trimChars_padded {before body after : List Char}
    (hbefore : ∀ c ∈ before, isBlank c = true) (hafter : ∀ c ∈ after, isBlank c = true)
    (hbody : ∀ c ∈ body, isBlank c = false) : trimChars (before ++ body ++ after) = body := by
  rw [trimChars_append_blanks hafter, trimChars, trimFront_append_blanks hbefore]
  exact trimChars_of_ends (fun c hc => hbody c (List.mem_of_mem_head? hc))
    fun c hc => hbody c (List.mem_of_mem_getLast? hc)

/-- What stands in given columns of a text, without the blanks around it, stays when the blanks at
the end of the text are taken off. -/
theorem trimChars_columns (front cell rest : List Char) :
    trimChars (((trimBack (front ++ cell ++ rest)).drop front.length).take cell.length) =
      trimChars cell := by
  rcases trimBack_cases rest with ⟨hrest, -⟩ | ⟨shown, c, blanks, hc, hblanks, rfl, -⟩
  · rw [trimBack_append_blanks hrest]
    rcases trimBack_cases cell with ⟨hcell, -⟩ | ⟨shown, c, blanks, hc, hblanks, rfl, -⟩
    · -- Nothing is left of the columns.
      have hlength : (trimBack front).length ≤ front.length :=
        (List.rdropWhile_prefix isBlank front).length_le
      rw [trimBack_append_blanks hcell, List.drop_eq_nil_of_le hlength, List.take_nil,
        trimChars_of_blanks hcell]
      rfl
    · have hcell : shown ++ c :: blanks = shown ++ [c] ++ blanks := List.append_cons ..
      rw [← List.append_assoc, trimBack_of_nonblank hc hblanks, List.append_assoc,
        List.drop_left, List.take_of_length_le (by simp), hcell, trimChars_append_blanks hblanks]
  · rw [← List.append_assoc, trimBack_of_nonblank hc hblanks, List.append_assoc, List.append_assoc,
      List.drop_left, List.take_left]

/-! ## Cutting -/

theorem span_of_all {p : Char → Bool} (hxs : ∀ c ∈ xs, p c = true)
    (hys : ∀ c ∈ ys.head?, p c = false) : (xs ++ ys).span p = (xs, ys) := by
  rw [List.span_eq_takeWhile_dropWhile, List.takeWhile_append_of_pos hxs,
    List.dropWhile_append_of_pos hxs]
  cases ys with
  | nil => simp
  | cons c cs =>
    have hc := hys c rfl
    simp [hc]

/-- A text is cut at the first character that calls for it. -/
theorem cutAt_append {p : Char → Bool} (hxs : ∀ c ∈ xs, p c = false) (hc : p c = true)
    (ys : List Char) : cutAt p (xs ++ c :: ys) = some (xs, ys) := by
  have hspan : (xs ++ c :: ys).span (fun c => !p c) = (xs, c :: ys) := by
    refine span_of_all (fun d hd => by simp [hxs d hd]) fun d hd => ?_
    obtain rfl := Option.some.inj hd
    simp [hc]
  rw [cutAt, hspan]

/-! ## Lines -/

theorem piecesOf_ne_nil (p : Char → Bool) (cs : List Char) : piecesOf p cs ≠ [] := by
  cases cs with
  | nil => simp [piecesOf]
  | cons c cs =>
    rw [piecesOf]
    split
    · exact List.cons_ne_nil _ _
    · split <;> exact List.cons_ne_nil _ _

/-- The first piece ends where a character calls for a cut. -/
theorem piecesOf_append {p : Char → Bool} (hxs : ∀ c ∈ xs, p c = false) (hc : p c = true) :
    piecesOf p (xs ++ c :: ys) = xs :: piecesOf p ys := by
  induction xs with
  | nil => simp [piecesOf, hc]
  | cons x xs ih =>
    have hx := hxs x List.mem_cons_self
    rw [List.cons_append, piecesOf, hx, ih fun d hd => hxs d (List.mem_cons_of_mem _ hd)]
    rfl

/-- Lines with a line end behind each of them are cut apart again. -/
theorem piecesOf_lines {p : Char → Bool} {lines : List (List Char)}
    (hlines : ∀ line ∈ lines, ∀ c ∈ line, p c = false) (hc : p c = true) :
    piecesOf p (lines.flatMap fun line => line ++ [c]) = lines ++ [[]] := by
  induction lines with
  | nil => rfl
  | cons line lines ih =>
    rw [List.flatMap_cons, List.append_assoc, List.singleton_append,
      piecesOf_append (hlines line List.mem_cons_self) hc,
      ih fun l hl => hlines l (List.mem_cons_of_mem _ hl)]
    rfl

/-- A text is cut where its parts are, and between them at a character that calls for it. -/
theorem piecesOf_append_cons {p : Char → Bool} (hc : p c = true) (xs ys : List Char) :
    piecesOf p (xs ++ c :: ys) = piecesOf p xs ++ piecesOf p ys := by
  induction xs with
  | nil => simp [piecesOf, hc]
  | cons x xs ih =>
    rw [List.cons_append, piecesOf, piecesOf]
    split
    · rw [ih, List.cons_append]
    · rw [ih]
      cases hxs : piecesOf p xs with
      | nil => exact absurd hxs (piecesOf_ne_nil p xs)
      | cons piece rest => rfl

theorem linesOfPieces_append {pieces rest : List (List Char)} (hrest : rest ≠ []) :
    linesOfPieces (pieces ++ rest) = pieces.map dropReturn ++ linesOfPieces rest := by
  induction pieces with
  | nil => rfl
  | cons piece pieces ih =>
    have hne : pieces ++ rest ≠ [] := by simp [hrest]
    rw [List.map_cons, List.cons_append, List.cons_append, ← ih]
    cases h : pieces ++ rest with
    | nil => exact absurd h hne
    | cons next more => rfl

/-- The lines of a text behind a line end are those behind the line end of the text before. -/
theorem linesOf_append (front rest : List Char) :
    linesOf (front ++ '\n' :: rest) = linesOf (front ++ ['\n']) ++ linesOf rest := by
  have hnil : piecesOf (· == '\n') ([] : List Char) = [[]] := rfl
  unfold linesOf
  rw [piecesOf_append_cons rfl, piecesOf_append_cons rfl, hnil,
    linesOfPieces_append (piecesOf_ne_nil _ _), linesOfPieces_append (List.cons_ne_nil _ _)]
  simp [linesOfPieces]

end Hydroseries.Text
