import Hydroseries.Proofs.Text.Blank
import Hydroseries.Text.Case

/-!
# Words of a text

A word is a run of characters that are no blanks, and it is not empty, in whatever case it is
written. The blanks before, between and behind words do not matter when a text is cut into words.
-/

namespace Hydroseries.Text

/-- A word is not empty, and there is no blank in it. -/
def IsWord (word : List Char) : Prop := word ≠ [] ∧ ∀ c ∈ word, isBlank c = false

instance (word : List Char) : Decidable (IsWord word) :=
  decidable_of_iff ((!word.isEmpty && word.all fun c => !isBlank c) = true) (by simp [IsWord])

theorem isWord_of_mem_wordsGo {begun : List Char} (hbegun : ∀ c ∈ begun, isBlank c = false)
    (cs : List Char) : ∀ w ∈ wordsGo begun cs, IsWord w := by
  have hdone : begun ≠ [] → IsWord begun.reverse := fun hne =>
    ⟨by simpa using hne, fun c hc => hbegun c (List.mem_reverse.mp hc)⟩
  induction cs generalizing begun with
  | nil =>
    intro w hw
    rw [wordsGo] at hw
    split at hw
    · cases hw
    next hne =>
      rw [List.mem_singleton.mp hw]
      exact hdone (by simpa using hne)
  | cons c cs ih =>
    intro w hw
    rw [wordsGo] at hw
    split at hw
    next hblank =>
      split at hw
      · exact ih (List.forall_mem_nil _) (fun hne => absurd rfl hne) w hw
      next hne =>
        rcases List.mem_cons.mp hw with rfl | hw
        · exact hdone (by simpa using hne)
        · exact ih (List.forall_mem_nil _) (fun hne => absurd rfl hne) w hw
    next hblank =>
      have hall : ∀ d ∈ c :: begun, isBlank d = false :=
        List.forall_mem_cons.mpr ⟨by simpa using hblank, hbegun⟩
      refine ih hall (fun hne => ⟨by simp, fun d hd => hall d (List.mem_reverse.mp hd)⟩) w hw

theorem isWord_of_mem_wordsOf {cs : List Char} : ∀ w ∈ wordsOf cs, IsWord w :=
  isWord_of_mem_wordsGo (List.forall_mem_nil _) cs

theorem isAllBlank_word {w : String} (h : IsWord w.toList) : isAllBlank w = false := by
  obtain ⟨c, cs, hcs⟩ := List.exists_cons_of_ne_nil h.1
  rw [isAllBlank, hcs, List.all_cons, h.2 c (hcs ▸ List.mem_cons_self), Bool.false_and]

/-- A text with a word in it is not blank. -/
theorem isAllBlank_join {sep : String} {parts : List String} (hparts : parts ≠ [])
    (hwords : ∀ part ∈ parts, IsWord part.toList) : isAllBlank (join sep parts) = false := by
  obtain ⟨part, rest, rfl⟩ := List.exists_cons_of_ne_nil hparts
  obtain ⟨hne, hword⟩ := hwords part List.mem_cons_self
  obtain ⟨c, cs, hcs⟩ := List.exists_cons_of_ne_nil hne
  have hfront : ∃ cs', (join sep (part :: rest)).toList = c :: cs' := by
    rw [join, String.toList_intercalate, List.map_cons, hcs]
    cases rest <;> simp
  obtain ⟨cs', hjoin⟩ := hfront
  have hblank := hword c (hcs ▸ List.mem_cons_self)
  rw [isAllBlank, hjoin, List.all_cons, hblank, Bool.false_and]

/-! ## Words put together -/

theorem wordsGo_append {word : List Char} (hword : ∀ c ∈ word, isBlank c = false)
    (begun rest : List Char) :
    wordsGo begun (word ++ rest) = wordsGo (word.reverse ++ begun) rest := by
  induction word generalizing begun with
  | nil => rfl
  | cons c word ih =>
    rw [List.forall_mem_cons] at hword
    rw [List.cons_append, wordsGo, hword.1, if_neg Bool.false_ne_true, ih hword.2]
    simp

theorem wordsOf_word {word : List Char} (h : IsWord word) : wordsOf word = [word] := by
  have hall := wordsGo_append h.2 [] []
  rw [List.append_nil, List.append_nil] at hall
  rw [wordsOf, hall, wordsGo, if_neg (by simpa using h.1), List.reverse_reverse]

theorem wordsOf_cons_of_blank {c : Char} (hc : isBlank c = true) (cs : List Char) :
    wordsOf (c :: cs) = wordsOf cs := by
  rw [wordsOf, wordsGo, if_pos hc, List.isEmpty_nil, if_pos rfl]
  rfl

/-- A word ends before the first blank. -/
theorem wordsOf_append_of_blank {word rest : List Char} (h : IsWord word)
    (hrest : ∀ c ∈ rest.head?, isBlank c = true) : wordsOf (word ++ rest) = word :: wordsOf rest := by
  cases rest with
  | nil => rw [List.append_nil, wordsOf_word h]; rfl
  | cons c rest =>
    have hc := hrest c rfl
    rw [wordsOf_cons_of_blank hc, wordsOf, wordsGo_append h.2, List.append_nil, wordsGo, if_pos hc,
      if_neg (by simpa using h.1), List.reverse_reverse]
    rfl

theorem wordsOf_blanks_append {blanks : List Char} (h : ∀ c ∈ blanks, isBlank c = true)
    (cs : List Char) : wordsOf (blanks ++ cs) = wordsOf cs := by
  induction blanks with
  | nil => rfl
  | cons c blanks ih =>
    rw [List.forall_mem_cons] at h
    rw [List.cons_append, wordsOf_cons_of_blank h.1, ih h.2]

theorem wordsGo_append_blanks {blanks : List Char} (h : ∀ c ∈ blanks, isBlank c = true)
    (begun cs : List Char) : wordsGo begun (cs ++ blanks) = wordsGo begun cs := by
  induction cs generalizing begun with
  | nil =>
    cases blanks with
    | nil => rfl
    | cons c blanks =>
      rw [List.forall_mem_cons] at h
      have hnil := wordsOf_blanks_append h.2 []
      rw [List.append_nil] at hnil
      rw [List.nil_append]
      show (if isBlank c then _ else _) = _
      rw [if_pos h.1, ← wordsOf, hnil]
      rfl
  | cons c cs ih => rw [List.cons_append, wordsGo, wordsGo, ih, ih]

theorem wordsOf_append_blanks {blanks : List Char} (h : ∀ c ∈ blanks, isBlank c = true)
    (cs : List Char) : wordsOf (cs ++ blanks) = wordsOf cs :=
  wordsGo_append_blanks h [] cs

theorem wordsOf_trimBack (cs : List Char) : wordsOf (trimBack cs) = wordsOf cs := by
  rcases trimBack_cases cs with ⟨hall, hnil⟩ | ⟨front, c, blanks, -, hblanks, hcs, htrim⟩
  · have hblank := wordsOf_append_blanks hall []
    rw [hnil, ← hblank, List.nil_append]
  · rw [htrim, hcs, List.append_cons front c blanks, wordsOf_append_blanks hblanks]

/-- Trimming takes no word away. -/
theorem wordsOf_trimChars (cs : List Char) : wordsOf (trimChars cs) = wordsOf cs := by
  have hfront : wordsOf (trimFront cs) = wordsOf cs := by
    conv => rhs; rw [← List.takeWhile_append_dropWhile (p := isBlank) (l := cs)]
    exact (wordsOf_blanks_append (fun c hc => List.mem_takeWhile_imp hc) _).symm
  exact (wordsOf_trimBack _).trans hfront

/-- A blank ends a word, whatever stands before it. -/
theorem wordsOf_append_cons {c : Char} (hc : isBlank c = true) (cs rest : List Char) :
    wordsOf (cs ++ c :: rest) = wordsOf cs ++ wordsOf rest := by
  have hgo : ∀ begun, wordsGo begun (cs ++ c :: rest) = wordsGo begun cs ++ wordsOf rest := by
    induction cs with
    | nil =>
      intro begun
      rw [List.nil_append, wordsGo, wordsGo, if_pos hc]
      split <;> rfl
    | cons d cs ih =>
      intro begun
      rw [List.cons_append, wordsGo, wordsGo, ih, ih]
      split
      · split <;> rfl
      · rfl
  exact hgo []

/-- Texts with a blank between neighbours have their words one after the other. -/
theorem words_join_eq_flatMap (parts : List String) : words (join " " parts) = parts.flatMap words := by
  have hwords : wordsOf (join " " parts).toList = parts.flatMap fun part => wordsOf part.toList := by
    rw [join, String.toList_intercalate]
    induction parts with
    | nil => rfl
    | cons part rest ih =>
      cases rest with
      | nil => simp
      | cons next rest =>
        rw [List.map_cons, List.map_cons, List.intercalate_cons_cons, List.append_assoc,
          List.flatMap_cons]
        exact (wordsOf_append_cons (by decide) _ _).trans (congrArg _ ih)
  rw [words, hwords, List.map_flatMap]
  rfl

theorem words_word {w : String} (h : IsWord w.toList) : words w = [w] := by
  rw [words, wordsOf_word h, List.map_singleton, String.ofList_toList]

/-- Words with a blank between neighbours are cut apart again. -/
theorem words_join {parts : List String} (hparts : ∀ part ∈ parts, IsWord part.toList) :
    words (join " " parts) = parts := by
  rw [words_join_eq_flatMap, List.flatMap_congr fun part hpart => words_word (hparts part hpart)]
  exact List.flatMap_singleton' parts

/-! ## Words in lower case -/

theorem lowerExpansions_ne_nil : ∀ e ∈ lowerExpansions, e.2 ≠ [] := by decide

theorem lowerChar_ne_nil (c : Char) : lowerChar c ≠ [] := by
  unfold lowerChar mapWide
  split
  · simp
  · cases hlookup : lowerExpansions.lookup c.toNat with
    | none => simp
    | some image =>
      obtain ⟨before, after, htable, -⟩ := List.lookup_eq_some_iff.mp hlookup
      have hmem : (c.toNat, image) ∈ lowerExpansions := by simp [htable]
      simpa using lowerExpansions_ne_nil _ hmem

/-- Lower case takes no character away. -/
theorem lower_eq_empty {s : String} : lower s = "" ↔ s = "" := by
  rw [lower, lowerChars, ← String.toList_inj, ← String.toList_inj, String.toList_ofList]
  cases s.toList with
  | nil => simp [lowerGo]
  | cons c cs =>
    rw [lowerGo]
    split
    · simp
    · simp [lowerChar_ne_nil c]

end Hydroseries.Text
