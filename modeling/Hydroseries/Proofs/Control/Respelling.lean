import Hydroseries.Control.Block
import Hydroseries.Proofs.Text.Words

/-!
# Old spellings

Old spellings are replaced in the text of a line, before it is cut into words. What becomes of the
words is said here by the words alone: the first word is respelled, and the second one too where it is
the name of a block (`presentWords`).

The text of a line knows more than its words, though. The name of a block is respelled behind spaces
only, and the word before it is `START` or `END` with a long s as well (`words_of_line`).
-/

namespace Hydroseries.Control

open Text (IsWord isBlank)

variable {old new p w cs first gap rest : List Char} {c letter : Char}

/-! ## The words of a line as they are meant -/

/-- The present spelling in place of the old one at the front of a text, whatever its case. -/
def respell (old new : List Char) (w : List Char) : List Char :=
  if old.isPrefixOf (w.map Char.toLower) then new ++ w.drop old.length else w

/-- The name of a block in the present spelling. -/
def presentName (w : List Char) : List Char := respell "exceedence".toList "EXCEEDANCE".toList w

/-- The first word of a line in the present spelling. -/
def presentKeyword (w : List Char) : List Char :=
  respell "new_table_name".toList "NEW_G_TABLE_NAME".toList (presentName w)

/-- The words of a line in the present spelling, where the second one may be the name of a block. -/
def presentWords (named : Bool) : List (List Char) → List (List Char)
  | [] => []
  | first :: rest => presentKeyword first :: if named then rest.modifyHead presentName else rest

/-- The second word is the name of a block: the first one is `START` or `END`, in any case. -/
def namesBlock (words : List (List Char)) : Bool :=
  words.head?.any fun w => ["start".toList, "end".toList].contains (w.map Char.toLower)

/-- The second word has an old spelling. -/
def hasOldName (words : List (List Char)) : Bool :=
  words[1]?.any fun w => "exceedence".toList.isPrefixOf (w.map Char.toLower)

/-! ## The words of a line as they are found -/

/-- A letter without its case; the long s is an s. -/
def caseless (c : Char) : Char := if c = 'ſ' then 's' else c.toLower

/-- `START` or `END` in any case, also with a long s. -/
def isMark (w : List Char) : Bool := ["start".toList, "end".toList].contains (w.map caseless)

/-- What stands between the first two words of a text that begins with a word. -/
def firstGap (cs : List Char) : List Char := (cs.dropWhile fun c => !isBlank c).takeWhile isBlank

/-- The second word of a text is respelled: the first one is `START` or `END`, and there are only
spaces in between. -/
def respellsName (cs : List Char) : Bool :=
  (Text.wordsOf cs).head?.any isMark && (firstGap cs).all (· == ' ')

/-! ## Letters -/

theorem toLower_of_isBlank (h : isBlank c = true) : c.toLower = c := by
  have hno : ¬ (c.val ≥ 'A'.val ∧ c.val ≤ 'Z'.val) := by
    rintro ⟨hlow, hhigh⟩
    have hlow : 65 ≤ c.toNat := hlow
    have hhigh : c.toNat ≤ 90 := hhigh
    simp [isBlank, Text.inRanges, Text.blankRanges] at h
    omega
  exact dif_neg hno

theorem caseless_of_isBlank (h : isBlank c = true) : caseless c = c := by
  have hlong : c ≠ 'ſ' := by
    rintro rfl
    exact absurd h (by decide)
  rw [caseless, if_neg hlong, toLower_of_isBlank h]

theorem toLower_long : 'ſ'.toLower = 'ſ' := by decide

theorem ne_space_of_not_blank (h : isBlank c = false) : c ≠ ' ' := by
  rintro rfl
  exact absurd h (by decide)

theorem foldsTo_eq (h : letter ≠ 'ſ') : foldsTo letter c = (caseless c == letter) := by
  unfold foldsTo caseless
  by_cases hc : c = 'ſ'
  · have hne : ('ſ' == letter) = false := beq_eq_false_iff_ne.mpr (Ne.symm h)
    simp [hc, toLower_long, hne, Bool.beq_comm (a := letter)]
  · simp [hc]

/-! ## Fronts of texts -/

/-- What is left behind a front in whatever case. -/
theorem dropFolded?_eq (hp : 'ſ' ∉ p) (w : List Char) :
    dropFolded? p w = if p.isPrefixOf (w.map caseless) then some (w.drop p.length) else none := by
  induction p generalizing w with
  | nil => rfl
  | cons letter p ih =>
    rw [List.mem_cons, not_or] at hp
    cases w with
    | nil => rfl
    | cons c w =>
      rw [dropFolded?, foldsTo_eq (Ne.symm hp.1), ih hp.2, List.map_cons, List.isPrefixOf_cons_cons]
      by_cases hc : caseless c = letter
      · simp [hc]
      · have hne : (letter == caseless c) = false := beq_eq_false_iff_ne.mpr (Ne.symm hc)
        simp [hc, hne]

/-- The long s does not matter to a front without an s. -/
theorem isPrefixOf_caseless (hs : 's' ∉ p) (hp : 'ſ' ∉ p) (w : List Char) :
    p.isPrefixOf (w.map caseless) = p.isPrefixOf (w.map Char.toLower) := by
  induction p generalizing w with
  | nil => rfl
  | cons letter p ih =>
    rw [List.mem_cons, not_or] at hs hp
    cases w with
    | nil => rfl
    | cons c w =>
      have hletter : (letter == caseless c) = (letter == c.toLower) := by
        unfold caseless
        split
        next hc =>
          rw [hc, toLower_long, beq_eq_false_iff_ne.mpr (Ne.symm hs.1),
            beq_eq_false_iff_ne.mpr (Ne.symm hp.1)]
        · rfl
      rw [List.map_cons, List.map_cons, List.isPrefixOf_cons_cons, List.isPrefixOf_cons_cons,
        ih hs.2 hp.2, hletter]

/-- A front without blanks ends with the first word. -/
theorem isPrefixOf_append {fold : Char → Char} (hfold : ∀ c, isBlank c = true → fold c = c)
    (hp : ∀ c ∈ p, isBlank c = false) (hrest : ∀ c ∈ rest.head?, isBlank c = true)
    (w : List Char) : p.isPrefixOf ((w ++ rest).map fold) = p.isPrefixOf (w.map fold) := by
  induction p generalizing w with
  | nil => rfl
  | cons letter p ih =>
    rw [List.forall_mem_cons] at hp
    cases w with
    | cons c w =>
      rw [List.cons_append, List.map_cons, List.map_cons, List.isPrefixOf_cons_cons,
        List.isPrefixOf_cons_cons, ih hp.2]
    | nil =>
      cases rest with
      | nil => rfl
      | cons c rest =>
        have hc := hrest c rfl
        have hne : letter ≠ fold c := by
          rintro rfl
          rw [hfold c hc, hc] at hp
          cases hp.1
        rw [List.nil_append, List.map_cons, List.isPrefixOf_cons_cons, beq_eq_false_iff_ne.mpr hne]
        rfl

theorem respell_of_old (h : old.isPrefixOf (w.map Char.toLower) = true) :
    respell old new w = new ++ w.drop old.length := by
  rw [respell, if_pos h]

theorem respell_of_not_old (h : old.isPrefixOf (w.map Char.toLower) = false) :
    respell old new w = w := by
  rw [respell, h]
  rfl

theorem presentName_of_old (h : "exceedence".toList.isPrefixOf (w.map Char.toLower) = true) :
    presentName w = "EXCEEDANCE".toList ++ w.drop 10 :=
  respell_of_old h

theorem presentName_of_not_old (h : "exceedence".toList.isPrefixOf (w.map Char.toLower) = false) :
    presentName w = w :=
  respell_of_not_old h

theorem presentKeyword_of_not_old
    (hname : "exceedence".toList.isPrefixOf (w.map Char.toLower) = false)
    (hkeyword : "new_table_name".toList.isPrefixOf (w.map Char.toLower) = false) :
    presentKeyword w = w := by
  rw [presentKeyword, presentName_of_not_old hname, respell_of_not_old hkeyword]

/-- Only the first word of a text is respelled. -/
theorem respell_append (hold : IsWord old) (hrest : ∀ c ∈ rest.head?, isBlank c = true)
    (w : List Char) : respell old new (w ++ rest) = respell old new w ++ rest := by
  unfold respell
  rw [isPrefixOf_append (fun _ => toLower_of_isBlank) hold.2 hrest]
  split
  next h =>
    have hlength := (List.isPrefixOf_iff_prefix.mp h).length_le
    rw [List.length_map] at hlength
    rw [List.drop_append_of_le_length hlength, List.append_assoc]
  · rfl

theorem isWord_respell (hnew : IsWord new) (hw : IsWord w) : IsWord (respell old new w) := by
  unfold respell
  split
  · refine ⟨by simp [hnew.1], fun c hc => ?_⟩
    rcases List.mem_append.mp hc with hc | hc
    · exact hnew.2 c hc
    · exact hw.2 c (List.mem_of_mem_drop hc)
  · exact hw

theorem isPrefixOf_append_mismatch {p q : List Char} (hpq : ¬ p <+: q) (hqp : ¬ q <+: p)
    (t : List Char) : p.isPrefixOf (q ++ t) = false := by
  refine Bool.eq_false_iff.mpr fun h => ?_
  rcases List.prefix_or_prefix_of_prefix (List.isPrefixOf_iff_prefix.mp h) (List.prefix_append q t)
    with h | h
  · exact hpq h
  · exact hqp h

/-! ## Texts cut behind their first word -/

/-- A text that begins with a word, cut before and behind the blanks that follow it. -/
structure Cut (cs first gap rest : List Char) : Prop where
  eq : cs = first ++ (gap ++ rest)
  isWord : IsWord first
  blanks : ∀ c ∈ gap, isBlank c = true
  stop : ∀ c ∈ rest.head?, isBlank c = false
  apart : rest ≠ [] → gap ≠ []

theorem exists_cut (hne : cs ≠ []) (hcs : ∀ c ∈ cs.head?, isBlank c = false) :
    ∃ first gap rest, Cut cs first gap rest := by
  have hstop : ∀ (q : Char → Bool) (xs : List Char), ∀ c ∈ (xs.dropWhile q).head?, q c = false := by
    intro q xs c hc
    have hnot := List.head?_dropWhile_not q xs
    rw [Option.mem_def.mp hc] at hnot
    simpa using hnot
  refine ⟨cs.takeWhile fun c => !isBlank c, (cs.dropWhile fun c => !isBlank c).takeWhile isBlank,
    (cs.dropWhile fun c => !isBlank c).dropWhile isBlank, ?_, ⟨?_, fun c hc => ?_⟩, fun c hc => ?_,
    hstop isBlank _, fun hrest hgap => ?_⟩
  · rw [List.takeWhile_append_dropWhile, List.takeWhile_append_dropWhile]
  · obtain ⟨c, cs, rfl⟩ := List.exists_cons_of_ne_nil hne
    rw [List.takeWhile_cons_of_pos (by simpa using hcs c rfl)]
    exact List.cons_ne_nil _ _
  · simpa using List.mem_takeWhile_imp hc
  · exact List.mem_takeWhile_imp hc
  · cases hbehind : cs.dropWhile fun c => !isBlank c with
    | nil =>
      rw [hbehind] at hrest
      exact hrest rfl
    | cons c behind =>
      have hc := hstop (fun c => !isBlank c) cs c (by rw [hbehind]; rfl)
      rw [hbehind, List.takeWhile_cons_of_pos (by simpa using hc)] at hgap
      cases hgap

namespace Cut

variable (h : Cut cs first gap rest)
include h

theorem rest_eq_nil (hgap : gap = []) : rest = [] := by
  by_contra hne
  exact h.apart hne hgap

theorem behind : ∀ c ∈ (gap ++ rest).head?, isBlank c = true := by
  cases gap with
  | cons c gap =>
    rintro _ ⟨⟩
    exact h.blanks c List.mem_cons_self
  | nil =>
    rw [h.rest_eq_nil rfl]
    exact nofun

theorem wordsOf : Text.wordsOf cs = first :: Text.wordsOf rest := by
  rw [h.eq, Text.wordsOf_append_of_blank h.isWord h.behind, Text.wordsOf_blanks_append h.blanks]

theorem firstGap : firstGap cs = gap := by
  have hdrop : (cs.dropWhile fun c => !isBlank c) = gap ++ rest := by
    rw [h.eq, List.dropWhile_append_of_pos fun c hc => by simpa using h.isWord.2 c hc]
    have hbehind := h.behind
    cases hcs : gap ++ rest with
    | nil => rfl
    | cons c behind =>
      rw [hcs] at hbehind
      exact List.dropWhile_cons_of_neg (by simpa using hbehind c rfl)
  rw [Control.firstGap, hdrop, List.takeWhile_append_of_pos h.blanks]
  have hstop := h.stop
  cases rest with
  | nil => simp
  | cons c rest =>
    rw [List.takeWhile_cons_of_neg (by simpa using hstop c rfl), List.append_nil]

theorem respell (hold : IsWord old) :
    respell old new cs = Control.respell old new first ++ (gap ++ rest) := by
  rw [h.eq, respell_append hold h.behind]

/-- What follows a word and at least one space is what stands behind the first space, if the word is
the first one. -/
theorem afterWord? (hlong : 'ſ' ∉ p) (hp : IsWord p) :
    afterWord? p cs = if first.map caseless = p ∧ gap.head? = some ' ' then
      some (dropSpaces (gap.tail ++ rest)) else none := by
  unfold Control.afterWord?
  rw [dropFolded?_eq hlong, h.eq, isPrefixOf_append (fun _ => caseless_of_isBlank) hp.2 h.behind]
  by_cases hfront : p.isPrefixOf (first.map caseless) = true
  · rw [if_pos hfront]
    have hfront := List.isPrefixOf_iff_prefix.mp hfront
    have hlength : p.length ≤ first.length := by simpa using hfront.length_le
    rw [List.drop_append_of_le_length hlength]
    cases hdrop : first.drop p.length with
    | nil =>
      have hle : first.length ≤ p.length := List.drop_eq_nil_iff.mp hdrop
      have heq : first.map caseless = p :=
        (hfront.eq_of_length (by rw [List.length_map]; omega)).symm
      cases gap with
      | nil => simp [h.rest_eq_nil rfl]
      | cons c gap =>
        by_cases hc : c = ' '
        · simp [heq, hc]
        · simp [hc]
    | cons c more =>
      have hmem : c ∈ first := List.mem_of_mem_drop (hdrop ▸ List.mem_cons_self)
      have hne : first.map caseless ≠ p := by
        intro heq
        have hnil : first.drop p.length = [] := List.drop_eq_nil_iff.mpr (by simp [← heq])
        rw [hnil] at hdrop
        cases hdrop
      simp [hne, ne_space_of_not_blank (h.isWord.2 c hmem)]
  · rw [if_neg hfront]
    have hne : first.map caseless ≠ p := by
      rintro rfl
      exact hfront (by simp)
    simp [hne]

end Cut

theorem dropSpaces_eq_self (hcs : ∀ c ∈ cs.head?, isBlank c = false) : dropSpaces cs = cs := by
  cases cs with
  | nil => rfl
  | cons c cs =>
    exact List.dropWhile_cons_of_neg (by simpa using ne_space_of_not_blank (hcs c rfl))

theorem dropSpaces_append (hgap : gap.all (· == ' ') = true)
    (hrest : ∀ c ∈ rest.head?, isBlank c = false) : dropSpaces (gap ++ rest) = rest := by
  rw [dropSpaces, List.dropWhile_append_of_pos (List.all_eq_true.mp hgap)]
  exact dropSpaces_eq_self hrest

/-- No word is found behind a blank that is no space. -/
theorem dropFolded?_dropSpaces (hlong : 'ſ' ∉ p) (hp : IsWord p)
    (hblanks : ∀ c ∈ gap, isBlank c = true) (hgap : ¬ gap.all (· == ' ') = true) :
    dropFolded? p (dropSpaces (gap ++ rest)) = none := by
  induction gap with
  | nil => exact absurd rfl hgap
  | cons c gap ih =>
    rw [List.forall_mem_cons] at hblanks
    by_cases hc : c = ' '
    · have hdrop : dropSpaces (c :: gap ++ rest) = dropSpaces (gap ++ rest) :=
        List.dropWhile_cons_of_pos (by simpa using hc)
      rw [hdrop]
      exact ih hblanks.2 (by simpa [hc] using hgap)
    · have hdrop : dropSpaces (c :: gap ++ rest) = c :: (gap ++ rest) :=
        List.dropWhile_cons_of_neg (by simpa using hc)
      obtain ⟨letter, p, rfl⟩ := List.exists_cons_of_ne_nil hp.1
      have hletter : letter ≠ caseless c := by
        rintro rfl
        have hblank := hp.2 _ List.mem_cons_self
        rw [caseless_of_isBlank hblanks.1, hblanks.1] at hblank
        cases hblank
      rw [hdrop, dropFolded?_eq hlong, List.map_cons, List.isPrefixOf_cons_cons,
        beq_eq_false_iff_ne.mpr hletter]
      rfl

/-! ## The two replacements -/

theorem findSome?_triple {α β : Type} (f : α → Option β) (x y z : α) :
    [x, y, z].findSome? f = ((f x).or (f y)).or (f z) := by
  simp only [List.findSome?_cons, List.findSome?_nil]
  cases f x <;> cases f y <;> cases f z <;> rfl

/-- The old spelling is looked for as it is replaced. -/
theorem respell_eq (hs : 's' ∉ old) (hlong : 'ſ' ∉ old) (w : List Char) :
    respell old new w = ((dropFolded? old w).map (new ++ ·)).getD w := by
  rw [respell, dropFolded?_eq hlong, isPrefixOf_caseless hs hlong]
  split <;> rfl

theorem presentName_eq (w : List Char) : presentName w =
    ((dropFolded? "exceedence".toList w).map ("EXCEEDANCE".toList ++ ·)).getD w :=
  respell_eq (by decide) (by decide) w

theorem dropSpaces_of_isWord (hw : IsWord w) (rest : List Char) :
    dropSpaces (w ++ rest) = w ++ rest := by
  obtain ⟨c, w, rfl⟩ := List.exists_cons_of_ne_nil hw.1
  refine dropSpaces_eq_self fun d hd => ?_
  obtain rfl := Option.some.inj hd
  exact hw.2 c List.mem_cons_self

/-- What is found behind the first word: a second word, behind nothing but spaces. -/
theorem Cut.foundBehind {q : List Char} (h : Cut cs first gap rest) (hlong : 'ſ' ∉ p)
    (hp : IsWord p) (hlong' : 'ſ' ∉ q) (hq : IsWord q) :
    ((Control.afterWord? p cs).bind fun start =>
      (dropFolded? q start).map fun tail => (start, tail)) =
        if first.map caseless = p ∧ gap.all (· == ' ') = true then
          (dropFolded? q rest).map fun tail => (rest, tail)
        else none := by
  rw [h.afterWord? hlong hp]
  by_cases hfirst : first.map caseless = p
  · cases gap with
    | nil =>
      have hnone : dropFolded? q [] = none := by
        obtain ⟨letter, q, rfl⟩ := List.exists_cons_of_ne_nil hq.1
        rfl
      simp [h.rest_eq_nil rfl, hnone]
    | cons c gap =>
      have hblanks := List.forall_mem_cons.mp h.blanks
      by_cases hc : c = ' '
      · have hall : (c :: gap).all (· == ' ') = gap.all (· == ' ') := by simp [hc]
        rw [if_pos ⟨hfirst, by rw [hc]; rfl⟩, Option.bind_some, List.tail_cons, hall]
        by_cases hgap : gap.all (· == ' ') = true
        · rw [if_pos ⟨hfirst, hgap⟩, dropSpaces_append hgap h.stop]
        · rw [if_neg fun hand => hgap hand.2, dropFolded?_dropSpaces hlong' hq hblanks.2 hgap]
          rfl
      · simp [hc]
  · simp [hfirst]

theorem isMark_iff : isMark w = true ↔
    w.map caseless = "start".toList ∨ w.map caseless = "end".toList := by
  simp only [isMark, List.contains_cons, List.contains_nil, Bool.or_false, Bool.or_eq_true,
    beq_iff_eq]

/-- No old spelling is at the front of `START` or `END`. -/
theorem isPrefixOf_of_isMark (hw : isMark w = true) :
    "exceedence".toList.isPrefixOf (w.map Char.toLower) = false ∧
    "new_table_name".toList.isPrefixOf (w.map Char.toLower) = false := by
  rw [← isPrefixOf_caseless (by decide) (by decide), ← isPrefixOf_caseless (by decide) (by decide)]
  rcases isMark_iff.mp hw with hw | hw <;> rw [hw] <;> decide

theorem presentName_of_isMark (hw : isMark w = true) : presentName w = w :=
  presentName_of_not_old (isPrefixOf_of_isMark hw).1

/-- The places behind `START` and behind `END` are one place. -/
theorem found_or {α : Type} (found : Option α) (named : Bool) :
    ((if w.map caseless = "start".toList ∧ named = true then found else none).or
      (if w.map caseless = "end".toList ∧ named = true then found else none)) =
      if isMark w && named then found else none := by
  have hne : "start".toList ≠ "end".toList := by decide
  cases named with
  | false =>
    simp only [Bool.and_false, Bool.false_eq_true, and_false, if_false, Option.or_none]
  | true =>
    cases hmark : isMark w with
    | false =>
      obtain ⟨hstart, hend⟩ := not_or.mp (isMark_iff.not.mp (Bool.eq_false_iff.mp hmark))
      rw [if_neg fun h => hstart h.1, if_neg fun h => hend h.1]
      rfl
    | true =>
      rcases isMark_iff.mp hmark with hw | hw
      · rw [if_pos ⟨hw, rfl⟩, if_neg fun h => hne (hw.symm.trans h.1), Option.or_none]
        rfl
      · rw [if_neg fun h => hne (h.1.symm.trans hw), if_pos ⟨hw, rfl⟩]
        rfl

/-- The old name is found behind `START` or `END`, and otherwise at the front. -/
theorem Cut.foundName (h : Cut cs first gap rest) :
    ([Control.afterWord? "start".toList cs, Control.afterWord? "end".toList cs,
      some (dropSpaces cs)].findSome? fun start => start.bind fun rest =>
        (dropFolded? "exceedence".toList rest).map fun tail => (rest, tail)) =
      (if isMark first && gap.all (· == ' ') then
        (dropFolded? "exceedence".toList rest).map fun tail => (rest, tail)
      else none).or ((dropFolded? "exceedence".toList cs).map fun tail => (cs, tail)) := by
  have hlong : 'ſ' ∉ "exceedence".toList := by decide
  have hname : IsWord "exceedence".toList := by decide
  have hstart := h.foundBehind (p := "start".toList) (by decide) (by decide) hlong hname
  have hend := h.foundBehind (p := "end".toList) (by decide) (by decide) hlong hname
  have hdrop : dropSpaces cs = cs := by rw [h.eq, dropSpaces_of_isWord h.isWord]
  rw [findSome?_triple, hstart, hend, found_or, hdrop, Option.bind_some]

/-- A name found at the front is replaced there. -/
theorem respelled_front (cs : List Char) :
    (match (dropFolded? "exceedence".toList cs).map fun tail => (cs, tail) with
      | some (rest, tail) => cs.take (cs.length - rest.length) ++ "EXCEEDANCE".toList ++ tail
      | none => cs) = presentName cs := by
  rw [presentName_eq]
  cases dropFolded? "exceedence".toList cs with
  | none => rfl
  | some tail =>
    simp only [Option.map_some, Option.getD_some, Nat.sub_self, List.take_zero, List.nil_append]

/-- What follows the first word and a gap, in the present spelling. -/
def presentRest (first gap rest : List Char) : List Char :=
  if isMark first && gap.all (· == ' ') then presentName rest else rest

/-- The name of a block is replaced where it is the second word, and where it is the first one. -/
theorem Cut.respellExceedance (h : Cut cs first gap rest) :
    respellExceedance cs = presentName first ++ (gap ++ presentRest first gap rest) := by
  have hfront : presentName cs = presentName first ++ (gap ++ rest) := h.respell (by decide)
  simp only [Control.respellExceedance, presentRest, h.foundName]
  cases hnamed : isMark first && gap.all (· == ' ') with
  | false =>
    rw [if_neg Bool.false_ne_true, if_neg Bool.false_ne_true, Option.none_or, ← hfront]
    exact respelled_front cs
  | true =>
    rw [if_pos rfl, if_pos rfl, presentName_eq rest]
    cases dropFolded? "exceedence".toList rest with
    | none =>
      rw [Option.map_none, Option.none_or, Option.map_none, Option.getD_none, ← hfront]
      exact respelled_front cs
    | some tail =>
      have hmark : isMark first = true := (Bool.and_eq_true_iff.mp hnamed).1
      have htake : cs.take (cs.length - rest.length) = first ++ gap := by
        rw [h.eq, ← List.append_assoc, List.length_append, Nat.add_sub_cancel, List.take_left]
      simp only [Option.map_some, Option.some_or, Option.getD_some, htake,
        presentName_of_isMark hmark, List.append_assoc]

theorem respellTableName_of_isWord (hw : IsWord w)
    (hrest : ∀ c ∈ rest.head?, isBlank c = true) : respellTableName (w ++ rest) =
      respell "new_table_name".toList "NEW_G_TABLE_NAME".toList w ++ rest := by
  rw [← respell_append (by decide) hrest, respell_eq (by decide) (by decide), respellTableName,
    dropSpaces_of_isWord hw]
  cases dropFolded? "new_table_name".toList (w ++ rest) <;> rfl

/-! ## Words of a line -/

theorem presentName_stop (hrest : ∀ c ∈ rest.head?, isBlank c = false) :
    ∀ c ∈ (presentName rest).head?, isBlank c = false := by
  unfold presentName respell
  split
  · rintro c hc
    obtain rfl := Option.some.inj hc
    decide
  · exact hrest

/-- Replacements do not move the ends of the words. -/
theorem Cut.replace {first' rest' : List Char} (h : Cut cs first gap rest) (hfirst : IsWord first')
    (hrest : rest' = rest ∨ rest' = presentName rest) :
    Cut (first' ++ (gap ++ rest')) first' gap rest' := by
  refine ⟨rfl, hfirst, h.blanks, ?_, fun hne hgap => hne ?_⟩
  · rcases hrest with rfl | rfl
    · exact h.stop
    · exact presentName_stop h.stop
  · rw [h.rest_eq_nil hgap] at hrest
    rcases hrest with rfl | rfl
    · rfl
    · rfl

theorem isWord_presentName (hw : IsWord w) : IsWord (presentName w) :=
  isWord_respell (by decide) hw

theorem isWord_presentKeyword (hw : IsWord w) : IsWord (presentKeyword w) :=
  isWord_respell (by decide) (isWord_presentName hw)

theorem presentRest_cases (first gap rest : List Char) :
    presentRest first gap rest = rest ∨ presentRest first gap rest = presentName rest := by
  unfold presentRest
  split
  · exact .inr rfl
  · exact .inl rfl

theorem Cut.normalize (h : Cut cs first gap rest) :
    normalize cs = presentKeyword first ++ (gap ++ presentRest first gap rest) := by
  have hcut := h.replace (isWord_presentName h.isWord) (presentRest_cases first gap rest)
  rw [Control.normalize, h.respellExceedance,
    respellTableName_of_isWord (isWord_presentName h.isWord) hcut.behind]
  rfl

theorem wordsOf_presentName (hcs : ∀ c ∈ cs.head?, isBlank c = false) :
    Text.wordsOf (presentName cs) = (Text.wordsOf cs).modifyHead presentName := by
  by_cases hne : cs = []
  · rw [hne]
    rfl
  · obtain ⟨first, gap, rest, h⟩ := exists_cut hne hcs
    have hfront : presentName cs = presentName first ++ (gap ++ rest) := h.respell (by decide)
    rw [hfront, (h.replace (isWord_presentName h.isWord) (.inl rfl)).wordsOf, h.wordsOf]
    rfl

/-- The words of a text are respelled as the gap behind the first one says. -/
theorem wordsOf_normalize (hne : cs ≠ []) (hcs : ∀ c ∈ cs.head?, isBlank c = false) :
    Text.wordsOf (normalize cs) = presentWords (respellsName cs) (Text.wordsOf cs) := by
  obtain ⟨first, gap, rest, h⟩ := exists_cut hne hcs
  have hcut := h.replace (isWord_presentKeyword h.isWord) (presentRest_cases first gap rest)
  have hnamed : respellsName cs = (isMark first && gap.all (· == ' ')) := by
    rw [respellsName, h.wordsOf, h.firstGap]
    rfl
  rw [h.normalize, hcut.wordsOf, h.wordsOf, hnamed, presentWords, presentRest]
  split
  · rw [wordsOf_presentName h.stop]
  · rfl

/-! ## Present spellings are kept -/

/-- A text with a present spelling at its front has no old one there. -/
theorem not_old_of_present {q : List Char} (hq : q ∈ ["EXCEEDANCE".toList, "NEW_G_TABLE_NAME".toList])
    (t : List Char) : "exceedence".toList.isPrefixOf ((q ++ t).map Char.toLower) = false ∧
      "new_table_name".toList.isPrefixOf ((q ++ t).map Char.toLower) = false ∧
      isMark (q ++ t) = false := by
  have hapart : ∀ q ∈ ["EXCEEDANCE".toList, "NEW_G_TABLE_NAME".toList],
      ∀ p ∈ ["exceedence".toList, "new_table_name".toList],
        ¬ p <+: q.map Char.toLower ∧ ¬ q.map Char.toLower <+: p := by
    decide
  have hlong : ∀ q ∈ ["EXCEEDANCE".toList, "NEW_G_TABLE_NAME".toList], 5 < q.length := by decide
  have hmismatch : ∀ p ∈ ["exceedence".toList, "new_table_name".toList],
      p.isPrefixOf ((q ++ t).map Char.toLower) = false := by
    intro p hp
    rw [List.map_append]
    exact isPrefixOf_append_mismatch (hapart q hq p hp).1 (hapart q hq p hp).2 _
  refine ⟨hmismatch _ (by simp), hmismatch _ (by simp), Bool.eq_false_iff.mpr fun hmark => ?_⟩
  have hlength := hlong q hq
  have hshort : ((q ++ t).map caseless).length ≤ 5 := by
    rcases isMark_iff.mp hmark with h | h <;> rw [h] <;> decide
  rw [List.length_map, List.length_append] at hshort
  omega

theorem presentName_presentName (w : List Char) : presentName (presentName w) = presentName w := by
  cases hold : "exceedence".toList.isPrefixOf (w.map Char.toLower) with
  | false => rw [presentName_of_not_old hold, presentName_of_not_old hold]
  | true =>
    rw [presentName_of_old hold]
    exact presentName_of_not_old (not_old_of_present (by simp) _).1

/-- A word that is respelled has a present spelling at its front and is no `START` or `END`. -/
theorem presentKeyword_cases (w : List Char) : presentKeyword w = w ∨ isMark w = false ∧
    ∃ q ∈ ["EXCEEDANCE".toList, "NEW_G_TABLE_NAME".toList], ∃ t, presentKeyword w = q ++ t := by
  cases hname : "exceedence".toList.isPrefixOf (w.map Char.toLower) with
  | true =>
    have hmark : isMark w = false := Bool.eq_false_iff.mpr fun hmark => by
      rw [(isPrefixOf_of_isMark hmark).1] at hname
      cases hname
    refine .inr ⟨hmark, "EXCEEDANCE".toList, by simp, w.drop 10, ?_⟩
    rw [presentKeyword, presentName_of_old hname]
    exact respell_of_not_old (not_old_of_present (by simp) _).2.1
  | false =>
    cases hkeyword : "new_table_name".toList.isPrefixOf (w.map Char.toLower) with
    | false => exact .inl (presentKeyword_of_not_old hname hkeyword)
    | true =>
      have hmark : isMark w = false := Bool.eq_false_iff.mpr fun hmark => by
        rw [(isPrefixOf_of_isMark hmark).2] at hkeyword
        cases hkeyword
      refine .inr ⟨hmark, "NEW_G_TABLE_NAME".toList, by simp, w.drop 14, ?_⟩
      rw [presentKeyword, presentName_of_not_old hname]
      exact respell_of_old hkeyword

theorem presentKeyword_presentKeyword (w : List Char) :
    presentKeyword (presentKeyword w) = presentKeyword w ∧
      isMark (presentKeyword w) = isMark w := by
  rcases presentKeyword_cases w with h | ⟨hmark, q, hq, t, h⟩
  · rw [h]
    exact ⟨h, rfl⟩
  · obtain ⟨hname, hkeyword, hmark'⟩ := not_old_of_present hq t
    rw [h, hmark, hmark']
    exact ⟨presentKeyword_of_not_old hname hkeyword, rfl⟩

theorem normalize_normalize (hne : cs ≠ []) (hcs : ∀ c ∈ cs.head?, isBlank c = false) :
    normalize (normalize cs) = normalize cs := by
  obtain ⟨first, gap, rest, h⟩ := exists_cut hne hcs
  have hcut := h.replace (isWord_presentKeyword h.isWord) (presentRest_cases first gap rest)
  obtain ⟨hkeyword, hmark⟩ := presentKeyword_presentKeyword first
  have hrest : presentRest (presentKeyword first) gap (presentRest first gap rest) =
      presentRest first gap rest := by
    unfold presentRest
    rw [hmark]
    split
    · exact presentName_presentName rest
    · rfl
  rw [h.normalize, hcut.normalize, hkeyword, hrest]

/-! ## Lines -/

theorem presentName_eq_self_iff : presentName w = w ↔
    "exceedence".toList.isPrefixOf (w.map Char.toLower) = false := by
  refine ⟨fun h => ?_, presentName_of_not_old⟩
  cases hold : "exceedence".toList.isPrefixOf (w.map Char.toLower) with
  | false => rfl
  | true =>
    have hpresent := h.symm.trans (presentName_of_old hold)
    have hnot := (not_old_of_present List.mem_cons_self (w.drop 10)).1
    rw [← hpresent, hold] at hnot
    cases hnot

/-- It matters for an old spelling only whether the second word is the name of a block. -/
theorem presentWords_eq_iff (named named' : Bool) (words : List (List Char)) :
    presentWords named words = presentWords named' words ↔
      (hasOldName words = true → named = named') := by
  match words with
  | [] => simp [presentWords, hasOldName]
  | [first] => simp [presentWords, hasOldName]
  | first :: second :: rest =>
    have hold : hasOldName (first :: second :: rest) = true ↔ presentName second ≠ second := by
      rw [ne_eq, presentName_eq_self_iff, Bool.not_eq_false]
      rfl
    rw [hold]
    cases named <;> cases named' <;> simp [presentWords, eq_comm]

/-- The line of some words: the first one is its keyword, in lower case. -/
def Line.ofWords? : List (List Char) → Option Line
  | [] => none
  | keyword :: values => some ⟨Text.lower (String.ofList keyword), values.map String.ofList⟩

theorem ofChars?_eq {raw code : List Char} (h : codeOf? raw = some code) :
    Line.ofChars? raw = Line.ofWords? (Text.wordsOf (normalize code)) := by
  rw [Line.ofChars?, h, Option.bind_some]
  rfl

/-- A line has code if there is a word before its comment. Its words are respelled as the words before
the comment are meant to be, unless the second one has an old spelling and either is the name of a
block behind some blank that is no space, or stands behind `START` with a long s. To respell once more
changes nothing. -/
theorem words_of_line (raw : List Char) :
    let words := Text.wordsOf (raw.takeWhile (· != '#'))
    (codeOf? raw = none ↔ words = []) ∧
    ∀ code, codeOf? raw = some code →
      Line.ofChars? raw = Line.ofWords? (Text.wordsOf (normalize code)) ∧
      Text.wordsOf (normalize code) = presentWords (respellsName code) words ∧
      (Text.wordsOf (normalize code) = presentWords (namesBlock words) words ↔
        (hasOldName words = true → respellsName code = namesBlock words)) ∧
      normalize (normalize code) = normalize code := by
  intro words
  have hwords : Text.wordsOf (Text.trimChars (raw.takeWhile (· != '#'))) = words :=
    Text.wordsOf_trimChars _
  have hhead := Text.trimChars_head (raw.takeWhile (· != '#'))
  by_cases hne : Text.trimChars (raw.takeWhile (· != '#')) = []
  · have hcode : codeOf? raw = none := by
      rw [codeOf?, hne]
      rfl
    rw [hne] at hwords
    exact ⟨iff_of_true hcode hwords.symm, fun code h => nomatch hcode.symm.trans h⟩
  · have hcode : codeOf? raw = some (Text.trimChars (raw.takeWhile (· != '#'))) := by
      rw [codeOf?]
      exact if_neg (by simpa using hne)
    obtain ⟨first, gap, rest, hcut⟩ := exists_cut hne hhead
    refine ⟨iff_of_false (by simp [hcode]) (by simp [← hwords, hcut.wordsOf]), fun code h => ?_⟩
    obtain rfl := Option.some.inj (hcode.symm.trans h)
    have hfound := wordsOf_normalize hne hhead
    rw [hwords] at hfound
    refine ⟨ofChars?_eq h, hfound, ?_, normalize_normalize hne hhead⟩
    rw [hfound]
    exact presentWords_eq_iff _ _ words

/-- A block whose name stands behind a tab where it begins, and behind a space where it ends. -/
def tabbedText : String := "START\tEXCEEDENCE_TIME\n CONTEXT all\nEND EXCEEDENCE_TIME\n"

/-- The name behind the tab keeps its old spelling, so that it is not the one in the line that is to
close the block. -/
theorem tabbed_name_not_respelled :
    let tabbed := "START\tEXCEEDENCE_TIME".toList
    let spaced := "START EXCEEDENCE_TIME".toList
    Text.wordsOf tabbed = Text.wordsOf spaced ∧
    (codeOf? spaced).map (fun code => Text.wordsOf (normalize code)) =
      some (presentWords (namesBlock (Text.wordsOf spaced)) (Text.wordsOf spaced)) ∧
    (codeOf? tabbed).map (fun code => Text.wordsOf (normalize code)) ≠
      some (presentWords (namesBlock (Text.wordsOf tabbed)) (Text.wordsOf tabbed)) ∧
    blocksOf tabbedText =
      .error (.malformed 3 (.endMismatch "EXCEEDANCE_TIME" "EXCEEDENCE_TIME")) := by
  decide +kernel

end Hydroseries.Control
