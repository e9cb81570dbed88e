import Hydroseries.Control.Block
import Hydroseries.Proofs.Text.Words
import Mathlib.Data.List.Induction

/-!
# The grammar of blocks

Which texts are control files, and what blocks they have, is said by `Blocks` on the lines with code,
without reference to the reader and its states. A text that is no control file is refused
(`Refused`): either some line cannot stand where it stands, or the text ends in an open block. The
reader gives the blocks of the grammar and the fault of the first line that cannot be continued to a
control file (`blocksOf_eq_grammar`).
-/

namespace Hydroseries.Control

/-! ## Lines with code -/

/-- A line with code: its number in the file, counted from one, its first word, and the others. -/
structure CodeLine where
  number : Nat
  word : String
  values : List String

namespace CodeLine

/-- The line as a block holds it: the keyword in lower case, the values as they are written. -/
def line (l : CodeLine) : Line := ⟨Text.lower l.word, l.values⟩

theorem keyword_line (l : CodeLine) : l.line.keyword = Text.lower l.word := rfl

theorem values_line (l : CodeLine) : l.line.values = l.values := rfl

abbrev IsStart (l : CodeLine) : Prop := Text.lower l.word = "start"

abbrev IsEnd (l : CodeLine) : Prop := Text.lower l.word = "end"

/-- A line that opens a block of some name. -/
def Opens (l : CodeLine) (name : String) : Prop := l.IsStart ∧ l.values.head? = some name

/-- A line that closes a block of some name, in whatever case. -/
def Closes (l : CodeLine) (name : String) : Prop :=
  l.IsEnd ∧ ∃ found, l.values.head? = some found ∧ Text.lower found = Text.lower name

/-- A line within a block. -/
def IsEntry (l : CodeLine) : Prop := ¬ l.IsStart ∧ ¬ l.IsEnd ∧ l.values ≠ []

end CodeLine

/-- The words of a raw line, the `n`-th: without its comment, in the present spelling. -/
def codeLine? (n : Nat) (raw : List Char) : Option CodeLine :=
  (codeOf? raw).bind fun code =>
    match Text.wordsOf (normalize code) with
    | [] => none
    | word :: values => some ⟨n, String.ofList word, values.map String.ofList⟩

/-- The lines with code among raw lines, of which the first is line `n`. -/
def codeLinesFrom (n : Nat) (raws : List (List Char)) : List CodeLine :=
  (raws.zipIdx n).filterMap fun (raw, i) => codeLine? i raw

def codeLines (source : String) : List CodeLine := codeLinesFrom 1 (Text.linesOf source.toList)

/-! ## The grammar -/

/-- The block that a line has opened, with the lines that stand in it so far. -/
def openedBy (start : CodeLine) (name : String) (body : List CodeLine) : Block :=
  ⟨Text.lower name, start.number, (start :: body).map CodeLine.line⟩

/-- The blocks of a control file. Between blocks any line may stand that neither opens nor closes
one. -/
inductive Blocks : List CodeLine → List Block → Prop
  | nil : Blocks [] []
  | ignored {l rest blocks} : ¬ l.IsStart → ¬ l.IsEnd → Blocks rest blocks →
      Blocks (l :: rest) blocks
  | block {start name body last rest blocks} : start.Opens name → (∀ l ∈ body, l.IsEntry) →
      last.Closes name → Blocks rest blocks →
      Blocks (start :: body ++ last :: rest) (openedBy start name (body ++ [last]) :: blocks)

/-- Lines that end within a block: some blocks that are complete, and one that is open. -/
def Unfinished (lines : List CodeLine) (done : List Block) (start : CodeLine) (name : String)
    (body : List CodeLine) : Prop :=
  ∃ front, Blocks front done ∧ start.Opens name ∧ (∀ l ∈ body, l.IsEntry) ∧
    lines = front ++ start :: body

/-- A line that cannot stand behind the lines before it. -/
inductive Misplaced (front : List CodeLine) (l : CodeLine) : LineFault → Prop
  | startWithoutName {done} : Blocks front done → l.IsStart → l.values = [] →
      Misplaced front l .startWithoutName
  | endOutside {done} : Blocks front done → l.IsEnd → Misplaced front l .endOutside
  | startInside {done start name body} : Unfinished front done start name body → l.IsStart →
      Misplaced front l (.startInside (Text.upper (Text.lower name)) start.number)
  | endMismatch {done start name body} : Unfinished front done start name body → l.IsEnd →
      ¬ l.Closes name →
      Misplaced front l (.endMismatch (l.values.head?.getD "") (Text.upper (Text.lower name)))
  | noValue {done start name body} : Unfinished front done start name body → ¬ l.IsStart →
      ¬ l.IsEnd → l.values = [] →
      Misplaced front l (.keywordWithoutValue (Text.upper (Text.lower l.word)))

/-- Lines that are no control file, with the fault that says why: a line cannot stand behind the lines
before it, or a block is open at the end. -/
@[mk_iff]
inductive Refused : List CodeLine → Fault → Prop
  | misplaced {front l rest cause} : Misplaced front l cause →
      Refused (front ++ l :: rest) (.malformed l.number cause)
  | unclosed {lines done start name body} : Unfinished lines done start name body →
      Refused lines (.unclosed (Text.upper (Text.lower name)) start.number)

/-- Lines that some further lines make a control file. -/
def Viable (lines : List CodeLine) : Prop := ∃ rest blocks, Blocks (lines ++ rest) blocks

variable {lines front rest body : List CodeLine} {l start last : CodeLine} {name : String}
  {done blocks : List Block} {fault : Fault} {cause : LineFault}

theorem Blocks.append (hfront : Blocks front done) (hrest : Blocks rest blocks) :
    Blocks (front ++ rest) (done ++ blocks) := by
  induction hfront with
  | nil => exact hrest
  | ignored hstart hend _ ih => exact .ignored hstart hend ih
  | block hopens hbody hcloses _ ih =>
    rw [List.append_assoc, List.cons_append]
    exact .block hopens hbody hcloses ih

theorem Blocks.viable (h : Blocks lines blocks) : Viable lines :=
  ⟨[], blocks, by rwa [List.append_nil]⟩

/-- An open block may be closed. -/
theorem Unfinished.viable (h : Unfinished lines done start name body) : Viable lines := by
  obtain ⟨front, hfront, hopens, hbody, rfl⟩ := h
  have hend : Text.lower "end" = "end" := by decide
  have hcloses : CodeLine.Closes ⟨0, "end", [name]⟩ name := ⟨hend, name, rfl, rfl⟩
  have hclosed := hfront.append (.block hopens hbody hcloses .nil)
  rw [← List.append_assoc] at hclosed
  exact ⟨_, _, hclosed⟩

theorem Unfinished.concat (h : Unfinished lines done start name body) (hl : l.IsEntry) :
    Unfinished (lines ++ [l]) done start name (body ++ [l]) := by
  obtain ⟨front, hfront, hopens, hbody, rfl⟩ := h
  refine ⟨front, hfront, hopens, fun l' hl' => ?_, by simp⟩
  rcases List.mem_append.mp hl' with hl' | hl'
  · exact hbody l' hl'
  · rw [List.mem_singleton.mp hl']
    exact hl

/-! ## The reader on lines with code -/

/-- Reads the blocks of lines with code. -/
def readLines (state : Open) : List CodeLine → Outcome (List Block)
  | [] => do
    state.finish
    pure []
  | l :: lines => do
    let (finished, state) ← state.take l.number l.line
    let blocks ← readLines state lines
    pure (finished.toList ++ blocks)

/-- Lines without code do not matter. -/
theorem blocksFrom_eq_readLines (state : Open) (n : Nat) (raws : List (List Char)) :
    blocksFrom state n raws = readLines state (codeLinesFrom n raws) := by
  induction raws generalizing state n with
  | nil => rfl
  | cons raw raws ih =>
    have hline : Line.ofChars? raw = (codeLine? n raw).map CodeLine.line := by
      unfold Line.ofChars? codeLine?
      cases codeOf? raw with
      | none => rfl
      | some code => cases hwords : Text.wordsOf (normalize code) <;> simp [hwords, CodeLine.line]
    have hnumber : ∀ l, codeLine? n raw = some l → l.number = n := by
      intro l hl
      obtain ⟨code, -, hl⟩ := Option.bind_eq_some_iff.mp hl
      split at hl
      · cases hl
      · rw [← Option.some.inj hl]
    have hcons : codeLinesFrom n (raw :: raws) =
        (codeLine? n raw).toList ++ codeLinesFrom (n + 1) raws := by
      rw [codeLinesFrom, List.zipIdx_cons, List.filterMap_cons, codeLinesFrom]
      dsimp only
      cases codeLine? n raw <;> rfl
    rw [blocksFrom, Open.feed, hline, hcons]
    cases hcode : codeLine? n raw with
    | none =>
      simp only [Option.map_none, Option.toList_none, List.nil_append, ← ih state (n + 1)]
      show (blocksFrom state (n + 1) raws >>= fun blocks => pure ([] ++ blocks)) = _
      simp
    | some l =>
      simp only [Option.map_some, Option.toList_some, List.singleton_append, readLines,
        hnumber l hcode, ih]

/-! ### One line -/

theorem IsEnd.not_isStart (h : l.IsEnd) : ¬ l.IsStart := by
  intro hstart
  have heq : "start" = "end" := hstart.symm.trans h
  exact absurd heq (by decide)

theorem take_ignored (hstart : ¬ l.IsStart) (hend : ¬ l.IsEnd) :
    Open.take none l.number l.line = .ok (none, none) := by
  rw [Open.take, CodeLine.keyword_line, if_neg hstart, if_neg hend]

theorem take_opens (h : l.Opens name) :
    Open.take none l.number l.line = .ok (none, some (openedBy l name [])) := by
  obtain ⟨hstart, hname⟩ := h
  obtain ⟨more, hvalues⟩ := List.head?_eq_some_iff.mp hname
  rw [Open.take, CodeLine.keyword_line, if_pos hstart, CodeLine.values_line, hvalues]
  rfl

theorem take_startWithoutName (hstart : l.IsStart) (hvalues : l.values = []) :
    Open.take none l.number l.line = .error (.malformed l.number .startWithoutName) := by
  rw [Open.take, CodeLine.keyword_line, if_pos hstart, CodeLine.values_line, hvalues]

theorem take_endOutside (hend : l.IsEnd) :
    Open.take none l.number l.line = .error (.malformed l.number .endOutside) := by
  rw [Open.take, CodeLine.keyword_line, if_neg (IsEnd.not_isStart hend), if_pos hend]

theorem take_startInside (hstart : l.IsStart) :
    Open.take (some (openedBy start name body)) l.number l.line = .error (.malformed l.number
      (.startInside (Text.upper (Text.lower name)) start.number)) := by
  rw [Open.take, CodeLine.keyword_line, if_pos hstart]
  rfl

theorem take_entry (h : l.IsEntry) :
    Open.take (some (openedBy start name body)) l.number l.line =
      .ok (none, some (openedBy start name (body ++ [l]))) := by
  obtain ⟨hstart, hend, hvalues⟩ := h
  have hsome : l.values.isEmpty = false := by simpa using hvalues
  rw [Open.take, CodeLine.keyword_line, if_neg hstart, if_neg hend, CodeLine.values_line, hsome]
  simp [openedBy]

theorem take_noValue (hstart : ¬ l.IsStart) (hend : ¬ l.IsEnd) (hvalues : l.values = []) :
    Open.take (some (openedBy start name body)) l.number l.line = .error (.malformed l.number
      (.keywordWithoutValue (Text.upper (Text.lower l.word)))) := by
  rw [Open.take, CodeLine.keyword_line, if_neg hstart, if_neg hend, CodeLine.values_line, hvalues]
  rfl

theorem take_closes (h : l.Closes name) :
    Open.take (some (openedBy start name body)) l.number l.line =
      .ok (some (openedBy start name (body ++ [l])), none) := by
  obtain ⟨hend, found, hfound, hname⟩ := h
  have hcommand : Text.lower found = (openedBy start name body).command := hname
  rw [Open.take, CodeLine.keyword_line, if_neg (IsEnd.not_isStart hend), if_pos hend,
    CodeLine.values_line, hfound]
  simp only [Option.getD_some, if_pos hcommand]
  simp [openedBy]

theorem take_endMismatch (hname : name ≠ "") (hend : l.IsEnd) (hcloses : ¬ l.Closes name) :
    Open.take (some (openedBy start name body)) l.number l.line = .error (.malformed l.number
      (.endMismatch (l.values.head?.getD "") (Text.upper (Text.lower name)))) := by
  have hother : Text.lower (l.values.head?.getD "") ≠ (openedBy start name body).command := by
    intro heq
    cases hfound : l.values.head? with
    | none =>
      rw [hfound, Option.getD_none] at heq
      have hlower : Text.lower name = "" := heq.symm.trans (Text.lower_eq_empty.mpr rfl)
      exact hname (Text.lower_eq_empty.mp hlower)
    | some found =>
      rw [hfound, Option.getD_some] at heq
      exact hcloses ⟨hend, found, hfound, heq⟩
  rw [Open.take, CodeLine.keyword_line, if_neg (IsEnd.not_isStart hend), if_pos hend,
    CodeLine.values_line]
  simp only [if_neg hother]
  rfl

/-! ### All lines -/

theorem readLines_ignored (hstart : ¬ l.IsStart) (hend : ¬ l.IsEnd) :
    readLines none (l :: rest) = readLines none rest := by
  rw [readLines, take_ignored hstart hend]
  show (readLines none rest >>= fun blocks => pure ([] ++ blocks)) = _
  simp

theorem readLines_opens (h : l.Opens name) :
    readLines none (l :: rest) = readLines (some (openedBy l name [])) rest := by
  rw [readLines, take_opens h]
  show (readLines _ rest >>= fun blocks => pure ([] ++ blocks)) = _
  simp

/-- The lines of an open block are added to it. -/
theorem readLines_entries (before : List CodeLine) (hbody : ∀ l ∈ body, l.IsEntry) :
    readLines (some (openedBy start name before)) (body ++ rest) =
      readLines (some (openedBy start name (before ++ body))) rest := by
  induction body generalizing before with
  | nil => rw [List.nil_append, List.append_nil]
  | cons l body ih =>
    rw [List.forall_mem_cons] at hbody
    rw [List.cons_append, readLines, take_entry hbody.1]
    show (readLines _ (body ++ rest) >>= fun blocks => pure ([] ++ blocks)) = _
    rw [ih _ hbody.2, List.append_assoc]
    simp

theorem readLines_closes (h : l.Closes name) :
    readLines (some (openedBy start name body)) (l :: rest) =
      (readLines none rest).map (openedBy start name (body ++ [l]) :: ·) := by
  rw [readLines, take_closes h]
  rfl

/-- Behind complete blocks the reader is outside of any block. -/
theorem readLines_of_blocks (h : Blocks front done) :
    readLines none (front ++ rest) = (readLines none rest).map (done ++ ·) := by
  induction h with
  | nil => cases h : readLines none rest <;> simp [h, Except.map]
  | ignored hstart hend _ ih => rw [List.cons_append, readLines_ignored hstart hend, ih]
  | @block start name body last front done hopens hbody hcloses _ ih =>
    rw [List.append_assoc, List.cons_append, List.cons_append, readLines_opens hopens,
      readLines_entries [] hbody, List.nil_append, readLines_closes hcloses, ih]
    cases readLines none rest <;> rfl

/-- Behind an unfinished block the reader is inside it. -/
theorem readLines_of_unfinished (h : Unfinished front done start name body) :
    readLines none (front ++ rest) =
      (readLines (some (openedBy start name body)) rest).map (done ++ ·) := by
  obtain ⟨before, hbefore, hopens, hbody, rfl⟩ := h
  rw [List.append_assoc, readLines_of_blocks hbefore, List.cons_append, readLines_opens hopens,
    readLines_entries [] hbody, List.nil_append]

/-- A fault of a line is that of the whole. -/
theorem readLines_of_take {state : Open} (h : state.take l.number l.line = .error fault) :
    readLines state (l :: rest) = .error fault := by
  rw [readLines, h]
  rfl

/-! ### The result -/

theorem readLines_eq_ok (h : Blocks lines blocks) : readLines none lines = .ok blocks := by
  have hread : readLines none (lines ++ []) = _ := readLines_of_blocks h
  rw [List.append_nil] at hread
  rw [hread]
  show Except.ok (blocks ++ []) = _
  rw [List.append_nil]

theorem readLines_of_unfinished_take (h : Unfinished front done start name body)
    (htake : Open.take (some (openedBy start name body)) l.number l.line = .error fault) :
    readLines none (front ++ l :: rest) = .error fault := by
  rw [readLines_of_unfinished h, readLines_of_take htake]
  rfl

theorem readLines_of_blocks_take (h : Blocks front done)
    (htake : Open.take none l.number l.line = .error fault) :
    readLines none (front ++ l :: rest) = .error fault := by
  rw [readLines_of_blocks h, readLines_of_take htake]
  rfl

/-- The fault of a line that cannot stand where it stands is that of the whole. -/
theorem readLines_of_misplaced (hwords : ∀ l ∈ front, "" ∉ l.values) (h : Misplaced front l cause)
    (rest : List CodeLine) :
    readLines none (front ++ l :: rest) = .error (.malformed l.number cause) := by
  cases h with
  | startWithoutName hfront hstart hvalues =>
    exact readLines_of_blocks_take hfront (take_startWithoutName hstart hvalues)
  | endOutside hfront hend => exact readLines_of_blocks_take hfront (take_endOutside hend)
  | startInside hfront hstart => exact readLines_of_unfinished_take hfront (take_startInside hstart)
  | @endMismatch _ start name _ hfront hend hcloses =>
    have hname : name ≠ "" := by
      obtain ⟨before, -, ⟨-, hhead⟩, -, rfl⟩ := hfront
      rintro rfl
      exact hwords start (by simp) (List.mem_of_head? hhead)
    exact readLines_of_unfinished_take hfront (take_endMismatch hname hend hcloses)
  | noValue hfront hstart hend hvalues =>
    exact readLines_of_unfinished_take hfront (take_noValue hstart hend hvalues)

/-- Lines that are refused have the fault that they are refused with. -/
theorem readLines_eq_error (hwords : ∀ l ∈ lines, "" ∉ l.values) (h : Refused lines fault) :
    readLines none lines = .error fault := by
  cases h with
  | misplaced hl =>
    exact readLines_of_misplaced (fun l hl' => hwords l (List.mem_append_left _ hl')) hl _
  | unclosed hlines =>
    have hread : readLines none (lines ++ []) = _ := readLines_of_unfinished hlines
    rw [List.append_nil] at hread
    rw [hread]
    rfl

/-- Lines are the blocks of a control file, or end within a block, or some line of them cannot stand
where it stands. -/
theorem blocks_or_unfinished_or_misplaced (lines : List CodeLine) :
    (∃ blocks, Blocks lines blocks) ∨
    (∃ done start name body, Unfinished lines done start name body) ∨
    ∃ front l rest cause, lines = front ++ l :: rest ∧ Misplaced front l cause := by
  induction lines using List.reverseRecOn with
  | nil => exact .inl ⟨[], .nil⟩
  | append_singleton front l ih =>
    have hlast : ∀ cause, Misplaced front l cause → ∃ front' l' rest cause',
        front ++ [l] = front' ++ l' :: rest ∧ Misplaced front' l' cause' :=
      fun cause h => ⟨front, l, [], cause, rfl, h⟩
    rcases ih with ⟨done, hfront⟩ | ⟨done, start, name, body, hfront⟩ |
      ⟨front', l', rest, cause, rfl, hl'⟩
    · by_cases hstart : l.IsStart
      · cases hvalues : l.values with
        | nil => exact .inr (.inr (hlast _ (.startWithoutName hfront hstart hvalues)))
        | cons name more =>
          have hopens : l.Opens name := ⟨hstart, by rw [hvalues]; rfl⟩
          exact .inr (.inl ⟨done, l, name, [], front, hfront, hopens, nofun, rfl⟩)
      · by_cases hend : l.IsEnd
        · exact .inr (.inr (hlast _ (.endOutside hfront hend)))
        · exact .inl ⟨_, hfront.append (.ignored hstart hend .nil)⟩
    · by_cases hstart : l.IsStart
      · exact .inr (.inr (hlast _ (.startInside hfront hstart)))
      by_cases hend : l.IsEnd
      · by_cases hcloses : l.Closes name
        · obtain ⟨before, hbefore, hopens, hbody, rfl⟩ := hfront
          rw [List.append_assoc]
          exact .inl ⟨_, hbefore.append (.block hopens hbody hcloses .nil)⟩
        · exact .inr (.inr (hlast _ (.endMismatch hfront hend hcloses)))
      · by_cases hvalues : l.values = []
        · exact .inr (.inr (hlast _ (.noValue hfront hstart hend hvalues)))
        · exact .inr (.inl ⟨done, start, name, _, hfront.concat ⟨hstart, hend, hvalues⟩⟩)
    · exact .inr (.inr ⟨front', l', rest ++ [l], cause, by simp, hl'⟩)

/-- Lines that are not the blocks of a control file are refused. -/
theorem blocks_or_refused (lines : List CodeLine) :
    (∃ blocks, Blocks lines blocks) ∨ ∃ fault, Refused lines fault := by
  rcases blocks_or_unfinished_or_misplaced lines with h | ⟨_, _, _, _, h⟩ |
    ⟨front, l, rest, cause, rfl, h⟩
  · exact .inl h
  · exact .inr ⟨_, .unclosed h⟩
  · exact .inr ⟨_, .misplaced h⟩

/-! ### Lines that can be continued -/

theorem Misplaced.viable (h : Misplaced front l cause) : Viable front := by
  cases h with
  | startWithoutName hfront _ _ => exact hfront.viable
  | endOutside hfront _ => exact hfront.viable
  | startInside hfront _ => exact hfront.viable
  | endMismatch hfront _ _ => exact hfront.viable
  | noValue hfront _ _ _ => exact hfront.viable

/-- Nothing makes a control file of lines with one that cannot stand where it stands. -/
theorem Misplaced.not_viable (hwords : ∀ l ∈ front, "" ∉ l.values) (h : Misplaced front l cause) :
    ¬ Viable (front ++ [l]) := by
  rintro ⟨rest, blocks, hblocks⟩
  rw [List.append_assoc, List.singleton_append] at hblocks
  have hread := readLines_of_misplaced hwords h rest
  rw [readLines_eq_ok hblocks] at hread
  cases hread

/-! ## Blocks and faults of a text -/

theorem isWord_of_codeLines {source : String} :
    ∀ l ∈ codeLines source, ∀ v ∈ l.values, Text.IsWord v.toList := by
  intro l hl v hv
  obtain ⟨⟨raw, n⟩, -, hcode⟩ := List.mem_filterMap.mp hl
  obtain ⟨code, -, hcode⟩ := Option.bind_eq_some_iff.mp hcode
  split at hcode
  · cases hcode
  next word values hwords =>
    obtain rfl := Option.some.inj hcode
    obtain ⟨value, hvalue, rfl⟩ := List.mem_map.mp hv
    rw [String.toList_ofList]
    exact Text.isWord_of_mem_wordsOf value (hwords ▸ List.mem_cons_of_mem _ hvalue)

theorem words_of_codeLines {source : String} : ∀ l ∈ codeLines source, "" ∉ l.values :=
  fun l hl hempty => (isWord_of_codeLines l hl "" hempty).1 rfl

section

variable {source : String}

theorem blocksOf_eq_readLines (source : String) :
    blocksOf source = readLines none (codeLines source) :=
  blocksFrom_eq_readLines none 1 _

theorem blocksOf_eq_ok : blocksOf source = .ok blocks ↔ Blocks (codeLines source) blocks := by
  rw [blocksOf_eq_readLines]
  constructor
  · intro hread
    rcases blocks_or_refused (codeLines source) with ⟨blocks', h⟩ | ⟨fault, h⟩
    · rw [readLines_eq_ok h] at hread
      rwa [← Except.ok.inj hread]
    · rw [readLines_eq_error words_of_codeLines h] at hread
      cases hread
  · exact readLines_eq_ok

theorem blocksOf_eq_error : blocksOf source = .error fault ↔ Refused (codeLines source) fault := by
  rw [blocksOf_eq_readLines]
  constructor
  · intro hread
    rcases blocks_or_refused (codeLines source) with ⟨blocks, h⟩ | ⟨fault', h⟩
    · rw [readLines_eq_ok h] at hread
      cases hread
    · rw [readLines_eq_error words_of_codeLines h] at hread
      rwa [← Except.error.inj hread]
  · exact readLines_eq_error words_of_codeLines

end

/-! ### Lines of a block -/

theorem body_openedBy (h : last.IsEnd) :
    (openedBy start name (body ++ [last])).body = (start :: body).map CodeLine.line := by
  have hlines : (openedBy start name (body ++ [last])).lines =
      (start :: body).map CodeLine.line ++ [last.line] := by
    simp [openedBy]
  have hkeyword : last.line.keyword = "end" := h
  rw [Block.body, hlines, List.getLast?_concat]
  simp only [hkeyword, if_true, List.dropLast_concat]

theorem Blocks.exists_of_mem (h : Blocks lines blocks) {b : Block} (hb : b ∈ blocks) :
    ∃ start name body last, b = openedBy start name (body ++ [last]) ∧ start.Opens name ∧
      (∀ l ∈ body, l.IsEntry ∧ l ∈ lines) ∧ last.Closes name := by
  induction h with
  | nil => cases hb
  | ignored _ _ _ ih =>
    obtain ⟨start, name, body, last, rfl, hopens, hbody, hcloses⟩ := ih hb
    refine ⟨start, name, body, last, rfl, hopens, fun l hl => ?_, hcloses⟩
    exact (hbody l hl).imp_right (List.mem_cons_of_mem _)
  | @block start name body last rest blocks hopens hentries hcloses _ ih =>
    rcases List.mem_cons.mp hb with rfl | hb
    · exact ⟨start, name, body, last, rfl, hopens, fun l hl => ⟨hentries l hl, by simp [hl]⟩,
        hcloses⟩
    · obtain ⟨start', name', body', last', rfl, hopens', hbody', hcloses'⟩ := ih hb
      refine ⟨start', name', body', last', rfl, hopens', fun l hl => ?_, hcloses'⟩
      exact (hbody' l hl).imp_right fun hl => by simp [hl]

/-- The lines of a block of a text: the line that opens it, and entries with words for values. -/
theorem entries_of_blocksOf {source : String} (h : blocksOf source = .ok blocks) {b : Block}
    (hb : b ∈ blocks) : ∃ start entries, b.body = start :: entries ∧ start.keyword = "start" ∧
      ∀ l ∈ entries, l.values ≠ [] ∧ ∀ v ∈ l.values, Text.IsWord v.toList := by
  obtain ⟨start, name, body, last, rfl, hopens, hbody, hcloses⟩ :=
    (blocksOf_eq_ok.mp h).exists_of_mem hb
  refine ⟨start.line, body.map CodeLine.line, body_openedBy hcloses.1, hopens.1, ?_⟩
  intro l hl
  obtain ⟨entry, hentry, rfl⟩ := List.mem_map.mp hl
  obtain ⟨⟨-, -, hvalues⟩, hmem⟩ := hbody entry hentry
  exact ⟨hvalues, isWord_of_codeLines entry hmem⟩

/-- A text has the blocks that the grammar gives it, and fails with the fault that it is refused with:
that of the first line that no further lines make part of a control file, or that of the block that
is open at its end. -/
theorem blocksOf_eq_grammar (source : String) :
    (∀ blocks, blocksOf source = .ok blocks ↔ Blocks (codeLines source) blocks) ∧
    (∀ fault, blocksOf source = .error fault ↔ Refused (codeLines source) fault) ∧
    (∀ n cause, blocksOf source = .error (.malformed n cause) →
      ∃ front l rest, codeLines source = front ++ l :: rest ∧ l.number = n ∧ Viable front ∧
        ¬ Viable (front ++ [l])) ∧
    ∀ command n, blocksOf source = .error (.unclosed command n) → Viable (codeLines source) := by
  refine ⟨fun _ => blocksOf_eq_ok, fun _ => blocksOf_eq_error, fun n cause h => ?_,
    fun command n h => ?_⟩
  · have hwords : ∀ l ∈ codeLines source, "" ∉ l.values := words_of_codeLines
    rcases (refused_iff _ _).mp (blocksOf_eq_error.mp h) with
      ⟨front, l, rest, cause', hl, hlines, hfault⟩ | ⟨_, _, _, _, -, hfault⟩
    · have hfront : ∀ l' ∈ front, "" ∉ l'.values := fun l' hl' =>
        hwords l' (hlines ▸ List.mem_append_left _ hl')
      obtain ⟨rfl, rfl⟩ := Fault.malformed.inj hfault
      exact ⟨front, l, rest, hlines, rfl, hl.viable, hl.not_viable hfront⟩
    · cases hfault
  · rcases (refused_iff _ _).mp (blocksOf_eq_error.mp h) with
      ⟨_, _, _, _, -, -, hfault⟩ | ⟨_, _, _, _, hlines, -⟩
    · cases hfault
    · exact hlines.viable

/-- Two blocks, the second one cut off. -/
example : blocksOf "notes\nSTART Copy # now\n context all\nend COPY\nSTART MOVE\n" =
    .error (.unclosed "MOVE" 5) := by
  decide +kernel

end Hydroseries.Control
