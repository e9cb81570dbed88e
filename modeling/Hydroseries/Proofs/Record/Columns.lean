import Hydroseries.Proofs.Outcome
import Hydroseries.Record.Writer

/-!
# Where values stand in records

A record is written descriptor by descriptor. What a descriptor writes stays as long as the writing
goes on behind it (`holds_of_writeFrom`), and the span that is noted for a value is the columns that
it stands in (`hasCell_of_writeFrom`). Wherever the descriptors move to, a column shows the last text
that is written to it, and is blank if there is none (`IsLaidOut`).
-/

namespace Hydroseries.Record

variable {scale : Int} {line : Line} {spans : List (Nat × Nat)} {d : Descriptor} {format : Format}
  {fields : List Field} {written : Written}

/-! ## One descriptor -/

namespace Descriptor

/-- The line behind a descriptor that writes no value. -/
def advance (line : Line) : Descriptor → Line
  | .literal text => line.put text
  | .skip n => line.moveTo (line.position + n)
  | .tab column => line.moveTo (column - 1)
  | _ => line

/-- The scale factor behind a descriptor. -/
def rescale (scale : Int) : Descriptor → Int
  | .scale k => k
  | _ => scale

/-- The descriptor does not move to the left of a column, counted from zero. -/
def staysBehind (column : Nat) : Descriptor → Bool
  | .tab c => decide (column ≤ c - 1)
  | _ => true

end Descriptor

/-- The columns of a text at the position of a line, counted from one. -/
def spanOf (line : Line) (text : String) : Nat × Nat :=
  (line.position + 1, line.position + 1 + max text.length 1 - 1)

theorem writeFrom_of_not_takesField (hd : d.takesField = false)
    (h : writeFrom scale line spans (d :: format) fields = .ok written) :
    writeFrom (d.rescale scale) (d.advance line) spans format fields = .ok written := by
  rw [writeFrom.eq_def] at h
  dsimp only at h
  rw [if_neg (by simp [hd])] at h
  cases d with
  | literal | tab | scale => exact h
  | skip n =>
    dsimp only at h
    split at h
    · exact h
    · cases h
  | chars | fixed | exponent | general => cases hd

/-- A descriptor of a value writes the next one, or ends the record if there is none. -/
theorem writeFrom_of_takesField (hd : d.takesField = true)
    (h : writeFrom scale line spans (d :: format) fields = .ok written) :
    fields = [] ∧ written = ⟨String.ofList line.chars, spans⟩ ∨
      ∃ field more text, fields = field :: more ∧ render scale d field = .ok text ∧
        writeFrom scale (line.put text.toList) (spans ++ [spanOf line text]) format more =
          .ok written := by
  rw [writeFrom.eq_def] at h
  dsimp only at h
  rw [if_pos hd] at h
  cases fields with
  | nil => exact .inl ⟨rfl, (Except.ok.inj h).symm⟩
  | cons field more =>
    obtain ⟨text, htext, h⟩ := bind_eq_ok.mp h
    split at h
    · exact .inr ⟨field, more, text, rfl, htext, h⟩
    · cases h

/-! ## What stays -/

/-- Some characters stand behind others in a line. -/
def Line.Holds (line : Line) (front cell : List Char) : Prop :=
  ∃ rest, line.chars = front ++ cell ++ rest

variable {front cell : List Char}

theorem Line.holds_put (line : Line) {text : List Char} (htext : text ≠ []) :
    ∃ front, front.length = line.position ∧ (line.put text).Holds front text := by
  refine ⟨(line.chars ++ List.replicate (line.position - line.chars.length) ' ').take line.position,
    ?_, (line.chars ++ List.replicate (line.position - line.chars.length) ' ').drop
      (line.position + text.length), ?_⟩
  · rw [List.length_take, List.length_append, List.length_replicate]
    omega
  · simp [Line.put, Line.overwrite, htext]

/-- Writing behind some characters leaves them. -/
theorem Line.Holds.put (h : line.Holds front cell)
    (hposition : front.length + cell.length ≤ line.position) (text : List Char) :
    (line.put text).Holds front cell := by
  obtain ⟨rest, hrest⟩ := h
  simp only [Line.Holds, Line.put, Line.overwrite, hrest]
  split
  · exact ⟨rest, rfl⟩
  · have hlength : (front ++ cell).length ≤ line.position := by rwa [List.length_append]
    rw [List.append_assoc (front ++ cell), List.take_append, List.take_of_length_le hlength]
    exact ⟨_, by rw [List.append_assoc, List.append_assoc]⟩

theorem Line.Holds.advance (h : line.Holds front cell)
    (hposition : front.length + cell.length ≤ line.position)
    (hd : d.staysBehind (front.length + cell.length) = true) :
    (d.advance line).Holds front cell ∧
      front.length + cell.length ≤ (d.advance line).position := by
  cases d with
  | literal text => exact ⟨h.put hposition text, Nat.le_add_right_of_le hposition⟩
  | skip n => exact ⟨h, Nat.le_add_right_of_le hposition⟩
  | tab column => exact ⟨h, of_decide_eq_true hd⟩
  | _ => exact ⟨h, hposition⟩

/-- What stands in a line is in the record if the writing goes on behind it. -/
theorem holds_of_writeFrom (hline : line.Holds front cell)
    (hposition : front.length + cell.length ≤ line.position)
    (hformat : ∀ d ∈ format, d.staysBehind (front.length + cell.length) = true)
    (h : writeFrom scale line spans format fields = .ok written) :
    ∃ rest, written.text.toList = front ++ cell ++ rest := by
  -- The position never comes back to the columns of the cell.
  induction format generalizing scale line spans fields with
  | nil =>
    obtain ⟨rest, hrest⟩ := hline
    rw [writeFrom] at h
    rw [← Except.ok.inj h, String.toList_ofList]
    exact ⟨rest, hrest⟩
  | cons d format ih =>
    have hmore : ∀ d ∈ format, d.staysBehind (front.length + cell.length) = true :=
      fun d hd => hformat d (List.mem_cons_of_mem _ hd)
    cases hd : d.takesField with
    | false =>
      obtain ⟨hheld, hbehind⟩ := hline.advance hposition (hformat d List.mem_cons_self)
      exact ih hheld hbehind hmore (writeFrom_of_not_takesField hd h)
    | true =>
      rcases writeFrom_of_takesField hd h with ⟨-, rfl⟩ | ⟨field, more, text, -, -, h⟩
      · obtain ⟨rest, hrest⟩ := hline
        exact ⟨rest, by rw [String.toList_ofList, hrest]⟩
      · exact ih (hline.put hposition _) (Nat.le_add_right_of_le hposition) hmore h

/-- Spans that are noted stay noted. -/
theorem prefix_spans (h : writeFrom scale line spans format fields = .ok written) :
    spans <+: written.spans := by
  induction format generalizing scale line spans fields with
  | nil =>
    rw [writeFrom] at h
    obtain rfl := Except.ok.inj h
    exact List.prefix_rfl
  | cons d format ih =>
    cases hd : d.takesField with
    | false => exact ih (writeFrom_of_not_takesField hd h)
    | true =>
      rcases writeFrom_of_takesField hd h with ⟨-, rfl⟩ | ⟨field, more, text, -, -, h⟩
      · exact List.prefix_rfl
      · exact (List.prefix_append _ _).trans (ih h)

/-! ## Where a value stands -/

/-- The `i`-th value of a record is written with some characters, and its span tells where. -/
def Written.HasCell (written : Written) (i : Nat) (cell : List Char) : Prop :=
  ∃ front rest, written.text.toList = front ++ cell ++ rest ∧
    written.spans[i]? = some (front.length + 1, front.length + cell.length)

/-- A value stands where its descriptor puts it, if the writing goes on behind it. -/
theorem hasCell_of_writeFrom {field : Field} {text : String} (hd : d.takesField = true)
    (htext : render scale d field = .ok text) (hsome : text.length ≠ 0)
    (hformat : ∀ d ∈ format, d.staysBehind (line.position + text.length) = true)
    (h : writeFrom scale line spans (d :: format) (field :: fields) = .ok written) :
    written.HasCell spans.length text.toList := by
  rcases writeFrom_of_takesField hd h with ⟨hnil, -⟩ | ⟨field', more, text', hfields, htext', h⟩
  · cases hnil
  obtain ⟨rfl, rfl⟩ := List.cons.inj hfields
  obtain rfl := Except.ok.inj (htext.symm.trans htext')
  rw [← String.length_toList] at hsome hformat
  obtain ⟨front, hfront, hline⟩ := line.holds_put (List.ne_nil_of_length_pos (Nat.pos_of_ne_zero hsome))
  rw [← hfront] at hformat
  have hposition : front.length + text.toList.length ≤ (line.put text.toList).position :=
    Nat.le_of_eq (congrArg (· + text.toList.length) hfront)
  obtain ⟨rest, hrest⟩ := holds_of_writeFrom hline hposition hformat h
  refine ⟨front, rest, hrest, ?_⟩
  obtain ⟨more, hmore⟩ := prefix_spans h
  rw [← hmore, List.append_assoc, List.getElem?_append_right (Nat.le_refl _), Nat.sub_self]
  show some (spanOf line text) = _
  rw [spanOf, ← hfront, ← String.length_toList]
  congr 2
  omega

/-- The scale factor behind a format. -/
def Format.rescale (scale : Int) (format : Format) : Int := format.foldl Descriptor.rescale scale

/-- A format is written up to some descriptor with as many values as it takes up to there. -/
theorem writeFrom_append {before after : Format} {given rest : List Field}
    (hcount : before.countP Descriptor.takesField = given.length)
    (h : writeFrom scale line spans (before ++ after) (given ++ rest) = .ok written) :
    ∃ line' spans', spans'.length = spans.length + given.length ∧
      writeFrom (Format.rescale scale before) line' spans' after rest = .ok written := by
  induction before generalizing scale line spans given with
  | nil =>
    obtain rfl : given = [] := List.eq_nil_of_length_eq_zero hcount.symm
    exact ⟨line, spans, rfl, h⟩
  | cons d before ih =>
    cases hd : d.takesField with
    | false =>
      rw [List.countP_cons_of_neg (by simp [hd])] at hcount
      exact ih hcount (writeFrom_of_not_takesField hd h)
    | true =>
      rw [List.countP_cons_of_pos hd] at hcount
      obtain ⟨field, given, rfl⟩ := List.exists_cons_of_length_eq_add_one hcount.symm
      rcases writeFrom_of_takesField hd h with ⟨hnil, -⟩ | ⟨field', more, text, hfields, -, h⟩
      · cases hnil
      obtain ⟨rfl, rfl⟩ := List.cons.inj hfields
      obtain ⟨line', spans', hspans, h⟩ := ih (Nat.succ.inj hcount) h
      refine ⟨line', spans', ?_, ?_⟩
      · rw [hspans, List.length_append, List.length_singleton, List.length_cons]
        omega
      · have hscale : d.rescale scale = scale := by cases d <;> first | rfl | cases hd
        rw [Format.rescale, List.foldl_cons, hscale]
        exact h

/-! ## All that is written -/

/-- A text that a descriptor writes under a scale factor, from a column on that is counted from zero. -/
structure Piece where
  descriptor : Descriptor
  scale : Int
  column : Nat
  text : List Char

namespace Piece

def isField (p : Piece) : Bool := p.descriptor.takesField

/-- The text is written to a column, among others. -/
@[reducible] def Covers (p : Piece) (column : Nat) : Prop :=
  p.column ≤ column ∧ column < p.column + p.text.length

/-- The first and the last column of the text, counted from one. -/
def span (p : Piece) : Nat × Nat := (p.column + 1, p.column + max p.text.length 1)

end Piece

/-- The texts that are written under a scale factor from a position on, in the order of their
descriptors. -/
inductive Writes : Int → Nat → Format → List Field → List Piece → Prop
  | done {scale position fields} : Writes scale position [] fields []
  /-- No value is left for a descriptor. -/
  | ended {scale position d format} (hd : d.takesField = true) :
      Writes scale position (d :: format) [] []
  | field {scale position d format field fields text pieces} (hd : d.takesField = true)
      (htext : render scale d field = .ok text)
      (hrest : Writes scale (position + text.length) format fields pieces) :
      Writes scale position (d :: format) (field :: fields)
        (⟨d, scale, position, text.toList⟩ :: pieces)
  | literal {scale position text format fields pieces}
      (hrest : Writes scale (position + text.length) format fields pieces) :
      Writes scale position (.literal text :: format) fields
        (⟨.literal text, scale, position, text⟩ :: pieces)
  | skip {scale position n format fields pieces}
      (hrest : Writes scale (position + n) format fields pieces) :
      Writes scale position (.skip n :: format) fields pieces
  | tab {scale position column format fields pieces}
      (hrest : Writes scale (column - 1) format fields pieces) :
      Writes scale position (.tab column :: format) fields pieces
  | scale {scale position k format fields pieces} (hrest : Writes k position format fields pieces) :
      Writes scale position (.scale k :: format) fields pieces

variable {position : Nat} {pieces : List Piece}

namespace Writes

/-- Values and descriptors for them are used up in pairs. -/
theorem countP_isField (h : Writes scale position format fields pieces) :
    pieces.countP Piece.isField = min fields.length (format.countP Descriptor.takesField) := by
  induction h with
  | done => simp
  | ended => simp
  | field hd _ _ ih =>
    rw [List.countP_cons_of_pos hd, List.countP_cons_of_pos (by exact hd), ih, List.length_cons]
    omega
  | literal _ ih =>
    rw [List.countP_cons_of_neg (by simp [Piece.isField, Descriptor.takesField]),
      List.countP_cons_of_neg (by simp [Descriptor.takesField]), ih]
  | skip _ ih | tab _ ih | scale _ ih =>
    rw [List.countP_cons_of_neg (by simp [Descriptor.takesField]), ih]

/-- The format and the values leave no choice. -/
theorem unique {others : List Piece} (h : Writes scale position format fields pieces)
    (h' : Writes scale position format fields others) : others = pieces := by
  -- The first descriptor decides which constructor both derivations end in.
  induction h generalizing others with
  | done => cases h'; rfl
  | ended => cases h' <;> first | rfl | contradiction
  | @field scale position d format field fields text pieces hd htext hrest ih =>
    cases h' with
    | field _ htext' hrest' =>
      obtain rfl := Except.ok.inj (htext.symm.trans htext')
      rw [ih hrest']
    | literal | skip | tab | scale => cases hd
  | literal hrest ih =>
    cases h' with
    | field hd => cases hd
    | ended hd => cases hd
    | literal hrest' => rw [ih hrest']
  | skip hrest ih =>
    cases h' with
    | field hd => cases hd
    | ended hd => cases hd
    | skip hrest' => exact ih hrest'
  | tab hrest ih =>
    cases h' with
    | field hd => cases hd
    | ended hd => cases hd
    | tab hrest' => exact ih hrest'
  | scale hrest ih =>
    cases h' with
    | field hd => cases hd
    | ended hd => cases hd
    | scale hrest' => exact ih hrest'

/-- Each value has a text, which is the rendering under its descriptor. -/
theorem exists_piece (h : Writes scale position format fields pieces) {i : Nat} {field : Field}
    {d : Descriptor} (hfield : fields[i]? = some field)
    (hd : (format.filter Descriptor.takesField)[i]? = some d) :
    ∃ before piece after, pieces = before ++ piece :: after ∧
      before.countP Piece.isField = i ∧ piece.descriptor = d ∧
      render piece.scale d field = .ok (String.ofList piece.text) := by
  induction h generalizing i with
  | done => simp at hd
  | ended => simp at hfield
  | @field scale position d' format field' fields text pieces hd' htext _ ih =>
    rw [List.filter_cons_of_pos hd'] at hd
    cases i with
    | zero =>
      obtain rfl := Option.some.inj hfield
      obtain rfl := Option.some.inj hd
      exact ⟨[], _, pieces, rfl, rfl, rfl, by rw [String.ofList_toList, htext]⟩
    | succ i =>
      obtain ⟨before, piece, after, rfl, hcount, hpiece, hrender⟩ := ih hfield hd
      refine ⟨_ :: before, piece, after, rfl, ?_, hpiece, hrender⟩
      rw [List.countP_cons_of_pos (by exact hd'), hcount]
  | literal _ ih =>
    rw [List.filter_cons_of_neg (by simp [Descriptor.takesField])] at hd
    obtain ⟨before, piece, after, rfl, hcount, hpiece, hrender⟩ := ih hfield hd
    refine ⟨_ :: before, piece, after, rfl, ?_, hpiece, hrender⟩
    rw [List.countP_cons_of_neg (by simp [Piece.isField, Descriptor.takesField]), hcount]
  | skip _ ih | tab _ ih | scale _ ih =>
    rw [List.filter_cons_of_neg (by simp [Descriptor.takesField])] at hd
    exact ih hfield hd

end Writes

/-- The column of a text shows the text, a column that is jumped over is blank, and the others stay. -/
theorem Line.getElem?_put (line : Line) (text : List Char) (column : Nat) :
    (line.put text).chars[column]? =
      if line.position ≤ column ∧ column < line.position + text.length then
        text[column - line.position]?
      else if text ≠ [] ∧ line.chars.length ≤ column ∧ column < line.position then some ' '
      else line.chars[column]? := by
  by_cases htext : text = []
  · have hempty : ¬ (line.position ≤ column ∧ column < line.position + text.length) := by
      rw [htext, List.length_nil]
      omega
    rw [if_neg hempty, if_neg fun h => h.1 htext]
    simp [Line.put, Line.overwrite, htext]
  have hpadded (n : Nat) : (line.chars ++ List.replicate (line.position - line.chars.length) ' ')[n]? =
      if line.chars.length ≤ n ∧ n < line.position then some ' ' else line.chars[n]? := by
    rw [List.getElem?_append]
    split
    · rw [if_neg (by omega)]
    · rw [List.getElem?_replicate, List.getElem?_eq_none (by omega)]
      exact if_congr (by omega) rfl rfl
  have hlength : line.position ≤
      (line.chars ++ List.replicate (line.position - line.chars.length) ' ').length := by
    rw [List.length_append, List.length_replicate]
    omega
  simp only [Line.put, Line.overwrite, List.isEmpty_iff, htext, if_false, ne_eq, not_false_eq_true,
    true_and]
  rw [List.append_assoc, List.getElem?_append, List.length_take, Nat.min_eq_left hlength]
  split
  next hleft =>
    have houtside : ¬ (line.position ≤ column ∧ column < line.position + text.length) := by omega
    rw [List.getElem?_take_of_lt hleft, hpadded, if_neg houtside]
  next hright =>
    rw [List.getElem?_append]
    split
    next hinside => rw [if_pos (by omega)]
    next hbehind =>
      rw [List.getElem?_drop, hpadded, if_neg (by omega), if_neg (by omega), if_neg (by omega)]
      congr 1
      omega

/-- A record in which a line is gone on with some texts. -/
structure Continues (line : Line) (spans : List (Nat × Nat)) (pieces : List Piece)
    (written : Written) : Prop where
  spans : written.spans = spans ++ (pieces.filter Piece.isField).map Piece.span
  /-- A column shows the last text that is written to it. -/
  shown : ∀ before piece after, pieces = before ++ piece :: after → ∀ column, piece.Covers column →
    (∀ later ∈ after, ¬ later.Covers column) →
    written.text.toList[column]? = piece.text[column - piece.column]?
  /-- What stood in the line stays if nothing is written over it. -/
  kept : ∀ column c, (∀ piece ∈ pieces, ¬ piece.Covers column) → line.chars[column]? = some c →
    written.text.toList[column]? = some c
  /-- What is added to the line without being written to is blank. -/
  blank : ∀ column c, (∀ piece ∈ pieces, ¬ piece.Covers column) → line.chars[column]? = none →
    written.text.toList[column]? = some c → c = ' '

namespace Continues

theorem nil (line : Line) (spans : List (Nat × Nat)) :
    Continues line spans [] ⟨String.ofList line.chars, spans⟩ where
  spans := (List.append_nil spans).symm
  shown := fun before piece after h => absurd h (by simp)
  kept := fun column c _ hline => by rw [String.toList_ofList, hline]
  blank := fun column c _ hline hc => by
    rw [String.toList_ofList, hline] at hc
    cases hc

/-- Moving writes nothing. -/
theorem of_moveTo {column : Nat} (h : Continues (line.moveTo column) spans pieces written) :
    Continues line spans pieces written :=
  ⟨h.spans, h.shown, h.kept, h.blank⟩

/-- One text more, written at the position of the line. -/
theorem cons {piece : Piece} (hcolumn : piece.column = line.position)
    (h : Continues (line.put piece.text)
      (spans ++ if piece.isField then [piece.span] else []) pieces written) :
    Continues line spans (piece :: pieces) written where
  spans := by
    rw [h.spans, List.append_assoc]
    cases hfield : piece.isField with
    | true => rw [List.filter_cons_of_pos hfield, if_pos rfl, List.map_cons, List.singleton_append]
    | false => rw [List.filter_cons_of_neg (by simp [hfield]), if_neg nofun, List.nil_append]
  shown := by
    intro before other after hpieces column hcovers hafter
    cases before with
    | nil =>
      -- Nothing later covers the column, so the character that is put there is kept.
      obtain ⟨rfl, rfl⟩ := List.cons.inj hpieces
      have hchar : piece.text[column - piece.column]? = some piece.text[column - piece.column] :=
        List.getElem?_eq_getElem (Nat.sub_lt_left_of_lt_add hcovers.1 hcovers.2)
      have hput := line.getElem?_put piece.text column
      rw [← hcolumn, if_pos hcovers, hchar] at hput
      rw [h.kept column _ hafter hput, hchar]
    | cons first before =>
      obtain ⟨-, rfl⟩ := List.cons.inj hpieces
      exact h.shown before other after rfl column hcovers hafter
  kept := by
    intro column c hcovers hline
    rw [List.forall_mem_cons] at hcovers
    refine h.kept column c hcovers.2 ?_
    obtain ⟨hlength, -⟩ := List.getElem?_eq_some_iff.mp hline
    rw [Line.getElem?_put, ← hcolumn, if_neg hcovers.1, if_neg (by omega), hline]
  blank := by
    intro column c hcovers hline hc
    rw [List.forall_mem_cons] at hcovers
    have hput := line.getElem?_put piece.text column
    rw [← hcolumn, if_neg hcovers.1, hline] at hput
    -- The line is padded with blanks up to the text; behind the text nothing is added.
    split at hput
    · exact Option.some.inj (hc.symm.trans (h.kept column ' ' hcovers.2 hput))
    · exact h.blank column c hcovers.2 hput hc

end Continues

/-- Going through a format writes the texts of its descriptors one over the other. -/
theorem exists_writes (h : writeFrom scale line spans format fields = .ok written) :
    ∃ pieces, Writes scale line.position format fields pieces ∧
      Continues line spans pieces written := by
  -- From the last descriptor back: each text is written before what the rest of the format writes.
  induction format generalizing scale line spans fields with
  | nil =>
    rw [writeFrom] at h
    obtain rfl := Except.ok.inj h
    exact ⟨[], .done, .nil line spans⟩
  | cons d format ih =>
    cases hd : d.takesField with
    | true =>
      rcases writeFrom_of_takesField hd h with ⟨rfl, rfl⟩ | ⟨field, more, text, rfl, htext, h⟩
      · exact ⟨[], .ended hd, .nil line spans⟩
      · obtain ⟨pieces, hwrites, hcontinues⟩ := ih h
        rw [Line.put, String.length_toList] at hwrites
        refine ⟨_, .field hd htext hwrites, .cons rfl ?_⟩
        have hspan : Piece.span ⟨d, scale, line.position, text.toList⟩ = spanOf line text := by
          simp only [Piece.span, spanOf, String.length_toList, Prod.mk.injEq, true_and]
          omega
        rwa [Piece.isField, if_pos hd, hspan]
    | false =>
      obtain ⟨pieces, hwrites, hcontinues⟩ := ih (writeFrom_of_not_takesField hd h)
      cases d with
      | literal text =>
        refine ⟨_, .literal hwrites, .cons rfl ?_⟩
        rwa [Piece.isField, if_neg (by simp [hd]), List.append_nil]
      | skip n => exact ⟨pieces, .skip hwrites, hcontinues.of_moveTo⟩
      | tab column => exact ⟨pieces, .tab hwrites, hcontinues.of_moveTo⟩
      | scale k => exact ⟨pieces, .scale hwrites, hcontinues⟩
      | chars | fixed | exponent | general => cases hd

/-- The span of a text is noted behind those of the values before it. -/
theorem Continues.getElem?_spans (h : Continues {} [] pieces written) {before after : List Piece}
    {piece : Piece} (hpieces : pieces = before ++ piece :: after) (hfield : piece.isField = true) :
    written.spans[before.countP Piece.isField]? = some piece.span := by
  have hlength : ((before.filter Piece.isField).map Piece.span).length =
      before.countP Piece.isField := by
    rw [List.length_map, List.countP_eq_length_filter]
  rw [h.spans, hpieces, List.nil_append, List.filter_append, List.filter_cons_of_pos hfield,
    List.map_append, List.map_cons, ← hlength, List.getElem?_append_right (Nat.le_refl _),
    Nat.sub_self, List.getElem?_cons_zero]

/-- A text that nothing is written over stands in the columns of its span. -/
theorem Continues.hasCell (h : Continues {} [] pieces written) {before after : List Piece}
    {piece : Piece} (hpieces : pieces = before ++ piece :: after) (hfield : piece.isField = true)
    (htext : piece.text ≠ [])
    (hafter : ∀ later ∈ after, ∀ column, piece.Covers column → ¬ later.Covers column) :
    written.HasCell (before.countP Piece.isField) piece.text := by
  have hshown : ∀ n < piece.text.length,
      written.text.toList[piece.column + n]? = piece.text[n]? := by
    intro n hn
    have hcovers : piece.Covers (piece.column + n) := ⟨by omega, by omega⟩
    rw [h.shown before piece after hpieces _ hcovers fun later hlater => hafter later hlater _ hcovers,
      Nat.add_sub_cancel_left]
  have hcut : (written.text.toList.drop piece.column).take piece.text.length = piece.text := by
    refine List.ext_getElem? fun n => ?_
    rw [List.getElem?_take, List.getElem?_drop]
    split
    · exact hshown n ‹_›
    · exact (List.getElem?_eq_none (by omega)).symm
  have hpos := List.length_pos_iff.mpr htext
  have hlength : piece.column ≤ written.text.toList.length := by
    have hfirst := hshown 0 hpos
    rw [List.getElem?_eq_getElem hpos, Nat.add_zero] at hfirst
    obtain ⟨hlt, -⟩ := List.getElem?_eq_some_iff.mp hfirst
    omega
  refine ⟨written.text.toList.take piece.column,
    written.text.toList.drop (piece.column + piece.text.length), ?_, ?_⟩
  · -- The record is what is before the cut, the cut and what is behind it.
    rw [List.append_assoc, ← List.drop_drop]
    conv => rhs; rhs; lhs; rw [← hcut]
    rw [List.take_append_drop, List.take_append_drop]
  · rw [h.getElem?_spans hpieces hfield, List.length_take, Nat.min_eq_left hlength, Piece.span,
      Nat.max_eq_left hpos]

/-- A record with the texts that are written to it. -/
structure IsLaidOut (format : Format) (fields : List Field) (written : Written)
    (pieces : List Piece) : Prop where
  writes : Writes 0 0 format fields pieces
  /-- There is a span for each value that a descriptor takes. -/
  count : written.spans.length = min fields.length (format.countP Descriptor.takesField)
  /-- The rendering of each of these values is written to the columns of its span, and stands there
  in the end if no later descriptor writes to one of them. -/
  cell : ∀ i field d, fields[i]? = some field →
    (format.filter Descriptor.takesField)[i]? = some d →
    ∃ before piece after, pieces = before ++ piece :: after ∧
      before.countP Piece.isField = i ∧ piece.descriptor = d ∧
      render piece.scale d field = .ok (String.ofList piece.text) ∧
      written.spans[i]? = some piece.span ∧
      (piece.text ≠ [] →
        (∀ later ∈ after, ∀ column, piece.Covers column → ¬ later.Covers column) →
        written.HasCell i piece.text)
  /-- A column that no text is written to is blank. -/
  blank : ∀ column c, (∀ piece ∈ pieces, ¬ piece.Covers column) →
    written.text.toList[column]? = some c → c = ' '

/-- What is written tells where the values stand, whatever is skipped, overwritten or left over. -/
theorem layout_of_write (h : Format.write format fields = .ok written) :
    ∃! pieces, IsLaidOut format fields written pieces := by
  obtain ⟨pieces, hwrites, hcontinues⟩ := exists_writes h
  have hspans : written.spans = (pieces.filter Piece.isField).map Piece.span := hcontinues.spans
  refine ⟨pieces, ⟨hwrites, ?_, ?_, fun column c hcovers => hcontinues.blank column c hcovers rfl⟩,
    fun others hothers => hwrites.unique hothers.writes⟩
  · rw [hspans, List.length_map, ← List.countP_eq_length_filter, hwrites.countP_isField]
  · intro i field d hfield hd
    obtain ⟨before, piece, after, rfl, hcount, rfl, hrender⟩ := hwrites.exists_piece hfield hd
    have hisField : piece.isField = true := (List.mem_filter.mp (List.mem_of_getElem? hd)).2
    exact ⟨before, piece, after, rfl, hcount, rfl, hrender,
      hcount ▸ hcontinues.getElem?_spans rfl hisField,
      fun htext hafter => hcount ▸ hcontinues.hasCell rfl hisField htext hafter⟩

/-- Two columns are skipped, a literal overwrites the second letter of the first value, and the third
value is left over. -/
theorem layout_of_overwritten :
    Format.write [.skip 2, .chars none, .tab 4, .literal ['-'], .skip 2, .chars (some 3)]
        [.text "ab", .text "c", .text "d"] = .ok ⟨"  a-    c", [(3, 4), (7, 9)]⟩ ∧
      ∃! pieces, IsLaidOut [.skip 2, .chars none, .tab 4, .literal ['-'], .skip 2, .chars (some 3)]
        [.text "ab", .text "c", .text "d"] ⟨"  a-    c", [(3, 4), (7, 9)]⟩ pieces := by
  have hwrite : Format.write
      [.skip 2, .chars none, .tab 4, .literal ['-'], .skip 2, .chars (some 3)]
      [.text "ab", .text "c", .text "d"] = .ok ⟨"  a-    c", [(3, 4), (7, 9)]⟩ := by
    decide +kernel
  exact ⟨hwrite, layout_of_write hwrite⟩

end Hydroseries.Record
