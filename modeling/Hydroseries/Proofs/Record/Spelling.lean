import Hydroseries.Proofs.Decimal.Digits
import Hydroseries.Proofs.Text.Blank
import Hydroseries.Record.Descriptor

/-!
# Record formats written and read back

Descriptors are written with letters of either case, with commas between them and with gaps around
them as one likes (`Spelled`), in parentheses or not. A descriptor is taken from the front of a text
just as it is spelled, if no digit follows (`takeDescriptor?_spelled`), and a comma or the end of the
format is no digit. So a format that is written in any of these ways is read back
(`read_of_spelled`).
-/

namespace Hydroseries.Record

/-! ## Spellings -/

/-- Decimal digits of a number; zeros may stand in front. -/
def IsNumeral (n : Nat) (cs : List Char) : Prop :=
  cs ≠ [] ∧ (∀ c ∈ cs, Text.isDigit c = true) ∧ Text.digitsValue cs = n

/-- A letter of either case with a number behind it. -/
def IsMarked (mark : Char) (n : Nat) (cs : List Char) : Prop :=
  ∃ letter digits, cs = letter :: digits ∧ letter.toLower = mark ∧ IsNumeral n digits

/-- A number with a letter of either case behind it. -/
def IsCounted (mark : Char) (n : Nat) (cs : List Char) : Prop :=
  ∃ digits letter, cs = digits ++ [letter] ∧ letter.toLower = mark ∧ IsNumeral n digits

/-- A letter of either case with two numbers behind it and a point between them. -/
def IsPaired (mark : Char) (width decimals : Nat) (cs : List Char) : Prop :=
  ∃ letter front back, cs = letter :: (front ++ '.' :: back) ∧ letter.toLower = mark ∧
    IsNumeral width front ∧ IsNumeral decimals back

namespace Descriptor

/-- The texts that stand for a descriptor. -/
def IsSpelled : Descriptor → List Char → Prop
  | literal text, cs => cs = '\'' :: (text ++ ['\''])
  | skip n, cs => IsCounted 'x' n cs
  | tab column, cs => IsMarked 't' column cs
  | chars none, cs => ∃ letter, cs = [letter] ∧ letter.toLower = 'a'
  | chars (some width), cs => IsMarked 'a' width cs
  | fixed width decimals, cs => IsPaired 'f' width decimals cs
  | exponent width decimals, cs => IsPaired 'e' width decimals cs
  | general width decimals, cs => IsPaired 'g' width decimals cs
  | scale k, cs => ∃ n : Nat, k = n ∧ IsCounted 'p' n cs

/-- A text without apostrophes, and numbers that are machine words; a scale factor is not negative
and a signed word of 32 bits. -/
def IsWritable : Descriptor → Prop
  | literal text => '\'' ∉ text
  | skip n | tab n | chars (some n) => n < 2 ^ 64
  | chars none => True
  | fixed width decimals | exponent width decimals | general width decimals =>
    width < 2 ^ 64 ∧ decimals < 2 ^ 64
  | scale k => 0 ≤ k ∧ k < 2 ^ 31

instance : DecidablePred IsWritable := fun d =>
  match d with
  | literal text => inferInstanceAs (Decidable ('\'' ∉ text))
  | skip n | tab n | chars (some n) => inferInstanceAs (Decidable (n < 2 ^ 64))
  | chars none => inferInstanceAs (Decidable True)
  | fixed width decimals | exponent width decimals | general width decimals =>
    inferInstanceAs (Decidable (width < 2 ^ 64 ∧ decimals < 2 ^ 64))
  | scale k => inferInstanceAs (Decidable (0 ≤ k ∧ k < 2 ^ 31))

/-- The usual spelling, in lower case. -/
def text : Descriptor → List Char
  | literal text => '\'' :: (text ++ ['\''])
  | skip n => Nat.toDigits 10 n ++ ['x']
  | tab column => 't' :: Nat.toDigits 10 column
  | chars none => ['a']
  | chars (some width) => 'a' :: Nat.toDigits 10 width
  | fixed width decimals => 'f' :: (Nat.toDigits 10 width ++ '.' :: Nat.toDigits 10 decimals)
  | exponent width decimals => 'e' :: (Nat.toDigits 10 width ++ '.' :: Nat.toDigits 10 decimals)
  | general width decimals => 'g' :: (Nat.toDigits 10 width ++ '.' :: Nat.toDigits 10 decimals)
  | scale k => Nat.toDigits 10 k.toNat ++ ['p']

end Descriptor

/-- Descriptors in a text, with gaps around each of them and a comma between neighbours. -/
inductive Spelled : Format → List Char → Prop
  | nil {gap : List Char} : (∀ c ∈ gap, isGap c = true) → Spelled [] gap
  | last {d : Descriptor} {cs : List Char} (front back : List Char) :
      (∀ c ∈ front, isGap c = true) → d.IsSpelled cs → (∀ c ∈ back, isGap c = true) →
      Spelled [d] (front ++ cs ++ back)
  | cons {d e : Descriptor} {ds : Format} {cs rest : List Char} (front back : List Char) :
      (∀ c ∈ front, isGap c = true) → d.IsSpelled cs → (∀ c ∈ back, isGap c = true) →
      Spelled (e :: ds) rest → Spelled (d :: e :: ds) (front ++ cs ++ back ++ ',' :: rest)

/-- The usual text of a format, without gaps and without parentheses. -/
def Format.text (format : Format) : List Char := [','].intercalate (format.map Descriptor.text)

theorem isNumeral_toDigits (n : Nat) : IsNumeral n (Nat.toDigits 10 n) :=
  ⟨Nat.toDigits_ne_nil, fun _ => Text.isDigit_of_mem_toDigits, Text.digitsValue_paddedDigits 0 n⟩

/-- The usual spelling of a descriptor that can be written is one of its spellings. -/
theorem Descriptor.isSpelled_text {d : Descriptor} (h : d.IsWritable) : d.IsSpelled d.text := by
  cases d with
  | literal text => rfl
  | skip n => exact ⟨_, 'x', rfl, rfl, isNumeral_toDigits n⟩
  | tab column => exact ⟨'t', _, rfl, rfl, isNumeral_toDigits column⟩
  | chars width =>
    cases width with
    | none => exact ⟨'a', rfl, rfl⟩
    | some width => exact ⟨'a', _, rfl, rfl, isNumeral_toDigits width⟩
  | fixed width decimals =>
    exact ⟨'f', _, _, rfl, rfl, isNumeral_toDigits width, isNumeral_toDigits decimals⟩
  | exponent width decimals =>
    exact ⟨'e', _, _, rfl, rfl, isNumeral_toDigits width, isNumeral_toDigits decimals⟩
  | general width decimals =>
    exact ⟨'g', _, _, rfl, rfl, isNumeral_toDigits width, isNumeral_toDigits decimals⟩
  | scale k =>
    exact ⟨k.toNat, (Int.toNat_of_nonneg h.1).symm, _, 'p', rfl, rfl, isNumeral_toDigits k.toNat⟩

theorem spelled_text {format : Format} (h : ∀ d ∈ format, d.IsWritable) :
    Spelled format format.text := by
  induction format with
  | nil => exact .nil nofun
  | cons d format ih =>
    obtain ⟨hd, hformat⟩ := List.forall_mem_cons.mp h
    have hspelled := Descriptor.isSpelled_text hd
    cases format with
    | nil => simpa [Format.text] using Spelled.last [] [] nofun hspelled nofun
    | cons e ds =>
      have hcons := Spelled.cons [] [] nofun hspelled nofun (ih hformat)
      simpa [Format.text, List.intercalate_cons_cons] using hcons

/-! ## Numbers and descriptors at the front of a text -/

variable {n : Nat} {cs digits rest : List Char} {d : Descriptor}

theorem takeNumber?_numeral (h : IsNumeral n digits) (hn : n < 2 ^ 64)
    (hrest : ∀ c ∈ rest.head?, Text.isDigit c = false) :
    takeNumber? (digits ++ rest) = some (n, rest) := by
  obtain ⟨hne, hdigits, rfl⟩ := h
  unfold takeNumber?
  rw [Text.span_of_all hdigits hrest]
  simp only [Bool.or_eq_true, List.isEmpty_iff, decide_eq_true_eq]
  rw [if_neg]
  rintro (hnil | hlarge)
  · exact hne hnil
  · exact absurd hn (Nat.not_lt.mpr hlarge)

theorem takeNumber?_eq_none (h : ∀ c ∈ cs.head?, Text.isDigit c = false) :
    takeNumber? cs = none := by
  have hspan : ([] ++ cs).span Text.isDigit = ([], cs) := Text.span_of_all nofun h
  rw [List.nil_append] at hspan
  unfold takeNumber?
  rw [hspan]
  rfl

theorem takePair?_paired {width decimals : Nat} {front back : List Char}
    (hwidth : IsNumeral width front) (hdecimals : IsNumeral decimals back)
    (h : width < 2 ^ 64 ∧ decimals < 2 ^ 64)
    (hrest : ∀ c ∈ rest.head?, Text.isDigit c = false) :
    takePair? (front ++ '.' :: (back ++ rest)) = some ((width, decimals), rest) := by
  have hpoint : ∀ c ∈ ('.' :: (back ++ rest)).head?, Text.isDigit c = false := by
    rintro _ ⟨⟩
    decide
  unfold takePair?
  rw [takeNumber?_numeral hwidth h.1 hpoint]
  simp only [Option.bind_eq_bind, Option.bind_some]
  rw [takeNumber?_numeral hdecimals h.2 hrest]
  rfl

/-- Behind a number, a letter tells what the number counts. -/
theorem takeDescriptor?_counted {letter : Char} (h : IsNumeral n digits) (hn : n < 2 ^ 64)
    (hletter : Text.isDigit letter = false) (rest : List Char) :
    takeDescriptor? (digits ++ letter :: rest) =
      if letter.toLower == 'x' then some (.skip n, rest)
      else if letter.toLower == 'p' then some (.scale (narrow n), rest)
      else none := by
  have hnumber : takeNumber? (digits ++ letter :: rest) = some (n, letter :: rest) :=
    takeNumber?_numeral h hn (by rintro _ ⟨⟩; exact hletter)
  obtain ⟨hne, hdigits, -⟩ := h
  obtain ⟨c, cs, rfl⟩ := List.exists_cons_of_ne_nil hne
  have hc := hdigits c List.mem_cons_self
  have hother : ∀ d, Text.isDigit d = false → c ≠ d := fun d hd heq => by
    rw [heq, hd] at hc
    cases hc
  unfold takeDescriptor?
  rw [List.cons_append] at hnumber ⊢
  simp only
  rw [if_neg (by simpa using hother '\'' (by decide)), Text.toLower_of_isDigit hc]
  split
  next => exact absurd rfl (hother 'e' (by decide))
  next => exact absurd rfl (hother 'f' (by decide))
  next => exact absurd rfl (hother 'g' (by decide))
  next => exact absurd rfl (hother 't' (by decide))
  next => exact absurd rfl (hother 'a' (by decide))
  next =>
    rw [hnumber]
    rfl

theorem narrow_of_lt {n : Nat} (h : n < 2 ^ 31) : narrow n = n := by
  unfold narrow
  rw [Int.bmod_def]
  norm_num
  omega

/-- A spelled descriptor is taken, if no digit follows. -/
theorem takeDescriptor?_spelled (h : d.IsSpelled cs) (hd : d.IsWritable)
    (hrest : ∀ c ∈ rest.head?, Text.isDigit c = false) :
    takeDescriptor? (cs ++ rest) = some (d, rest) := by
  have hquote : ∀ {letter mark : Char}, letter.toLower = mark → mark ≠ '\'' →
      ¬ (letter == '\'') = true := by
    rintro letter _ rfl hmark heq
    rw [eq_of_beq heq] at hmark
    exact hmark (by decide)
  have hdigit : ∀ {letter mark : Char}, letter.toLower = mark → Text.isDigit mark = false →
      Text.isDigit letter = false := by
    rintro letter _ rfl hmark
    by_contra hletter
    rw [Bool.not_eq_false] at hletter
    rw [Text.toLower_of_isDigit hletter, hletter] at hmark
    cases hmark
  cases d with
  | literal text =>
    obtain rfl := h
    have hother : ∀ c ∈ text, (c == '\'') = false := by
      intro c hc
      exact beq_false_of_ne fun heq => hd (heq ▸ hc)
    have hcut := Text.cutAt_append hother (beq_self_eq_true '\'') rest
    simp only [List.cons_append, List.append_assoc, List.nil_append, takeDescriptor?, hcut]
    rfl
  | skip n =>
    obtain ⟨digits, letter, rfl, hletter, hn⟩ := h
    rw [List.append_assoc, List.singleton_append,
      takeDescriptor?_counted hn hd (hdigit hletter (by decide)), hletter]
    rfl
  | tab column =>
    obtain ⟨letter, digits, rfl, hletter, hn⟩ := h
    rw [List.cons_append, takeDescriptor?, if_neg (hquote hletter (by decide)), hletter]
    simp only [takeNumber?_numeral hn hd hrest]
    rfl
  | chars width =>
    cases width with
    | none =>
      obtain ⟨letter, rfl, hletter⟩ := h
      rw [List.cons_append, takeDescriptor?, if_neg (hquote hletter (by decide)), hletter]
      simp only [List.nil_append, takeNumber?_eq_none hrest]
    | some width =>
      obtain ⟨letter, digits, rfl, hletter, hn⟩ := h
      rw [List.cons_append, takeDescriptor?, if_neg (hquote hletter (by decide)), hletter]
      simp only [takeNumber?_numeral hn hd hrest]
  | fixed width decimals | exponent width decimals | general width decimals =>
    obtain ⟨letter, front, back, rfl, hletter, hwidth, hdecimals⟩ := h
    rw [List.cons_append, takeDescriptor?, if_neg (hquote hletter (by decide)), hletter,
      List.append_assoc, List.cons_append]
    simp only [takePair?_paired hwidth hdecimals hd hrest]
    rfl
  | scale k =>
    obtain ⟨n, rfl, digits, letter, rfl, hletter, hn⟩ := h
    have hlow : n < 2 ^ 31 := by exact_mod_cast hd.2
    rw [List.append_assoc, List.singleton_append,
      takeDescriptor?_counted hn (by omega) (hdigit hletter (by decide)), hletter, narrow_of_lt hlow]
    rfl

/-! ## Formats -/

/-- The characters that a spelled descriptor may begin with. -/
def opensDescriptor (c : Char) : Bool :=
  c == '\'' || Text.isDigit c || ['a', 'e', 'f', 'g', 't'].contains c.toLower

theorem isGap_iff {c : Char} : isGap c = true ↔ c = ' ' ∨ c = '\t' ∨ c = '\r' ∨ c = '\n' := by
  simp [isGap, or_assoc]

theorem isBlank_of_isGap {c : Char} (h : isGap c = true) : Text.isBlank c = true := by
  rcases isGap_iff.mp h with rfl | rfl | rfl | rfl <;> decide

theorem isGap_of_opens {c : Char} (h : opensDescriptor c = true) : isGap c = false := by
  by_contra hgap
  rw [Bool.not_eq_false, isGap_iff] at hgap
  rcases hgap with rfl | rfl | rfl | rfl <;> revert h <;> decide

theorem opens_of_isSpelled (h : d.IsSpelled cs) : ∃ c tail, cs = c :: tail ∧
    opensDescriptor c = true := by
  have hnumber : ∀ {n : Nat} {digits : List Char} (tail : List Char), IsNumeral n digits →
      ∃ c tail', digits ++ tail = c :: tail' ∧ opensDescriptor c = true := by
    rintro n digits tail ⟨hne, hdigits, -⟩
    obtain ⟨c, rest, rfl⟩ := List.exists_cons_of_ne_nil hne
    exact ⟨c, rest ++ tail, rfl, by simp [opensDescriptor, hdigits c List.mem_cons_self]⟩
  have hletter : ∀ {letter mark : Char} (tail : List Char), letter.toLower = mark →
      mark ∈ ['a', 'e', 'f', 'g', 't'] → ∃ c tail', letter :: tail = c :: tail' ∧
        opensDescriptor c = true := by
    rintro letter _ tail rfl hmark
    exact ⟨letter, tail, rfl, by simp [opensDescriptor, List.mem_cons] at hmark ⊢; exact .inr hmark⟩
  cases d with
  | literal text => exact ⟨'\'', text ++ ['\''], h, by decide⟩
  | skip n =>
    obtain ⟨digits, letter, rfl, -, hn⟩ := h
    exact hnumber _ hn
  | scale k =>
    obtain ⟨n, -, digits, letter, rfl, -, hn⟩ := h
    exact hnumber _ hn
  | tab column =>
    obtain ⟨letter, digits, rfl, hmark, -⟩ := h
    exact hletter _ hmark (by decide)
  | chars width =>
    cases width with
    | none =>
      obtain ⟨letter, rfl, hmark⟩ := h
      exact hletter _ hmark (by decide)
    | some width =>
      obtain ⟨letter, digits, rfl, hmark, -⟩ := h
      exact hletter _ hmark (by decide)
  | fixed width decimals | exponent width decimals | general width decimals =>
    obtain ⟨letter, front, back, rfl, hmark, -⟩ := h
    exact hletter _ hmark (by decide)

theorem skipGap_append {gap : List Char} (hgap : ∀ c ∈ gap, isGap c = true)
    (hrest : ∀ c ∈ rest.head?, isGap c = false) : skipGap (gap ++ rest) = rest := by
  rw [skipGap, List.dropWhile_append_of_pos hgap]
  cases rest with
  | nil => rfl
  | cons c cs => exact List.dropWhile_cons_of_neg (by simpa using hrest c rfl)

theorem skipSeparator_comma {gap : List Char} (hgap : ∀ c ∈ gap, isGap c = true)
    (rest : List Char) : skipSeparator (gap ++ ',' :: rest) = rest := by
  rw [skipSeparator, skipGap_append hgap (by rintro _ ⟨⟩; decide)]
  rfl

/-- What may stand behind the descriptors of a format: nothing, or the end of its parentheses. -/
def IsEnd (cs : List Char) : Prop := cs = [] ∨ cs = [')']

theorem skipSeparator_end {gap : List Char} (hgap : ∀ c ∈ gap, isGap c = true) (h : IsEnd rest) :
    skipSeparator (gap ++ rest) = rest := by
  rcases h with rfl | rfl
  · rw [skipSeparator, skipGap_append hgap (by simp)]
  · rw [skipSeparator, skipGap_append hgap (by rintro _ ⟨⟩; decide)]
    rfl

theorem takeDescriptors_end {gap : List Char} (hgap : ∀ c ∈ gap, isGap c = true) (h : IsEnd rest)
    (fuel : Nat) : takeDescriptors fuel (gap ++ rest) = ([], gap ++ rest) := by
  cases fuel with
  | zero => rfl
  | succ fuel =>
    rcases h with rfl | rfl
    · rw [takeDescriptors, skipGap_append hgap (by simp)]
      rfl
    · rw [takeDescriptors, skipGap_append hgap (by rintro _ ⟨⟩; decide)]
      rfl

/-- One round takes a spelled descriptor with what separates it from the next one. -/
theorem takeDescriptors_succ {gap : List Char} (hgap : ∀ c ∈ gap, isGap c = true)
    (h : d.IsSpelled cs) (hd : d.IsWritable) (hrest : ∀ c ∈ rest.head?, Text.isDigit c = false)
    (fuel : Nat) : takeDescriptors (fuel + 1) (gap ++ cs ++ rest) =
      (d :: (takeDescriptors fuel (skipSeparator rest)).1,
        (takeDescriptors fuel (skipSeparator rest)).2) := by
  have hskip : skipGap (gap ++ (cs ++ rest)) = cs ++ rest := by
    obtain ⟨c, tail, rfl, hc⟩ := opens_of_isSpelled h
    exact skipGap_append hgap (by rintro _ ⟨⟩; exact isGap_of_opens hc)
  rw [List.append_assoc, takeDescriptors, hskip, takeDescriptor?_spelled h hd hrest]

theorem head_gap_append {gap : List Char} (hgap : ∀ c ∈ gap, isGap c = true)
    (hrest : ∀ c ∈ rest.head?, Text.isDigit c = false) :
    ∀ c ∈ (gap ++ rest).head?, Text.isDigit c = false := by
  cases gap with
  | nil => exact hrest
  | cons g gap =>
    rintro _ ⟨⟩
    rcases isGap_iff.mp (hgap g List.mem_cons_self) with rfl | rfl | rfl | rfl <;> decide

/-- Spelled descriptors are taken all together, up to the end of the format. -/
theorem takeDescriptors_spelled {format : Format} (h : Spelled format cs) (hne : format ≠ [])
    (hformat : ∀ d ∈ format, d.IsWritable) (hrest : IsEnd rest) {fuel : Nat}
    (hfuel : format.length ≤ fuel) : takeDescriptors fuel (cs ++ rest) = (format, rest) := by
  induction h generalizing fuel with
  | nil _ => exact absurd rfl hne
  | @last d cs front back hfront hd hback =>
    obtain ⟨fuel, rfl⟩ := Nat.exists_eq_add_one.mpr hfuel
    have hdigit : ∀ c ∈ rest.head?, Text.isDigit c = false := by
      rcases hrest with rfl | rfl
      · simp
      · rintro _ ⟨⟩
        decide
    have hdone := takeDescriptors_end (List.forall_mem_nil _) hrest fuel
    rw [List.append_assoc, takeDescriptors_succ hfront hd (hformat d List.mem_cons_self)
      (head_gap_append hback hdigit), skipSeparator_end hback hrest]
    rw [List.nil_append] at hdone
    rw [hdone]
  | @cons d e ds cs more front back hfront hd hback _ ih =>
    obtain ⟨fuel, rfl⟩ := Nat.exists_eq_add_one.mpr (Nat.lt_of_lt_of_le (Nat.succ_pos _) hfuel)
    have hdigit : ∀ c ∈ (',' :: (more ++ rest)).head?, Text.isDigit c = false := by
      rintro _ ⟨⟩
      decide
    obtain ⟨hhead, htail⟩ := List.forall_mem_cons.mp hformat
    rw [List.append_assoc (front ++ cs), List.append_assoc (front ++ cs), List.append_assoc back,
      List.cons_append, takeDescriptors_succ hfront hd hhead (head_gap_append hback hdigit),
      skipSeparator_comma hback,
      ih (List.cons_ne_nil e ds) htail (Nat.le_of_succ_le_succ hfuel)]

theorem Spelled.length_le {format : Format} (h : Spelled format cs) : format.length ≤ cs.length := by
  induction h with
  | nil _ => exact Nat.zero_le _
  | last _ _ _ hd _ =>
    obtain ⟨c, tail, rfl, -⟩ := opens_of_isSpelled hd
    simp only [List.length_append, List.length_cons, List.length_nil]
    omega
  | cons _ _ _ _ _ _ ih =>
    simp only [List.length_append, List.length_cons] at ih ⊢
    omega

/-- A spelled format does not begin with a parenthesis. -/
theorem Spelled.head_ne {format : Format} (h : Spelled format cs) : cs.head? ≠ some '(' := by
  have hgap : ∀ {gap rest : List Char}, (∀ c ∈ gap, isGap c = true) → rest.head? ≠ some '(' →
      (gap ++ rest).head? ≠ some '(' := by
    intro gap rest hgap hrest
    cases gap with
    | nil => exact hrest
    | cons g gap =>
      rcases isGap_iff.mp (hgap g List.mem_cons_self) with rfl | rfl | rfl | rfl <;> simp
  have hspelled : ∀ {d : Descriptor} {cs : List Char} (rest : List Char), d.IsSpelled cs →
      (cs ++ rest).head? ≠ some '(' := by
    intro d cs rest hd heq
    obtain ⟨c, tail, rfl, hc⟩ := opens_of_isSpelled hd
    obtain rfl : c = '(' := Option.some.inj heq
    revert hc
    decide
  cases h with
  | nil hall => simpa using hgap hall (show ([] : List Char).head? ≠ some '(' by simp)
  | last _ _ hfront hd _ =>
    rw [List.append_assoc]
    exact hgap hfront (hspelled _ hd)
  | cons _ _ hfront hd _ _ =>
    rw [List.append_assoc, List.append_assoc]
    exact hgap hfront (hspelled _ hd)

/-- In the text of a format its descriptors are taken, and nothing but gaps stays before the end. -/
theorem exists_takeDescriptors {format : Format} (h : Spelled format cs)
    (hformat : ∀ d ∈ format, d.IsWritable) (hrest : IsEnd rest) {fuel : Nat}
    (hfuel : format.length ≤ fuel) : ∃ gap, (∀ c ∈ gap, isGap c = true) ∧ (cs = gap ∨ gap = []) ∧
      takeDescriptors fuel (cs ++ rest) = (format, gap ++ rest) := by
  cases format with
  | nil =>
    cases h with
    | nil hgap => exact ⟨cs, hgap, .inl rfl, takeDescriptors_end hgap hrest fuel⟩
  | cons d ds =>
    exact ⟨[], nofun, .inr rfl, takeDescriptors_spelled h (List.cons_ne_nil d ds) hformat hrest hfuel⟩

/-- Descriptors that can be written can be written, and from each way of writing them, in parentheses
or, without gaps at the ends, as they are, they are read back. -/
theorem read_of_spelled {format : Format} (hformat : ∀ d ∈ format, d.IsWritable) :
    Spelled format format.text ∧ ∀ cs, Spelled format cs →
      Format.read (String.ofList ('(' :: (cs ++ [')']))) = .ok format ∧
      ((∀ c ∈ cs.head?, Text.isBlank c = false) → (∀ c ∈ cs.getLast?, Text.isBlank c = false) →
        Format.read (String.ofList cs) = .ok format) := by
  refine ⟨spelled_text hformat, fun cs h => ⟨?_, fun hfront hback => ?_⟩⟩
  · have htrim : Text.trimChars ('(' :: (cs ++ [')'])) = '(' :: (cs ++ [')']) := by
      refine Text.trimChars_of_ends (by rintro _ ⟨⟩; decide) fun c hc => ?_
      rw [← List.cons_append, List.getLast?_concat] at hc
      cases hc
      decide
    have hfuel : format.length ≤ (cs ++ [')']).length := by
      rw [List.length_append]
      exact Nat.le_add_right_of_le h.length_le
    obtain ⟨gap, hgap, -, htake⟩ := exists_takeDescriptors h hformat (.inr rfl) hfuel
    unfold Format.read
    rw [String.toList_ofList, htrim]
    simp only [htake]
    rw [if_pos (skipGap_append hgap (by rintro _ ⟨⟩; decide))]
  · obtain ⟨gap, hgap, hwhole, htake⟩ :=
      exists_takeDescriptors h hformat (show IsEnd [] from .inl rfl) h.length_le
    -- Where nothing but a gap is written, it is at an end.
    have hnil : gap = [] := by
      rcases hwhole with hwhole | hnil
      · cases gap with
        | nil => rfl
        | cons c gap =>
          have hblank := isBlank_of_isGap (hgap c List.mem_cons_self)
          rw [hfront c (by rw [hwhole]; rfl)] at hblank
          cases hblank
      · exact hnil
    subst hnil
    rw [List.append_nil, List.nil_append] at htake
    unfold Format.read
    rw [String.toList_ofList, Text.trimChars_of_ends hfront hback]
    dsimp only
    split
    next rest => exact absurd rfl h.head_ne
    next => rw [htake]

/-- Descriptors of many kinds, the first of them to move to a column. -/
def mixedFormat : Format := [.tab 5, .chars none, .literal [' ', ','], .scale 1, .general 14 7]

theorem read_of_spelled_mixed : (∀ d ∈ mixedFormat, d.IsWritable) ∧
    Format.read "(t05,\tA ,\n' ,',1P , g14.07 )" = .ok mixedFormat ∧
    Format.read "t05,\tA ,\n' ,',1P , g14.07" = .ok mixedFormat := by
  have hgap : ∀ {c : Char}, isGap c = true → ∀ d ∈ [c], isGap d = true :=
    fun hc => List.forall_mem_singleton.mpr hc
  have hnumber : ∀ {n : Nat} {digits : List Char}, digits ≠ [] → digits.all Text.isDigit = true →
      Text.digitsValue digits = n → IsNumeral n digits :=
    fun hne hdigits hvalue => ⟨hne, List.all_eq_true.mp hdigits, hvalue⟩
  have hspelled (back : List Char) (hback : ∀ c ∈ back, isGap c = true) :
      Spelled mixedFormat ("t05,\tA ,\n' ,',1P , g14.07".toList ++ back) := by
    have hgeneral : (Descriptor.general 14 7).IsSpelled "g14.07".toList :=
      ⟨'g', ['1', '4'], ['0', '7'], rfl, by decide, hnumber (by decide) (by decide) (by decide),
        hnumber (by decide) (by decide) (by decide)⟩
    have hscale : (Descriptor.scale 1).IsSpelled "1P".toList :=
      ⟨1, rfl, ['1'], 'P', rfl, by decide, hnumber (by decide) (by decide) (by decide)⟩
    have hliteral : (Descriptor.literal [' ', ',']).IsSpelled "' ,'".toList := rfl
    have hchars : (Descriptor.chars none).IsSpelled "A".toList := ⟨'A', rfl, by decide⟩
    have htab : (Descriptor.tab 5).IsSpelled "t05".toList :=
      ⟨'t', ['0', '5'], rfl, by decide, hnumber (by decide) (by decide) (by decide)⟩
    exact .cons [] [] nofun htab nofun <| .cons ['\t'] [' '] (hgap rfl) hchars (hgap rfl) <|
      .cons ['\n'] [] (hgap rfl) hliteral nofun <| .cons [] [' '] nofun hscale (hgap rfl) <|
      .last [' '] back (hgap rfl) hgeneral hback
  obtain ⟨-, hread⟩ := read_of_spelled (show ∀ d ∈ mixedFormat, d.IsWritable by decide)
  refine ⟨by decide, (hread _ (hspelled [' '] (hgap rfl))).1, (hread _ (hspelled [] nofun)).2 ?_ ?_⟩
  · rintro _ ⟨⟩
    decide
  · rintro _ ⟨⟩
    decide

end Hydroseries.Record
