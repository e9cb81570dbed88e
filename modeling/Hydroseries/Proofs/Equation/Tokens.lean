import Hydroseries.Proofs.Equation.Origin

/-!
# The tokens of an equation

An equation is written as the tokens of its tree, with gaps between them as one likes (`Written`).
A token may have several spellings (`Token.IsSpelled`); by its first character one knows what it can
be (`Token.begins`).

Parentheses stand around a subtree only where its operation binds more weakly than its place asks
for (`Expr.tokensAt`). From the weakest to the strongest: sums and differences, products and
quotients, the minus sign, powers, and everything that needs no parentheses at all.
-/

namespace Hydroseries.Equation

/-! ## Trees as tokens -/

inductive Token where
  | number (value : Double)
  | name (text : String)
  | dayOfYear
  | daysSince (origin : DayOrigin)
  | absValue
  | function (f : Function)
  | operator (op : BinaryOp)
  /-- The sign before an operand. -/
  | minus
  | opening
  | closing

/-- How strongly an operation binds its operands. -/
def BinaryOp.strength : BinaryOp → Nat
  | add | sub => 0
  | mul | div => 1
  | pow => 3

/-- What the left operand must bind at least. Equal operations group to the left, except powers. -/
def BinaryOp.leftNeed : BinaryOp → Nat
  | pow => 4
  | op => op.strength

/-- What the right operand must bind at least. An exponent may have a minus sign. -/
def BinaryOp.rightNeed : BinaryOp → Nat
  | pow => 2
  | op => op.strength + 1

def Expr.strength : Expr → Nat
  | binary op _ _ => op.strength
  | neg _ => 2
  | _ => 4

/-- Tokens, in parentheses if the expression binds less than its place needs. -/
def enclosedBelow (need strength : Nat) (tokens : List Token) : List Token :=
  if strength < need then .opening :: (tokens ++ [.closing]) else tokens

namespace Expr

/-- The tokens of an expression, with the parentheses that its operations require. -/
def tokens : Expr → List Token
  | number v => [.number v]
  | name n => [.name n]
  | dayOfYear => [.dayOfYear]
  | daysSince origin => [.daysSince origin]
  | absValue => [.absValue]
  | neg e => .minus :: enclosedBelow 2 e.strength e.tokens
  | binary op l r =>
    enclosedBelow op.leftNeed l.strength l.tokens ++
      .operator op :: enclosedBelow op.rightNeed r.strength r.tokens
  | call f e => .function f :: .opening :: (e.tokens ++ [.closing])

/-- The tokens of an expression at a place. -/
def tokensAt (need : Nat) (e : Expr) : List Token := enclosedBelow need e.strength e.tokens

theorem tokens_neg (e : Expr) : (neg e).tokens = .minus :: e.tokensAt 2 := rfl

theorem tokens_binary (op : BinaryOp) (l r : Expr) : (binary op l r).tokens =
    l.tokensAt op.leftNeed ++ .operator op :: r.tokensAt op.rightNeed := rfl

theorem tokensAt_of_le {need : Nat} {e : Expr} (h : need ≤ e.strength) :
    e.tokensAt need = e.tokens := if_neg (Nat.not_lt.mpr h)

theorem tokensAt_of_lt {need : Nat} {e : Expr} (h : e.strength < need) :
    e.tokensAt need = .opening :: (e.tokens ++ [.closing]) := if_pos h

/-- Between two needs that no operation has as its strength, nothing changes. -/
theorem tokensAt_congr {need need' : Nat} {e : Expr} (h : e.strength < need ↔ e.strength < need') :
    e.tokensAt need = e.tokensAt need' := by
  simp only [tokensAt, enclosedBelow, h]

end Expr

/-! ## Tokens as text -/

/-- A letter or `_`, then letters, digits, `_` and `.`. -/
def IsName (cs : List Char) : Prop :=
  ∃ c tail, cs = c :: tail ∧ opensName c = true ∧ ∀ d ∈ tail, continuesName d = true

/-- The texts that stand for a token. A number is any text that is read as it and has no sign. -/
def Token.IsSpelled : Token → List Char → Prop
  | number v, cs =>
    (∃ c ∈ cs.head?, Text.isDigit c = true ∨ c = '.') ∧
      (Text.Numeral.ofChars? cs).map Text.Numeral.toDouble = some v
  | name n, cs => cs = n.toList ∧ IsName cs
  | dayOfYear, cs => cs.map Char.toLower = "@_days_start_year".toList
  | daysSince origin, cs =>
    origin.IsWritable ∧ ∃ mark left right, cs = mark ++ left :: (origin.stamp ++ [right]) ∧
      mark.map Char.toLower = "@_days_".toList
  | absValue, cs => cs.map Char.toLower = "@_abs_value".toList
  | function f, cs => IsName cs ∧ Function.ofName? (String.ofList cs) = some f
  | operator .add, cs => cs = ['+']
  | operator .sub, cs => cs = ['-']
  | operator .mul, cs => cs = ['*']
  | operator .div, cs => cs = ['/']
  | operator .pow, cs => cs = ['^'] ∨ cs = ['*', '*']
  | minus, cs => cs = ['-']
  | opening, cs => cs = ['(']
  | closing, cs => cs = [')']

/-- The characters that a spelling of a token may begin with. -/
def Token.begins : Token → Char → Bool
  | number _, c => Text.isDigit c || c == '.'
  | name _, c | function _, c => opensName c
  | dayOfYear, c | daysSince _, c | absValue, c => c == '@'
  | operator .add, c => c == '+'
  | operator .sub, c | minus, c => c == '-'
  | operator .mul, c => c == '*'
  | operator .div, c => c == '/'
  | operator .pow, c => c == '^' || c == '*'
  | opening, c => c == '('
  | closing, c => c == ')'

/-- Tokens with gaps before, between and behind them. -/
inductive Written : List Token → List Char → Prop
  | nil {gap : List Char} (hgap : ∀ c ∈ gap, isGap c = true) : Written [] gap
  | cons {t : Token} {ts : List Token} {gap cs rest : List Char} (hgap : ∀ c ∈ gap, isGap c = true)
      (ht : t.IsSpelled cs) (hrest : Written ts rest) : Written (t :: ts) (gap ++ (cs ++ rest))

variable {cs rest : List Char}

theorem IsName.head (h : IsName cs) : ∃ c tail, cs = c :: tail ∧ opensName c = true := by
  obtain ⟨c, tail, rfl, hc, -⟩ := h
  exact ⟨c, tail, rfl, hc⟩

/-- A word in any case begins as the word does, if that is no letter. -/
theorem head_of_map_toLower {d : Char} {ds : List Char} (h : cs.map Char.toLower = d :: ds)
    (hd : ∀ c : Char, c.toLower = d → c = d) : ∃ tail, cs = d :: tail := by
  cases cs with
  | nil => cases h
  | cons c tail =>
    obtain ⟨hc, -⟩ := List.cons.inj h
    exact ⟨tail, by rw [hd c hc]⟩

theorem eq_at_of_toLower {c : Char} (h : c.toLower = '@') : c = '@' := by
  by_cases hc : c.val ≥ 'A'.val ∧ c.val ≤ 'Z'.val
  · rw [show c.toLower = _ from dif_pos hc] at h
    have hval := congrArg (fun c : Char => c.val.toNat) h
    simp at hval
    have hlow := UInt32.le_iff_toNat_le.mp hc.1
    have hhigh := UInt32.le_iff_toNat_le.mp hc.2
    simp at hlow hhigh
    omega
  · rwa [show c.toLower = c from dif_neg hc] at h

/-- A token begins as its kind does. -/
theorem Token.IsSpelled.head {t : Token} (h : t.IsSpelled cs) :
    ∃ c tail, cs = c :: tail ∧ t.begins c = true := by
  have hspecial {ds : List Char} (h : cs.map Char.toLower = '@' :: ds) :
      ∃ c tail, cs = c :: tail ∧ (c == '@') = true := by
    obtain ⟨tail, rfl⟩ := head_of_map_toLower h fun c => eq_at_of_toLower
    exact ⟨'@', tail, rfl, rfl⟩
  cases t with
  | number v =>
    obtain ⟨⟨c, hc, hkind⟩, -⟩ := h
    obtain ⟨tail, rfl⟩ := List.head?_eq_some_iff.mp hc
    exact ⟨c, tail, rfl, by simpa [begins] using hkind⟩
  | name n => exact h.2.head
  | function f => exact h.1.head
  | dayOfYear => exact hspecial h
  | absValue => exact hspecial h
  | daysSince origin =>
    obtain ⟨-, mark, left, right, rfl, hmark⟩ := h
    obtain ⟨tail, rfl⟩ := head_of_map_toLower hmark fun c => eq_at_of_toLower
    exact ⟨'@', _, rfl, rfl⟩
  | operator op =>
    cases op with
    | pow =>
      rcases h with rfl | rfl
      · exact ⟨'^', [], rfl, rfl⟩
      · exact ⟨'*', _, rfl, rfl⟩
    | _ => exact ⟨_, [], h, rfl⟩
  | minus => exact ⟨_, [], h, rfl⟩
  | opening => exact ⟨_, [], h, rfl⟩
  | closing => exact ⟨_, [], h, rfl⟩

/-! ## Reading one token -/

/-- What stands here does not go on with a name or a number. -/
def Stops (rest : List Char) : Prop := ∀ c ∈ rest.head?, continuesName c = false

theorem Stops.not_digit (h : Stops rest) : ∀ c ∈ rest.head?, Text.isDigit c = false := by
  intro c hc
  have hcontinues := h c hc
  simp only [continuesName, Char.isAlphanum, Char.isDigit, Bool.or_eq_false_iff] at hcontinues
  exact hcontinues.1.1.2

theorem Stops.ne {c d : Char} (h : Stops (c :: rest)) (hd : continuesName d = true) : c ≠ d := by
  rintro rfl
  rw [h c rfl] at hd
  cases hd

theorem takeWhile_append_of_stop {p : Char → Bool} (h : ∀ c ∈ rest.head?, p c = false) :
    (cs ++ rest).takeWhile p = cs.takeWhile p := by
  have hrest : rest.takeWhile p = [] := by
    cases rest with
    | nil => rfl
    | cons c tail => exact List.takeWhile_cons_of_neg (by simp [h c rfl])
  rw [List.takeWhile_append, hrest, List.append_nil]
  split
  next hall => exact ((List.takeWhile_prefix p).eq_of_length hall).symm
  next => rfl

theorem dropWhile_append_of_stop {p : Char → Bool} (h : ∀ c ∈ rest.head?, p c = false) :
    (cs ++ rest).dropWhile p = cs.dropWhile p ++ rest := by
  have hrest : rest.dropWhile p = rest := by
    cases rest with
    | nil => rfl
    | cons c tail => exact List.dropWhile_cons_of_neg (by simp [h c rfl])
  rw [List.dropWhile_append, hrest]
  split
  next hall => rw [List.isEmpty_iff.mp hall, List.nil_append]
  next => rfl

/-! ### Words -/

theorem word_append {w : String} (h : cs.map Char.toLower = w.toList.map Char.toLower) :
    word w (cs ++ rest) = .done () rest := by
  have hlength : w.toList.length = cs.length := by
    have := congrArg List.length h
    rwa [List.length_map, List.length_map, eq_comm] at this
  rw [word, Pattern.dropWord?, hlength, List.take_left, h, List.drop_left]
  simp

/-- A text that differs from a word at some place. -/
theorem word_miss {w : String} (i : Nat) {c d : Char} (hc : cs[i]? = some c)
    (hd : w.toList[i]? = some d) (hne : c.toLower ≠ d.toLower) : word w cs = .miss cs := by
  have hi : i < w.toList.length := (List.getElem?_eq_some_iff.mp hd).1
  rw [word, Pattern.dropWord?]
  split
  next rest heq =>
    split at heq
    next hmatch =>
      rw [Bool.and_eq_true, beq_iff_eq] at hmatch
      have hat := congrArg (·[i]?) hmatch.1
      simp only [List.getElem?_map, List.getElem?_take_of_lt hi, hc, hd, Option.map_some] at hat
      exact absurd (Option.some.inj hat) hne
    next => cases heq
  next => rfl

/-! ### Numbers -/

section Numbers

open Text (isDigit)

theorem digits_eq (cs : List Char) :
    digits cs = if cs.takeWhile isDigit = [] then .miss cs
      else .done (cs.takeWhile isDigit) (cs.dropWhile isDigit) := by
  rw [digits, List.span_eq_takeWhile_dropWhile]
  split
  next heq => rw [if_pos (Prod.mk.inj heq).1]
  next ds r hne heq =>
    obtain ⟨rfl, rfl⟩ := Prod.mk.inj heq
    rw [if_neg hne]

/-- Digits end where the next text stops. -/
theorem digits_append (hrest : Stops rest) :
    digits (cs ++ rest) = if cs.takeWhile isDigit = [] then .miss (cs ++ rest)
      else .done (cs.takeWhile isDigit) (cs.dropWhile isDigit ++ rest) := by
  rw [digits_eq, takeWhile_append_of_stop hrest.not_digit, dropWhile_append_of_stop hrest.not_digit]

theorem readDigits?_eq_some {n : Nat} (h : Text.readDigits? cs = some n) :
    cs.takeWhile isDigit = cs ∧ cs ≠ [] := by
  rw [Text.readDigits?] at h
  split at h
  next hcs =>
    simp only [Bool.and_eq_true, Bool.not_eq_true', List.isEmpty_eq_false_iff, List.all_eq_true]
      at hcs
    exact ⟨List.takeWhile_eq_self_iff.mpr hcs.2, hcs.1⟩
  next => cases h

theorem splitSign_append (h : (Text.splitSign cs).2 ≠ []) :
    (Text.splitSign (cs ++ rest)).2 = (Text.splitSign cs).2 ++ rest := by
  cases cs with
  | nil => exact absurd rfl h
  | cons c tail =>
    simp only [List.cons_append, Text.splitSign]
    split <;> simp_all

theorem exponent_append {e : Int} (h : Text.Numeral.readExponent? cs = some e)
    (hrest : Stops rest) : exponent (cs ++ rest) = .done () rest := by
  cases cs with
  | nil =>
    rw [List.nil_append]
    cases rest with
    | nil => rfl
    | cons c tail =>
      have he : c ≠ 'e' := hrest.ne (by decide)
      have hE : c ≠ 'E' := hrest.ne (by decide)
      simp [exponent, he, hE]
  | cons c tail =>
    simp only [Text.Numeral.readExponent?] at h
    split at h
    next hc =>
      obtain ⟨n, hn⟩ : ∃ n, Text.readDigits? (Text.splitSign tail).2 = some n := by
        cases hdigits : Text.readDigits? (Text.splitSign tail).2 with
        | none => simp [hdigits] at h
        | some n => exact ⟨n, rfl⟩
      obtain ⟨hall, hne⟩ := readDigits?_eq_some hn
      have hdrop : (Text.splitSign tail).2.dropWhile isDigit = [] := by
        rw [List.dropWhile_eq_nil_iff, ← List.takeWhile_eq_self_iff, hall]
      simp only [List.cons_append, exponent, if_pos hc, splitSign_append hne, digits_append hrest,
        hall, if_neg hne, hdrop, List.nil_append]
    next => cases h

theorem mantissa_point {n : Text.Numeral} {tail : List Char}
    (h : Text.Numeral.readUnsigned? false ('.' :: tail) = some n) (hrest : Stops rest) :
    ∃ after e, mantissa ('.' :: tail ++ rest) = .done () (after ++ rest) ∧
      Text.Numeral.readExponent? after = some e := by
  have hnone : isDigit '.' = false := by decide
  simp only [Text.Numeral.readUnsigned?, List.span_eq_takeWhile_dropWhile, List.takeWhile_cons,
    List.dropWhile_cons, hnone, Bool.false_eq_true, if_false, List.isEmpty_nil, Bool.true_and,
    List.isEmpty_iff] at h
  split at h
  next => cases h
  next hdigits =>
    obtain ⟨e, he, -⟩ := Option.map_eq_some_iff.mp h
    refine ⟨tail.dropWhile isDigit, e, ?_, he⟩
    simp only [List.cons_append, mantissa, digits_append hrest, if_neg hdigits, Reply.andThen]

theorem mantissa_digits {n : Text.Numeral} {c : Char} {tail : List Char} (hc : isDigit c = true)
    (h : Text.Numeral.readUnsigned? false (c :: tail) = some n) (hrest : Stops rest) :
    ∃ after e, mantissa (c :: tail ++ rest) = .done () (after ++ rest) ∧
      Text.Numeral.readExponent? after = some e := by
  simp only [Text.Numeral.readUnsigned?, List.span_eq_takeWhile_dropWhile,
    List.takeWhile_cons_of_pos hc, List.dropWhile_cons_of_pos hc, List.isEmpty_cons,
    Bool.false_and, Bool.false_eq_true, if_false] at h
  obtain ⟨e, he, -⟩ := Option.map_eq_some_iff.mp h
  have hdigits : digits (c :: tail ++ rest) = _ := digits_append hrest
  rw [List.takeWhile_cons_of_pos hc, List.dropWhile_cons_of_pos hc,
    if_neg (List.cons_ne_nil _ _)] at hdigits
  have hmantissa := mantissa.eq_2 (c :: tail ++ rest) fun _ heq => by
    rw [(List.cons.inj heq).1] at hc
    cases hc
  rw [hdigits, Reply.andThen] at hmantissa
  -- Behind the digits there is nothing, a point or the exponent.
  rcases hafter : tail.dropWhile isDigit with _ | ⟨d, after⟩
  · rw [hafter] at he hmantissa
    refine ⟨[], e, ?_, he⟩
    rw [hmantissa, List.nil_append]
    split
    next => exact absurd rfl (hrest.ne (by decide))
    next => rfl
  · rw [hafter] at he hmantissa
    by_cases hd : d = '.'
    · subst hd
      refine ⟨after.dropWhile isDigit, e, ?_, he⟩
      rw [hmantissa]
      exact congrArg (Reply.done ()) (dropWhile_append_of_stop hrest.not_digit)
    · refine ⟨d :: after, e, ?_, ?_⟩
      · rw [hmantissa]
        split
        next heq => exact absurd (List.cons.inj heq).1 hd
        next => rfl
      · split at he
        next heq => exact absurd (List.cons.inj heq).1 hd
        next => exact he

/-- The digits and the point are read up to the exponent. -/
theorem mantissa_append {n : Text.Numeral} (h : Text.Numeral.readUnsigned? false cs = some n)
    (hhead : ∃ c ∈ cs.head?, isDigit c = true ∨ c = '.') (hrest : Stops rest) :
    ∃ after e, mantissa (cs ++ rest) = .done () (after ++ rest) ∧
      Text.Numeral.readExponent? after = some e := by
  obtain ⟨c, hc, hkind⟩ := hhead
  obtain ⟨tail, rfl⟩ := List.head?_eq_some_iff.mp hc
  rcases hkind with hdigit | rfl
  · exact mantissa_digits hdigit h hrest
  · exact mantissa_point h hrest

/-- A number that begins with a digit or a point has no sign and is no word. -/
theorem ofChars?_unsigned (h : ∃ c ∈ cs.head?, isDigit c = true ∨ c = '.') :
    Text.Numeral.ofChars? cs = Text.Numeral.readUnsigned? false cs := by
  obtain ⟨c, hc, hkind⟩ := h
  obtain ⟨tail, rfl⟩ := List.head?_eq_some_iff.mp hc
  have hlower : c.toLower = c := by
    rcases hkind with hkind | rfl
    · exact Text.toLower_of_isDigit hkind
    · rfl
  have hword {d : Char} {ds : List Char} (hd : isDigit d = false ∧ d ≠ '.') :
      (String.ofList ((c :: tail).map Char.toLower) == String.ofList (d :: ds)) = false := by
    rw [beq_eq_false_iff_ne, List.map_cons, hlower]
    intro heq
    obtain ⟨rfl, -⟩ := List.cons.inj (String.ofList_injective heq)
    rcases hkind with hkind | hkind
    · rw [hd.1] at hkind
      cases hkind
    · exact hd.2 hkind
  simp only [Text.Numeral.ofChars?, Text.splitSign_unsigned hkind]
  rw [show "inf" = String.ofList ['i', 'n', 'f'] from rfl, hword (by decide),
    show "infinity" = String.ofList ['i', 'n', 'f', 'i', 'n', 'i', 't', 'y'] from rfl,
    hword (by decide), show "nan" = String.ofList ['n', 'a', 'n'] from rfl, hword (by decide)]
  rfl

/-- A number is read to its end. -/
theorem number_append {v : Double} (h : (Token.number v).IsSpelled cs) (hrest : Stops rest) :
    number (cs ++ rest) = .done (.number v) rest := by
  obtain ⟨hhead, hvalue⟩ := h
  obtain ⟨n, hn, rfl⟩ := Option.map_eq_some_iff.mp hvalue
  obtain ⟨tail, e, hmantissa, he⟩ :=
    mantissa_append (ofChars?_unsigned hhead ▸ hn) hhead hrest
  have htake : (cs ++ rest).take ((cs ++ rest).length - rest.length) = cs := by
    rw [List.length_append, Nat.add_sub_cancel, List.take_left]
  simp only [number, hmantissa, exponent_append he hrest, Reply.andThen, htake, hn]

/-- What begins neither with a digit nor with a point is no number. -/
theorem number_miss (h : ∀ c ∈ cs.head?, isDigit c = false ∧ c ≠ '.') :
    ∃ place, number cs = .miss place := by
  have hdigits : digits cs = .miss cs := by
    rw [digits_eq, if_pos]
    cases cs with
    | nil => rfl
    | cons c tail => exact List.takeWhile_cons_of_neg (by simp [h c rfl])
  refine ⟨cs, ?_⟩
  rw [number, mantissa.eq_2 cs fun _ heq => (h '.' (by rw [heq]; rfl)).2 rfl, hdigits]
  rfl

end Numbers

/-! ### Specials -/

theorem exactly_append {n : Nat} (h : cs.length = n) (rest : List Char) :
    exactly n (cs ++ rest) = .done cs rest := by
  rw [exactly, if_pos (by rw [List.length_append]; omega), ← h, List.take_left, List.drop_left]

/-- Two words in any case differ where their lower case does. -/
theorem word_miss_of_map {w v : String} (i : Nat) (h : cs.map Char.toLower = v.toList)
    (hi : i < v.toList.length) {d : Char} (hd : w.toList[i]? = some d)
    (hne : v.toList[i] ≠ d.toLower) (rest : List Char) :
    word w (cs ++ rest) = .miss (cs ++ rest) := by
  have hlength : cs.length = v.toList.length := by rw [← h, List.length_map]
  have hi' : i < cs.length := by omega
  have hat : cs[i].toLower = v.toList[i] := by simp only [← h, List.getElem_map]
  refine word_miss i (c := cs[i]) ?_ hd (hat ▸ hne)
  rw [List.getElem?_append_left (by omega), List.getElem?_eq_getElem]

theorem special_dayOfYear (h : Token.dayOfYear.IsSpelled cs) (rest : List Char) :
    special (cs ++ rest) = .done .dayOfYear rest := by
  rw [special, word_append (w := "@_days_start_year") (h.trans (by decide))]
  rfl

theorem special_absValue (h : Token.absValue.IsSpelled cs) (rest : List Char) :
    special (cs ++ rest) = .done .absValue rest := by
  rw [special, word_miss_of_map 2 h (by decide) (d := 'd') rfl (by decide),
    word_append (w := "@_abs_value") (h.trans (by decide))]
  rfl

theorem special_daysSince {origin : DayOrigin} (h : (Token.daysSince origin).IsSpelled cs)
    (rest : List Char) : special (cs ++ rest) = .done (.daysSince origin) rest := by
  obtain ⟨hwritable, mark, left, right, rfl, hmark⟩ := h
  obtain ⟨c, tail, hstamp, hc⟩ := origin.head_stamp
  have hlength : mark.length = 7 := by
    have := congrArg List.length hmark
    rwa [List.length_map] at this
  have htext : mark ++ left :: (origin.stamp ++ [right]) ++ rest =
      mark ++ ([left] ++ (origin.stamp ++ ([right] ++ rest))) := by simp
  -- A digit stands where the longer word has its `t`.
  have hstart : word "@_days_start_year" (mark ++ ([left] ++ (origin.stamp ++ ([right] ++ rest)))) =
      .miss (mark ++ ([left] ++ (origin.stamp ++ ([right] ++ rest)))) := by
    refine word_miss 8 (c := c) (d := 't') ?_ rfl ?_
    · rw [List.getElem?_append_right (by omega), hlength, hstamp]
      rfl
    · rw [Text.toLower_of_isDigit hc]
      rintro rfl
      cases hc
  have hread : daysSince (mark ++ ([left] ++ (origin.stamp ++ ([right] ++ rest)))) =
      .done (.daysSince origin) rest := by
    rw [daysSince, word_append (w := "@_days_") (hmark.trans (by decide)), Reply.andThen,
      exactly_append (List.length_singleton (a := left)), Reply.andThen,
      exactly_append (DayOrigin.length_stamp hwritable), Reply.andThen,
      exactly_append (List.length_singleton (a := right)), Reply.andThen,
      DayOrigin.readOrigin?_stamp hwritable]
  rw [htext, special, hstart, word_miss_of_map 2 hmark (by decide) (d := 'a') rfl (by decide)]
  exact hread

theorem special_miss (h : ∀ c ∈ cs.head?, c ≠ '@') : ∃ place, special cs = .miss place := by
  have hword {w : String} (hw : w.toList[0]? = some '@') : word w cs = .miss cs := by
    cases cs with
    | nil =>
      have hne : w.toList ≠ [] := fun heq => by rw [heq] at hw; cases hw
      rw [word, Pattern.dropWord?, if_neg (by simpa using hne)]
    | cons c tail => exact word_miss 0 rfl hw fun heq => h c rfl (eq_at_of_toLower heq)
  refine ⟨cs, ?_⟩
  rw [special, hword rfl, hword rfl, daysSince, hword rfl]
  rfl

/-! ### Names -/

/-- What begins a name begins no number. -/
theorem of_opensName {c : Char} (h : opensName c = true) : Text.isDigit c = false ∧ c ≠ '.' := by
  constructor
  · by_contra hdigit
    obtain ⟨-, hhigh⟩ := Text.isDigit_iff.mp ((Bool.not_eq_false _).mp hdigit)
    have hbelow (d : Char) (hd : 58 ≤ d.val.toNat) (hle : d.val ≤ c.val) : False :=
      absurd (hd.trans (UInt32.le_iff_toNat_le.mp hle)) (Nat.not_le.mpr (Nat.lt_succ_of_le hhigh))
    rcases Bool.or_eq_true_iff.mp h with hletter | hscore
    · rcases Bool.or_eq_true_iff.mp hletter with hcapital | hsmall
      · exact hbelow 'A' (by decide) (of_decide_eq_true hcapital).1
      · exact hbelow 'a' (by decide) (of_decide_eq_true (Bool.and_eq_true_iff.mp hsmall).1)
    · rw [eq_of_beq hscore] at hhigh
      exact absurd hhigh (by decide)
  · rintro rfl
    cases h

theorem identifier_append (h : IsName cs) (hrest : Stops rest) :
    identifier (cs ++ rest) = .done (String.ofList cs) rest := by
  obtain ⟨c, tail, rfl, hc, htail⟩ := h
  have htake : (tail ++ rest).takeWhile continuesName = tail := by
    rw [takeWhile_append_of_stop hrest, List.takeWhile_eq_self_iff.mpr htail]
  have hdrop : (tail ++ rest).dropWhile continuesName = rest := by
    rw [dropWhile_append_of_stop hrest, List.dropWhile_eq_nil_iff.mpr htail, List.nil_append]
  rw [List.cons_append, identifier, if_pos hc, htake, hdrop]

theorem identifier_miss (h : ∀ c ∈ cs.head?, opensName c = false) :
    ∃ place, identifier cs = .miss place := by
  cases cs with
  | nil => exact ⟨[], rfl⟩
  | cons c tail => exact ⟨c :: tail, by rw [identifier, if_neg (by simp [h c rfl])]⟩

end Hydroseries.Equation
