import Hydroseries.Proofs.Equation.Tokens

/-!
# Equations written and read back

Every reader of the grammar takes from a text exactly the tokens of the tree that it returns,
whatever follows them, as long as what follows cannot belong to the same level (`Follows`). The
readers of sums and products go on from what they have read so far; for them the statement is about
where they stand after the tokens of a tree (`ReadsChain`), so that the tree may be the left operand
of what comes next. The length of the text bounds the depth of parentheses and the length of every
chain. Together: a tree that is written in any of these ways is read back (`read_of_written`).
-/

namespace Hydroseries.Equation

variable {t : Token} {ts : List Token} {cs rest : List Char} {c : Char} {e l r : Expr} {need : Nat}

/-! ## Tokens at the front of a text -/

theorem length_skipGap_le (cs : List Char) : (skipGap cs).length ≤ cs.length :=
  (List.dropWhile_suffix isGap).length_le

/-- No token begins with a gap. -/
theorem begins_of_isGap (h : isGap c = true) : t.begins c = false := by
  simp only [isGap, Bool.or_eq_true, beq_iff_eq] at h
  rcases h with ((rfl | rfl) | rfl) | rfl <;>
    cases t with
    | operator op => cases op <;> rfl
    | _ => rfl

namespace Written

theorem skip_nil (h : Written [] cs) : skipGap cs = [] := by
  cases h with
  | nil hgap => exact List.dropWhile_eq_nil_iff.mpr hgap

/-- The first token stands behind the first gap. -/
theorem skip_cons (h : Written (t :: ts) cs) :
    ∃ w rest, skipGap cs = w ++ rest ∧ t.IsSpelled w ∧ Written ts rest := by
  cases h with
  | @cons _ _ gap w rest hgap ht hrest =>
    refine ⟨w, rest, ?_, ht, hrest⟩
    obtain ⟨c, tail, rfl, hc⟩ := ht.head
    have hne : ¬isGap c = true := fun h => by rw [begins_of_isGap h] at hc; cases hc
    rw [skipGap, List.dropWhile_append_of_pos hgap, List.cons_append,
      List.dropWhile_cons_of_neg hne]

theorem skip (h : Written ts cs) : Written ts (skipGap cs) := by
  cases ts with
  | nil =>
    rw [h.skip_nil]
    exact .nil (by simp)
  | cons t ts =>
    obtain ⟨w, rest, heq, ht, hrest⟩ := h.skip_cons
    rw [heq]
    exact Written.cons (List.forall_mem_nil _) ht hrest

/-- The first character behind the first gap is one that the first token begins with. -/
theorem head_skip (h : Written (t :: ts) cs) : ∀ c ∈ (skipGap cs).head?, t.begins c = true := by
  obtain ⟨w, rest, heq, ht, -⟩ := h.skip_cons
  obtain ⟨c, tail, rfl, hc⟩ := ht.head
  rw [heq]
  rintro d hd
  cases hd
  exact hc

/-- A text begins with a gap or as its first token does. -/
theorem head (h : Written ts cs) :
    ∀ c ∈ cs.head?, isGap c = true ∨ ∃ t ∈ ts.head?, t.begins c = true := by
  intro c hc
  by_cases hgap : isGap c = true
  · exact .inl hgap
  · obtain ⟨tail, rfl⟩ := List.head?_eq_some_iff.mp hc
    have hskip : skipGap (c :: tail) = c :: tail := List.dropWhile_cons_of_neg hgap
    cases ts with
    | nil =>
      rw [h.skip_nil] at hskip
      cases hskip
    | cons t ts => exact .inr ⟨t, rfl, h.head_skip c (by rw [hskip]; rfl)⟩

theorem stops (h : Written ts cs)
    (hts : ∀ t ∈ ts.head?, ∀ c, t.begins c = true → continuesName c = false) : Stops cs := by
  intro c hc
  rcases h.head c hc with hgap | ⟨t, ht, hbegins⟩
  · simp only [isGap, Bool.or_eq_true, beq_iff_eq] at hgap
    rcases hgap with ((rfl | rfl) | rfl) | rfl <;> rfl
  · exact hts t ht c hbegins

/-- A token of one character is taken with the gaps around it. -/
theorem sign (h : Written (t :: ts) cs) (ht : ∀ w, t.IsSpelled w → w = [c]) :
    ∃ rest, sign c cs = .done () rest ∧ Written ts rest ∧ rest.length < cs.length := by
  obtain ⟨w, rest, heq, hw, hrest⟩ := h.skip_cons
  obtain rfl := ht w hw
  have hlength := length_skipGap_le cs
  rw [heq, List.length_append, List.length_singleton] at hlength
  refine ⟨skipGap rest, ?_, hrest.skip, ?_⟩
  · rw [Equation.sign, heq]
    simp
  · have := length_skipGap_le rest
    omega

theorem sign_miss (h : Written ts cs) (hc : ∀ t ∈ ts.head?, t.begins c = false) :
    ∃ place, Equation.sign c cs = .miss place := by
  rw [Equation.sign]
  cases ts with
  | nil => exact ⟨[], by rw [h.skip_nil]⟩
  | cons t ts =>
    rcases heq : skipGap cs with _ | ⟨d, tail⟩
    · exact ⟨[], rfl⟩
    · have hd := h.head_skip d (by rw [heq]; rfl)
      have hne : d ≠ c := by
        rintro rfl
        rw [hc t rfl] at hd
        cases hd
      exact ⟨d :: tail, by simp [hne]⟩

theorem powerSign (h : Written (.operator .pow :: ts) cs) :
    ∃ rest, powerSign cs = .done () rest ∧ Written ts rest ∧ rest.length < cs.length := by
  obtain ⟨w, rest, hskip, hw, hrest⟩ := h.skip_cons
  have hcs := length_skipGap_le cs
  have hgap := length_skipGap_le rest
  refine ⟨skipGap rest, ?_, hrest.skip, ?_⟩
  · rw [Equation.powerSign, hskip]
    rcases hw with rfl | rfl <;> rfl
  · rw [hskip] at hcs
    rcases hw with rfl | rfl <;> simp only [List.length_append, List.length_cons] at hcs <;> omega

end Written

/-! ## What may follow -/

/-- Tokens that an operand may begin with. -/
def Token.opensOperand : Token → Bool
  | operator _ | closing => false
  | _ => true

theorem Token.begins_of_opensOperand (h : t.opensOperand = true) : t.begins '*' = false := by
  cases t with
  | operator op => cases h
  | closing => cases h
  | _ => rfl

/-- What may stand behind an expression that binds at least as its place needs: nothing, the end of
the parentheses around it, or an operation that binds more weakly. -/
inductive Follows (need : Nat) : List Token → Prop
  | nil : Follows need []
  | closing (ts : List Token) : Follows need (.closing :: ts)
  | operator {op : BinaryOp} {t : Token} {ts : List Token} (hop : op.strength < need)
      (ht : t.opensOperand = true) : Follows need (.operator op :: t :: ts)

namespace Follows

theorem mono {need' : Nat} (h : Follows need ts) (hle : need ≤ need') : Follows need' ts := by
  cases h with
  | nil => exact .nil
  | closing ts => exact .closing ts
  | operator hop ht => exact .operator (hop.trans_le hle) ht

theorem head (h : Follows need ts) : ∀ t ∈ ts.head?, t = .closing ∨ ∃ op, t = .operator op := by
  rintro t ht
  cases h with
  | nil => cases ht
  | closing ts => cases ht; exact .inl rfl
  | operator hop hopens => cases ht; exact .inr ⟨_, rfl⟩

/-- No name and no number goes on behind an expression. -/
theorem stops (h : Follows need ts) (hw : Written ts cs) : Stops cs := by
  refine hw.stops fun t ht c hc => ?_
  rcases h.head t ht with rfl | ⟨op, rfl⟩
  · rw [eq_of_beq hc]
    rfl
  · cases op with
    | pow =>
      rcases Bool.or_eq_true_iff.mp hc with hc | hc <;> rw [eq_of_beq hc] <;> rfl
    | _ => rw [eq_of_beq hc]; rfl

/-- A name with no argument is no call. -/
theorem not_opening (h : Follows need ts) : ∀ t ∈ ts.head?, t.begins '(' = false := by
  intro t ht
  rcases h.head t ht with rfl | ⟨op, rfl⟩
  · rfl
  · cases op <;> rfl

/-- A product is no power: what begins an operand is no `*`. -/
theorem powerSign_miss (h : Follows need ts) (hneed : need ≤ 3) (hw : Written ts cs) :
    ∃ place, powerSign cs = .miss place := by
  refine ⟨skipGap cs, ?_⟩
  have hpow {op : BinaryOp} (hop : op.strength < need) : op ≠ .pow := by
    rintro rfl
    exact absurd (hop.trans_le hneed) (by decide)
  rw [powerSign]
  split
  next tail heq =>
    cases h with
    | nil => rw [hw.skip_nil] at heq; cases heq
    | closing ts => cases hw.head_skip '*' (by rw [heq]; rfl)
    | @operator op t ts hop ht =>
      obtain ⟨w, rest, hskip, hspelled, hrest⟩ := hw.skip_cons
      cases op with
      | mul =>
        rw [heq, show w = ['*'] from hspelled] at hskip
        obtain ⟨-, rfl⟩ := List.cons.inj hskip
        rcases hrest.head '*' rfl with hgap | ⟨u, hu, hbegins⟩
        · cases hgap
        · cases hu
          rw [Token.begins_of_opensOperand ht] at hbegins
          cases hbegins
      | pow => exact absurd rfl (hpow hop)
      | _ => cases hw.head_skip '*' (by rw [heq]; rfl)
  next tail heq =>
    cases h with
    | nil => rw [hw.skip_nil] at heq; cases heq
    | closing ts => cases hw.head_skip '^' (by rw [heq]; rfl)
    | @operator op t ts hop ht =>
      cases op with
      | pow => exact absurd rfl (hpow hop)
      | _ => cases hw.head_skip '^' (by rw [heq]; rfl)
  next => rfl

end Follows

/-! ## The first token of a tree -/

/-- An expression begins as an operand does. -/
theorem opensOperand_of_head : ∀ (e : Expr) (need : Nat),
    ∃ t ts, e.tokensAt need = t :: ts ∧ t.opensOperand = true := by
  have henclosed {e : Expr} (h : ∃ t ts, e.tokens = t :: ts ∧ t.opensOperand = true) (need : Nat) :
      ∃ t ts, e.tokensAt need = t :: ts ∧ t.opensOperand = true := by
    by_cases hneed : e.strength < need
    · exact ⟨_, _, Expr.tokensAt_of_lt hneed, rfl⟩
    · rwa [Expr.tokensAt_of_le (Nat.le_of_not_lt hneed)]
  intro e
  refine henclosed ?_
  induction e with
  | number v => exact ⟨_, _, rfl, rfl⟩
  | name n => exact ⟨_, _, rfl, rfl⟩
  | dayOfYear => exact ⟨_, _, rfl, rfl⟩
  | daysSince origin => exact ⟨_, _, rfl, rfl⟩
  | absValue => exact ⟨_, _, rfl, rfl⟩
  | neg e ih => exact ⟨_, _, rfl, rfl⟩
  | call f e ih => exact ⟨_, _, rfl, rfl⟩
  | binary op l r ihl ihr =>
    obtain ⟨t, ts, heq, ht⟩ := henclosed ihl op.leftNeed
    exact ⟨t, _, by rw [Expr.tokens_binary, heq, List.cons_append], ht⟩

/-! ## Chains of operations of one level -/

/-- The reader takes the tokens of an expression from a text and leaves those behind them. -/
def Reads (reader : Reader Expr) (e : Expr) (need : Nat) (cs : List Char) : Prop :=
  ∀ ⦃ts⦄, Written (e.tokensAt need ++ ts) cs → Follows need ts →
    ∃ rest, reader cs = .done e rest ∧ Written ts rest ∧ rest.length < cs.length

variable {signs : List (Char × BinaryOp)} {operand : Reader Expr} {fuel : Nat}

/-- Reading an operand and going on leads to where the tokens of the expression end, with fuel for
what is left of the text. -/
def ReadsChain (signs : List (Char × BinaryOp)) (operand : Reader Expr) (fuel : Nat) (e : Expr)
    (need : Nat) (cs : List Char) : Prop :=
  ∀ ⦃ts⦄, Written (e.tokensAt need ++ ts) cs → Follows (need + 1) ts →
    ∃ rest k, ((operand cs).andThen fun e rest => chain signs operand fuel e rest) =
      chain signs operand k e rest ∧ Written ts rest ∧ rest.length < cs.length ∧ rest.length < k

/-- The signs of a chain are those of the operations of one strength, each of one character, which
group to the left. -/
structure IsLevel (need : Nat) (signs : List (Char × BinaryOp)) : Prop where
  leftNeed : ∀ op : BinaryOp, op.strength = need → op.leftNeed = need
  rightNeed : ∀ op : BinaryOp, op.strength = need → op.rightNeed = need + 1
  lookup : ∀ op : BinaryOp, op.strength = need → ∃ c, signs.lookup c = some op ∧
    ∀ w, (Token.operator op).IsSpelled w → w = [c]
  lookup_closing : signs.lookup ')' = none
  lookup_weaker : ∀ op : BinaryOp, op.strength < need → ∀ c, (Token.operator op).begins c = true →
    signs.lookup c = none

theorem isLevel_sum : IsLevel 0 [('+', .add), ('-', .sub)] where
  leftNeed op h := by cases op <;> first | rfl | cases h
  rightNeed op h := by cases op <;> first | rfl | cases h
  lookup op h := by
    cases op with
    | add => exact ⟨'+', rfl, fun w hw => hw⟩
    | sub => exact ⟨'-', rfl, fun w hw => hw⟩
    | _ => cases h
  lookup_closing := rfl
  lookup_weaker op h := absurd h (Nat.not_lt_zero _)

theorem isLevel_term : IsLevel 1 [('*', .mul), ('/', .div)] where
  leftNeed op h := by cases op <;> first | rfl | cases h
  rightNeed op h := by cases op <;> first | rfl | cases h
  lookup op h := by
    cases op with
    | mul => exact ⟨'*', rfl, fun w hw => hw⟩
    | div => exact ⟨'/', rfl, fun w hw => hw⟩
    | _ => cases h
  lookup_closing := rfl
  lookup_weaker op h c hc := by
    cases op with
    | add => rw [eq_of_beq hc]; rfl
    | sub => rw [eq_of_beq hc]; rfl
    | _ => exact absurd h (by decide)

/-- A chain ends where no sign of its level stands. -/
theorem chain_stop (hlevel : IsLevel need signs) (hf : Follows need ts) (hw : Written ts cs)
    (k : Nat) (e : Expr) : chain signs operand k e cs = .done e cs := by
  cases k with
  | zero => rfl
  | succ k =>
    rw [chain]
    rcases hskip : skipGap cs with _ | ⟨c, tail⟩
    · rfl
    · have hbegins {t : Token} {ts : List Token} (hw : Written (t :: ts) cs) : t.begins c = true :=
        hw.head_skip c (by rw [hskip]; rfl)
      have hlookup : signs.lookup c = none := by
        cases hf with
        | nil =>
          rw [hw.skip_nil] at hskip
          cases hskip
        | closing ts =>
          rw [eq_of_beq (hbegins hw : (c == ')') = true)]
          exact hlevel.lookup_closing
        | operator hop ht => exact hlevel.lookup_weaker _ hop c (hbegins hw)
      simp only [hlookup]

/-- A chain goes on with an operation of its level. -/
theorem chain_step (hlevel : IsLevel need signs) {op : BinaryOp} (hop : op.strength = need)
    (hr : ∀ cs', cs'.length < cs.length → Reads operand r (need + 1) cs')
    (hw : Written (.operator op :: (r.tokensAt (need + 1) ++ ts)) cs) (hf : Follows (need + 1) ts)
    (k : Nat) (e : Expr) : ∃ rest, chain signs operand (k + 1) e cs =
      chain signs operand k (.binary op e r) rest ∧ Written ts rest ∧
      rest.length + 1 < cs.length := by
  obtain ⟨c, hlookup, hspelled⟩ := hlevel.lookup op hop
  obtain ⟨w, after, hskip, hw, hafter⟩ := hw.skip_cons
  obtain rfl := hspelled w hw
  have hcs := length_skipGap_le cs
  rw [hskip, List.length_append, List.length_singleton] at hcs
  have hgap := length_skipGap_le after
  obtain ⟨rest, hread, hrest, hlength⟩ := hr (skipGap after) (by omega) hafter.skip hf
  refine ⟨rest, ?_, hrest, by omega⟩
  rw [chain, hskip]
  simp only [List.singleton_append, hlookup, hread]

namespace ReadsChain

/-- An operand alone. -/
theorem of_reads (h : Reads operand e (need + 1) cs) (hneed : e.strength ≠ need)
    (hfuel : cs.length ≤ fuel) : ReadsChain signs operand fuel e need cs := by
  intro ts hw hf
  rw [Expr.tokensAt_congr (by omega : e.strength < need ↔ e.strength < need + 1)] at hw
  obtain ⟨rest, hread, hrest, hlength⟩ := h hw hf
  exact ⟨rest, fuel, by rw [hread, Reply.andThen], hrest, hlength, by omega⟩

/-- What has been read is the left operand of the next operation. -/
theorem binary (hlevel : IsLevel need signs) {op : BinaryOp} (hop : op.strength = need)
    (hl : ReadsChain signs operand fuel l need cs)
    (hr : ∀ cs', cs'.length < cs.length → Reads operand r (need + 1) cs') :
    ReadsChain signs operand fuel (.binary op l r) need cs := by
  intro ts hw hf
  obtain ⟨t, ts', hhead, ht⟩ := opensOperand_of_head r (need + 1)
  rw [Expr.tokensAt_of_le (e := .binary op l r) (Nat.le_of_eq hop.symm), Expr.tokens_binary,
    hlevel.leftNeed op hop, hlevel.rightNeed op hop, List.append_assoc, List.cons_append] at hw
  have hop' : Follows (need + 1) (.operator op :: (r.tokensAt (need + 1) ++ ts)) := by
    rw [hhead, List.cons_append]
    exact .operator (by omega) ht
  obtain ⟨after, k, hread, hafter, hlength, hk⟩ := hl hw hop'
  obtain ⟨k, rfl⟩ : ∃ j, k = j + 1 := ⟨k - 1, by omega⟩
  obtain ⟨rest, hstep, hrest, hlength'⟩ :=
    chain_step hlevel hop (fun cs' hcs' => hr cs' (by omega)) hafter hf k l
  exact ⟨rest, k, hread.trans hstep, hrest, by omega, by omega⟩

/-- The chain as a whole. -/
theorem reads (hlevel : IsLevel need signs) (h : ReadsChain signs operand fuel e need cs) :
    Reads (fun cs => (operand cs).andThen fun e rest => chain signs operand fuel e rest) e need
      cs := by
  intro ts hw hf
  obtain ⟨rest, k, hread, hrest, hlength, -⟩ := h hw (hf.mono (Nat.le_succ need))
  exact ⟨rest, hread.trans (chain_stop hlevel hf hrest k e), hrest, hlength⟩

end ReadsChain

/-! ## The levels of the grammar -/

/-- An expression is read wherever an atom is asked for. -/
def ReadsAtom (e : Expr) : Prop :=
  ∀ depth fuel cs, cs.length ≤ depth → cs.length < fuel →
    Reads (atom (expression depth fuel)) e 4 cs

def ReadsUnary (e : Expr) : Prop :=
  ∀ depth fuel signs cs, cs.length ≤ depth → cs.length < fuel → cs.length < signs →
    Reads (unary (expression depth fuel) signs) e 2 cs

def ReadsTerm (e : Expr) : Prop :=
  ∀ depth fuel cs, cs.length ≤ depth → cs.length < fuel →
    ReadsChain [('*', .mul), ('/', .div)] (unary (expression depth fuel) fuel) fuel e 1 cs

def ReadsSum (e : Expr) : Prop :=
  ∀ depth fuel cs, cs.length ≤ depth → cs.length < fuel →
    ReadsChain [('+', .add), ('-', .sub)] (term (expression depth fuel) fuel) fuel e 0 cs

theorem ReadsTerm.term (h : ReadsTerm e) (depth fuel : Nat) (hdepth : cs.length ≤ depth)
    (hfuel : cs.length < fuel) : Reads (term (expression depth fuel) fuel) e 1 cs :=
  (h depth fuel cs hdepth hfuel).reads isLevel_term

theorem ReadsSum.expression (h : ReadsSum e) (depth fuel : Nat) (hdepth : cs.length < depth)
    (hfuel : cs.length < fuel) : Reads (expression depth fuel) e 0 cs := by
  obtain ⟨depth, rfl⟩ : ∃ d, depth = d + 1 := ⟨depth - 1, by omega⟩
  exact (h depth fuel cs (by omega) hfuel).reads isLevel_sum

/-! ### From one level to the next -/

theorem ReadsUnary.readsTerm (h : ReadsUnary e) (hs : e.strength ≠ 1) : ReadsTerm e :=
  fun depth fuel cs hdepth hfuel =>
    .of_reads (h depth fuel fuel cs hdepth hfuel hfuel) hs hfuel.le

theorem ReadsTerm.readsSum (h : ReadsTerm e) (hs : e.strength ≠ 0) : ReadsSum e :=
  fun depth fuel _ hdepth hfuel => .of_reads (h.term depth fuel hdepth hfuel) hs hfuel.le

/-- Parentheses around an expression. -/
theorem parenthesized_reads (h : ReadsSum e) (depth fuel : Nat) (hdepth : cs.length ≤ depth)
    (hfuel : cs.length < fuel) (hw : Written (.opening :: (e.tokens ++ .closing :: ts)) cs) :
    ∃ rest, parenthesized (expression depth fuel) cs = .done e rest ∧ Written ts rest ∧
      rest.length < cs.length := by
  obtain ⟨inner, hopen, hinner, hlength⟩ := hw.sign (c := '(') fun w hw => hw
  rw [← Expr.tokensAt_of_le (Nat.zero_le e.strength)] at hinner
  obtain ⟨after, hread, hafter, hlength'⟩ :=
    h.expression depth fuel (by omega) (by omega) hinner (.closing ts)
  obtain ⟨rest, hclose, hrest, hlength''⟩ := hafter.sign (c := ')') fun w hw => hw
  exact ⟨rest, by simp only [parenthesized, hopen, hread, hclose, Reply.andThen], hrest, by omega⟩

/-! ### Atoms -/

/-- The alternatives of an atom, in their order. -/
def alternatives (expr : Reader Expr) : Reader Expr := fun cs =>
  (number cs).orElse fun _ => (special cs).orElse fun _ =>
    (callOrName expr cs).orElse fun _ => group expr cs

theorem alternatives_special {expr : Reader Expr} (hc : ∀ c ∈ cs.head?, c = '@')
    (h : special cs = .done e rest) : alternatives expr cs = .done e rest := by
  obtain ⟨place, hnumber⟩ : ∃ place, number cs = .miss place :=
    number_miss fun c hmem => by rw [hc c hmem]; decide
  simp only [alternatives, hnumber, h, Reply.orElse]

theorem alternatives_callOrName {expr : Reader Expr} (hc : ∀ c ∈ cs.head?, opensName c = true)
    (h : callOrName expr cs = .done e rest) : alternatives expr cs = .done e rest := by
  obtain ⟨place, hnumber⟩ : ∃ place, number cs = .miss place :=
    number_miss fun c hmem => of_opensName (hc c hmem)
  obtain ⟨place', hspecial⟩ : ∃ place, special cs = .miss place := special_miss fun c hmem => by
    rintro rfl
    cases hc '@' hmem
  simp only [alternatives, hnumber, hspecial, h, Reply.orElse]

theorem alternatives_group {expr : Reader Expr} {tail : List Char} (hcs : cs = '(' :: tail)
    (h : parenthesized expr cs = .done e rest) : alternatives expr cs = .done e rest := by
  subst hcs
  have hhead {p : Char → Prop} (hp : p '(') : ∀ c ∈ ('(' :: tail).head?, p c := by
    rintro c ⟨⟩
    exact hp
  obtain ⟨place, hnumber⟩ := number_miss (hhead (by decide))
  obtain ⟨place', hspecial⟩ := special_miss (hhead (by decide))
  obtain ⟨place'', hname⟩ := identifier_miss (hhead (by decide))
  simp only [alternatives, hnumber, hspecial, callOrName, hname, group, h, Reply.orElse,
    Reply.andThen]

/-- An atom is read if the alternatives find it behind the gap. -/
theorem ReadsAtom.of_alternatives (h : ∀ depth fuel cs, cs.length ≤ depth → cs.length < fuel →
    skipGap cs = cs → Reads (alternatives (expression depth fuel)) e 4 cs) : ReadsAtom e := by
  intro depth fuel cs hdepth hfuel ts hw hf
  have hcs := length_skipGap_le cs
  have hskip : skipGap (skipGap cs) = skipGap cs := List.dropWhile_idempotent ..
  obtain ⟨rest, hread, hrest, hlength⟩ :=
    h depth fuel (skipGap cs) (by omega) (by omega) hskip hw.skip hf
  have hgap := length_skipGap_le rest
  refine ⟨skipGap rest, ?_, hrest.skip, by omega⟩
  show (alternatives (expression depth fuel) (skipGap cs)).andThen _ = _
  rw [hread]
  rfl

/-- An atom of one token. -/
theorem ReadsAtom.of_token (htokens : e.tokens = [t]) (hs : e.strength = 4)
    (h : ∀ expr w rest, t.IsSpelled w → ∀ ts, Written ts rest → Follows 4 ts →
      alternatives expr (w ++ rest) = .done e rest) : ReadsAtom e := by
  refine .of_alternatives fun depth fuel cs hdepth hfuel hcs ts hw hf => ?_
  rw [Expr.tokensAt_of_le hs.ge, htokens] at hw
  obtain ⟨w, rest, hskip, hspelled, hrest⟩ := hw.skip_cons
  rw [hcs] at hskip
  subst hskip
  obtain ⟨c, tail, rfl, -⟩ := hspelled.head
  refine ⟨rest, h _ _ rest hspelled ts hrest hf, hrest, ?_⟩
  rw [List.length_append, List.length_cons]
  omega

theorem readsAtom_number (v : Double) : ReadsAtom (.number v) :=
  .of_token rfl rfl fun expr w rest hw ts hrest hf => by
    simp only [alternatives, number_append hw (hf.stops hrest), Reply.orElse]

theorem readsAtom_name (n : String) : ReadsAtom (.name n) :=
  .of_token rfl rfl fun expr w rest hw ts hrest hf => by
    obtain ⟨hword, hname⟩ := hw
    obtain ⟨c, tail, htext, hc⟩ := hname.head
    obtain ⟨place, hmiss⟩ := hrest.sign_miss (c := '(') hf.not_opening
    refine alternatives_callOrName (by rw [htext]; rintro d ⟨⟩; exact hc) ?_
    rw [callOrName, identifier_append hname (hf.stops hrest), Reply.andThen, parenthesized, hmiss,
      Reply.andThen, hword, String.ofList_toList]

theorem readsAtom_of_special (htokens : e.tokens = [t]) (hs : e.strength = 4)
    (hbegins : ∀ c, t.begins c = (c == '@'))
    (h : ∀ w rest, t.IsSpelled w → special (w ++ rest) = .done e rest) : ReadsAtom e :=
  .of_token htokens hs fun expr w rest hw ts hrest hf => by
    obtain ⟨c, tail, htext, hc⟩ := hw.head
    refine alternatives_special ?_ (h w rest hw)
    rw [htext]
    rintro d ⟨⟩
    exact eq_of_beq (hbegins _ ▸ hc)

/-- A function stands before its argument in parentheses. -/
theorem ReadsSum.readsAtom_call (h : ReadsSum e) (f : Function) : ReadsAtom (.call f e) := by
  refine .of_alternatives fun depth fuel cs hdepth hfuel hcs ts hw hf => ?_
  have htokens : (Expr.call f e).tokensAt 4 = .function f :: .opening :: (e.tokens ++ [.closing]) :=
    rfl
  rw [htokens, List.cons_append, List.cons_append, List.append_assoc] at hw
  obtain ⟨w, after, hskip, ⟨hname, hfunction⟩, hafter⟩ := hw.skip_cons
  rw [hcs] at hskip
  subst hskip
  obtain ⟨c, tail, htext, hc⟩ := hname.head
  have hlength : after.length < (w ++ after).length := by
    rw [htext, List.length_append, List.length_cons]
    omega
  have hstops : Stops after := hafter.stops fun t ht c hc => by
    cases ht
    rw [eq_of_beq hc]
    rfl
  obtain ⟨rest, hread, hrest, hlength'⟩ :=
    parenthesized_reads h depth fuel (by omega) (by omega) hafter
  refine ⟨rest, ?_, hrest, by omega⟩
  refine alternatives_callOrName (by rw [htext]; rintro d ⟨⟩; exact hc) ?_
  simp only [callOrName, identifier_append hname hstops, Reply.andThen, hread, hfunction]

/-- What binds more weakly than an atom stands in parentheses. -/
theorem ReadsSum.readsAtom (h : ReadsSum e) (hs : e.strength < 4) : ReadsAtom e := by
  refine .of_alternatives fun depth fuel cs hdepth hfuel hcs ts hw hf => ?_
  rw [Expr.tokensAt_of_lt hs, List.cons_append, List.append_assoc] at hw
  obtain ⟨w, after, hskip, hspelled, -⟩ := hw.skip_cons
  rw [hcs, show w = ['('] from hspelled] at hskip
  obtain ⟨rest, hread, hrest, hlength⟩ := parenthesized_reads h depth fuel hdepth hfuel hw
  exact ⟨rest, alternatives_group hskip hread, hrest, hlength⟩

/-! ### Powers and signs -/

/-- What needs no parentheses as the base of a power has no minus sign in front. -/
theorem head_tokensAt_four (e : Expr) : ∃ t ts, e.tokensAt 4 = t :: ts ∧ t.begins '-' = false := by
  cases e with
  | binary op l r => cases op <;> exact ⟨_, _, rfl, rfl⟩
  | _ => exact ⟨_, _, rfl, rfl⟩

theorem unary_of_head {expr : Reader Expr} (signs : Nat) (hw : Written (e.tokensAt 4 ++ ts) cs) :
    unary expr (signs + 1) cs = power expr (unary expr signs) cs := by
  obtain ⟨t, ts', htokens, ht⟩ := head_tokensAt_four e
  rw [htokens] at hw
  obtain ⟨place, hmiss⟩ := hw.sign_miss (c := '-') fun u hu => by cases hu; exact ht
  rw [unary, hmiss]
  rfl

theorem ReadsAtom.readsUnary (h : ReadsAtom e) (hs : e.strength < 2 ∨ 4 ≤ e.strength) :
    ReadsUnary e := by
  intro depth fuel signs cs hdepth hfuel hsigns ts hw hf
  obtain ⟨signs, rfl⟩ : ∃ n, signs = n + 1 := ⟨signs - 1, by omega⟩
  rw [Expr.tokensAt_congr (by omega : e.strength < 2 ↔ e.strength < 4)] at hw
  obtain ⟨rest, hread, hrest, hlength⟩ := h depth fuel cs hdepth hfuel hw (hf.mono (by decide))
  obtain ⟨place, hmiss⟩ := hf.powerSign_miss (by decide) hrest
  refine ⟨rest, ?_, hrest, hlength⟩
  rw [unary_of_head signs hw]
  simp only [power, hread, hmiss, Reply.andThen]

theorem ReadsUnary.neg (h : ReadsUnary e) : ReadsUnary (.neg e) := by
  intro depth fuel signs cs hdepth hfuel hsigns ts hw hf
  obtain ⟨signs, rfl⟩ : ∃ n, signs = n + 1 := ⟨signs - 1, by omega⟩
  rw [Expr.tokensAt_of_le (show 2 ≤ (Expr.neg e).strength from le_rfl), Expr.tokens_neg,
    List.cons_append] at hw
  obtain ⟨after, hsign, hafter, hlength⟩ := hw.sign (c := '-') fun w hw => hw
  obtain ⟨rest, hread, hrest, hlength'⟩ :=
    h depth fuel signs after (by omega) (by omega) (by omega) hafter hf
  refine ⟨rest, ?_, hrest, by omega⟩
  simp only [unary, hsign, hread, Reply.andThen, Reply.orElse]

theorem ReadsAtom.pow (hl : ReadsAtom l) (hr : ReadsUnary r) : ReadsUnary (.binary .pow l r) := by
  intro depth fuel signs cs hdepth hfuel hsigns ts hw hf
  obtain ⟨signs, rfl⟩ : ∃ n, signs = n + 1 := ⟨signs - 1, by omega⟩
  rw [Expr.tokensAt_of_le (show 2 ≤ (Expr.binary .pow l r).strength from Nat.le_succ 2),
    Expr.tokens_binary, List.append_assoc, List.cons_append] at hw
  obtain ⟨t, ts', hhead, ht⟩ := opensOperand_of_head r 2
  have hpow : Follows 4 (.operator .pow :: (r.tokensAt 2 ++ ts)) := by
    rw [hhead, List.cons_append]
    exact .operator (by decide) ht
  obtain ⟨after, hbase, hafter, hlength⟩ := hl depth fuel cs hdepth hfuel hw hpow
  obtain ⟨behind, hsign, hbehind, hlength'⟩ := hafter.powerSign
  obtain ⟨rest, hread, hrest, hlength''⟩ :=
    hr depth fuel signs behind (by omega) (by omega) (by omega) hbehind hf
  refine ⟨rest, ?_, hrest, by omega⟩
  rw [unary_of_head signs hw]
  simp only [power, hbase, hsign, hread, Reply.andThen]

/-! ## Whole equations -/

/-- Every level of the grammar reads the expression. -/
structure ReadsEverywhere (e : Expr) : Prop where
  atom : ReadsAtom e
  unary : ReadsUnary e
  term : ReadsTerm e
  sum : ReadsSum e

namespace ReadsEverywhere

theorem of_atom (h : ReadsAtom e) (hs : e.strength = 4) : ReadsEverywhere e :=
  have hunary := h.readsUnary (by omega)
  have hterm := hunary.readsTerm (by omega)
  ⟨h, hunary, hterm, hterm.readsSum (by omega)⟩

theorem of_unary (h : ReadsUnary e) (hs : 2 ≤ e.strength ∧ e.strength < 4) : ReadsEverywhere e :=
  have hterm := h.readsTerm (by omega)
  have hsum := hterm.readsSum (by omega)
  ⟨hsum.readsAtom hs.2, h, hterm, hsum⟩

theorem of_term (h : ReadsTerm e) (hs : e.strength = 1) : ReadsEverywhere e :=
  have hsum := h.readsSum (by omega)
  have hatom := hsum.readsAtom (by omega)
  ⟨hatom, hatom.readsUnary (by omega), h, hsum⟩

theorem of_sum (h : ReadsSum e) (hs : e.strength = 0) : ReadsEverywhere e :=
  have hatom := h.readsAtom (by omega)
  have hunary := hatom.readsUnary (by omega)
  ⟨hatom, hunary, hunary.readsTerm (by omega), h⟩

end ReadsEverywhere

/-- One operation more. -/
theorem readsEverywhere_binary (op : BinaryOp) (hl : ReadsEverywhere l) (hr : ReadsEverywhere r) :
    ReadsEverywhere (.binary op l r) := by
  have hsum {op : BinaryOp} (hop : op.strength = 0) : ReadsEverywhere (.binary op l r) := by
    refine .of_sum (fun depth fuel cs hdepth hfuel => ?_) hop
    exact .binary isLevel_sum hop (hl.sum depth fuel cs hdepth hfuel)
      fun cs' hcs' => hr.term.term depth fuel (by omega) (by omega)
  have hterm {op : BinaryOp} (hop : op.strength = 1) : ReadsEverywhere (.binary op l r) := by
    refine .of_term (fun depth fuel cs hdepth hfuel => ?_) hop
    exact .binary isLevel_term hop (hl.term depth fuel cs hdepth hfuel)
      fun cs' hcs' => hr.unary depth fuel fuel cs' (by omega) (by omega) (by omega)
  cases op with
  | add => exact hsum rfl
  | sub => exact hsum rfl
  | mul => exact hterm rfl
  | div => exact hterm rfl
  | pow => exact .of_unary (hl.atom.pow hr.unary) ⟨Nat.le_succ 2, Nat.lt_succ_self 3⟩

theorem readsEverywhere : ∀ e : Expr, ReadsEverywhere e := by
  intro e
  induction e with
  | number v => exact .of_atom (readsAtom_number v) rfl
  | name n => exact .of_atom (readsAtom_name n) rfl
  | dayOfYear =>
    exact .of_atom (readsAtom_of_special rfl rfl (fun _ => rfl) fun w rest h =>
      special_dayOfYear h rest) rfl
  | daysSince origin =>
    exact .of_atom (readsAtom_of_special rfl rfl (fun _ => rfl) fun w rest h =>
      special_daysSince h rest) rfl
  | absValue =>
    exact .of_atom (readsAtom_of_special rfl rfl (fun _ => rfl) fun w rest h =>
      special_absValue h rest) rfl
  | neg e ih => exact .of_unary ih.unary.neg ⟨le_rfl, Nat.lt_of_sub_pos (by decide : 0 < 4 - 2)⟩
  | call f e ih => exact .of_atom (ih.sum.readsAtom_call f) rfl
  | binary op l r ihl ihr => exact readsEverywhere_binary op ihl ihr

/-- An equation that is written as the tokens of a tree, with the parentheses that its operations
require and any gaps, is read as that tree. -/
theorem read_of_written {source : String} (h : Written e.tokens source.toList) :
    read source = .ok e := by
  have hskip := length_skipGap_le source.toList
  have hwritten : Written (e.tokensAt 0 ++ []) (skipGap source.toList) := by
    rw [List.append_nil, Expr.tokensAt_of_le (Nat.zero_le _)]
    exact h.skip
  obtain ⟨rest, hread, hrest, -⟩ := (readsEverywhere e).sum.expression
    (source.toList.length + 1) (source.toList.length + 1) (by omega) (by omega) hwritten .nil
  simp only [read, hread, hrest.skip_nil]

/-- A product of a power with a minus sign before it and in its exponent, and of a difference. -/
theorem read_of_written_product :
    read "- a**-2.5 *\n(LN (b.c) - @_Days_\"01/02/2000_12:00:00\")" =
      .ok (.binary .mul
        (.neg (.binary .pow (.name "a")
          (.neg (.number (Text.Numeral.finite false 25 (-1)).toDouble))))
        (.binary .sub (.call .log (.name "b.c"))
          (.daysSince ⟨.ofCivil ⟨2000, 1, 2⟩, ⟨12, 0, 0⟩⟩))) := by
  refine read_of_written ?_
  have hgap : ∀ c ∈ [' '], isGap c = true := List.all_eq_true.mp rfl
  have hbreak : ∀ c ∈ ['\n'], isGap c = true := List.all_eq_true.mp rfl
  have hnone : ∀ c ∈ [], isGap c = true := List.forall_mem_nil _
  have htext : "- a**-2.5 *\n(LN (b.c) - @_Days_\"01/02/2000_12:00:00\")".toList =
      [] ++ (['-'] ++ ([' '] ++ (['a'] ++ ([] ++ (['*', '*'] ++ ([] ++ (['-'] ++ ([] ++
        (['2', '.', '5'] ++ ([' '] ++ (['*'] ++ (['\n'] ++ (['('] ++ ([] ++ (['L', 'N'] ++
        ([' '] ++ (['('] ++ ([] ++ (['b', '.', 'c'] ++ ([] ++ ([')'] ++ ([' '] ++ (['-'] ++
        ([' '] ++ ("@_Days_\"01/02/2000_12:00:00\"".toList ++ ([] ++ ([')'] ++
        []))))))))))))))))))))))))))) := by
    decide
  rw [htext]
  refine .cons hnone rfl (.cons hgap ?_ (.cons hnone (.inr rfl) (.cons hnone rfl (.cons hnone ?_
    (.cons hgap rfl (.cons hbreak rfl (.cons hnone ?_ (.cons hgap rfl (.cons hnone ?_
    (.cons hnone rfl (.cons hgap rfl (.cons hgap ?_ (.cons hnone rfl (.nil hnone))))))))))))))
  · exact ⟨rfl, 'a', [], rfl, rfl, List.forall_mem_nil _⟩
  · exact ⟨⟨'2', rfl, .inl rfl⟩, rfl⟩
  · exact ⟨⟨'L', ['N'], rfl, rfl, List.all_eq_true.mp rfl⟩, by decide⟩
  · exact ⟨rfl, 'b', ['.', 'c'], rfl, rfl, List.all_eq_true.mp rfl⟩
  · exact ⟨by decide, "@_Days_".toList, '"', '"', by decide, by decide⟩

end Hydroseries.Equation
