import Hydroseries.Proofs.Control.Spelling
import Hydroseries.Proofs.Control.Weights

/-!
# Contexts of invocations

The first `CONTEXT` line of a block says which runs its invocations belong to. What an invocation has
of that line depends on how the block is unrolled: the value at its own position, the whole line where
lines are collected, or the first value where lines are kept (`context_of_unroll`). Later `CONTEXT`
lines have no effect. The context that a file gives to its run is the first value of that line in its
first block of settings (`givesContext_of_unroll`).
-/

namespace Hydroseries.Control

/-- The keyword lines of a block. -/
def Block.entries (b : Block) : List Line := b.body.drop 1

/-- The first line of a block on its context. -/
def Block.contextLine? (b : Block) : Option Line := b.entries.find? fun l => l.keyword = "context"

/-- The first text that the `n`-th invocation of a command has of a line. -/
def Line.textFor? (command : String) (n : Nat) (l : Line) : Option String :=
  if isRollable command then l.valueOrLast? n
  else if collecting.contains command then some l.joined
  else l.values.head?

variable {command : String} {b : Block} {l : Line} {lines : List Line} {out : List Invocation × List Notice}
  {key : String} {i : Invocation} {n : Nat}

theorem textFor?_of_rollable (h : isRollable command = true) :
    Line.textFor? command n = fun l => l.valueOrLast? n := by
  funext l
  simp [Line.textFor?, h]

theorem textFor?_of_collecting (hsingle : isRollable command = false)
    (h : collecting.contains command = true) :
    Line.textFor? command n = fun l => some l.joined := by
  funext l
  simp only [Line.textFor?, hsingle, h, Bool.false_eq_true, if_false, if_true]

theorem textFor?_of_kept (hsingle : isRollable command = false)
    (h : ¬ collecting.contains command = true) :
    Line.textFor? command n = fun l => l.values.head? := by
  funext l
  simp only [Line.textFor?, hsingle, h, Bool.false_eq_true, if_false]

/-! ## Entries by keyword -/

/-- Of lines that all have a value, the first of a keyword counts. -/
theorem lookup_lines {value? : Line → Option Value} (hlines : ∀ l ∈ lines, (value? l).isSome)
    (key : String) :
    (lines.filterMap fun l => (value? l).map fun v => (l.keyword, v)).lookup key =
      (lines.find? fun l => l.keyword = key).bind value? := by
  induction lines with
  | nil => rfl
  | cons l lines ih =>
    rw [List.forall_mem_cons] at hlines
    obtain ⟨v, hv⟩ := Option.isSome_iff_exists.mp hlines.1
    rw [List.filterMap_cons, hv, Option.map_some, List.find?_cons, List.lookup_cons]
    by_cases hkey : key = l.keyword
    · simp [hkey, hv]
    · have hne : (key == l.keyword) = false := beq_eq_false_iff_ne.mpr hkey
      simp [hne, Ne.symm hkey, ih hlines.2]

theorem find?_invocationAt {origin : Origin} (hlines : ∀ l ∈ lines, l.values ≠ []) :
    (invocationAt origin lines n).find? key =
      (lines.find? fun l => l.keyword = key).bind fun l => (l.valueOrLast? n).map Value.scalar := by
  have hvalues : ∀ l ∈ lines, ((l.valueOrLast? n).map Value.scalar).isSome := by
    intro l hl
    obtain ⟨v, hv⟩ := exists_valueOrLast? (hlines l hl) n
    rw [hv]
    rfl
  rw [← lookup_lines hvalues key]
  simp only [Option.map_map]
  rfl

theorem lookup_kept (lines : List Line) (key : String) :
    (lines.map fun l => (l.keyword, l.value)).lookup key =
      (lines.find? fun l => l.keyword = key).map Line.value := by
  have hvalues : ∀ l ∈ lines, (some l.value).isSome := fun _ _ => rfl
  have hfirst := lookup_lines hvalues key
  simpa [Option.map_eq_bind, Function.comp_def] using hfirst

theorem first?_value (l : Line) : l.value.first? = l.values.head? := by
  unfold Line.value
  split <;> simp_all [Value.first?, Value.entries]

/-- The first of the texts that are collected is that of the first line. -/
theorem first?_collected (lines : List Line) (key : String) :
    (collected? (textsAt key lines)).bind Value.first? =
      (lines.find? fun l => l.keyword = key).map Line.joined := by
  rw [← List.head?_filter, ← List.head?_map]
  show (collected? (textsAt key lines)).bind Value.first? = (textsAt key lines).head?
  cases textsAt key lines <;> rfl

/-- Bounds that are put in are no context. -/
theorem find?_context_insertBounds (lines : List Line) :
    ((insertBounds lines).find? fun l => l.keyword = "context") =
      lines.find? fun l => l.keyword = "context" := by
  have hbounds : ∀ family, ¬ boundsKeyword family = "context" := by
    intro family h
    have hlast := congrArg (fun s => s.toList.getLast?) h
    simp [boundsKeyword] at hlast
  induction lines with
  | nil => rfl
  | cons l lines ih =>
    by_cases hl : ∃ family ∈ weightFamilies, l.keyword = equationKeyword family
    · obtain ⟨family, hfamily, hl⟩ := hl
      rw [insertBounds_cons_of_equation hfamily hl, List.find?_cons]
      split <;> simp [List.find?_cons, hbounds, ih]
    · push Not at hl
      rw [insertBounds_cons hl, List.find?_cons, List.find?_cons, ih]

/-! ## Invocations of a block -/

theorem two_le_widest (lines : List Line) : 2 ≤ widest lines := by
  unfold widest
  generalize lines.map Line.width = widths
  suffices hfold : ∀ m, m ≤ widths.foldl Nat.max m from hfold 2
  intro m
  induction widths generalizing m with
  | nil => exact Nat.le_refl m
  | cons w widths ih => exact Nat.le_trans (Nat.le_max_left m w) (ih (m.max w))

/-- A block that is unrolled has an invocation for the first position at least. -/
theorem invocations_of_unroll (h : unroll b = .ok out) (hrollable : isRollable b.command = true) :
    ∃ count, out.1 = (List.range (count + 1)).map (invocationAt b.origin b.entries) := by
  by_cases hsettings : b.command = "settings"
  · unfold unroll at h
    simp only [hsettings, if_true] at h
    exact ⟨0, by rw [← Except.ok.inj h]; rfl⟩
  · rw [unroll_of_rollable hrollable hsettings] at h
    have hwidth := two_le_widest b.body
    refine ⟨widest b.body - 2, ?_⟩
    rw [← Except.ok.inj h, show widest b.body - 2 + 1 = widest b.body - 1 by omega]
    rfl

/-- The lines of a block that is run once, with bounds put in where they are needed. -/
theorem invocation_of_unroll (h : unroll b = .ok out) (hsingle : isRollable b.command = false) :
    out.1 = [singleInvocation b.command b.origin
      (if b.command = "write_pest_files" then (insertBounds b.body).drop 1 else b.entries)] := by
  unfold unroll at h
  simp only [hsingle, Bool.false_eq_true, if_false] at h
  split at h
  next hpest =>
    obtain ⟨notices, -, h⟩ := bind_eq_ok.mp h
    rw [← Except.ok.inj h, hpest]
    rfl
  next hpest =>
    obtain ⟨notices, -, h⟩ := bind_eq_ok.mp h
    rw [← Except.ok.inj h, if_neg hpest]
    rfl

/-- The context of an invocation is what it has of the first line on the context of its block. -/
theorem context_of_unroll {source : String} {blocks : List Block} (hblocks : blocksOf source = .ok blocks)
    (hb : b ∈ blocks) (h : unroll b = .ok out) (hi : out.1[n]? = some i) :
    i.context? = b.contextLine?.bind (Line.textFor? b.command n) := by
  obtain ⟨start, entries, hbody, hstart, hentries⟩ := entries_of_blocksOf hblocks hb
  have hlines : b.entries = entries := by rw [Block.entries, hbody, List.drop_one, List.tail_cons]
  rw [Block.contextLine?, hlines]
  cases hrollable : isRollable b.command with
  | true =>
    obtain ⟨count, hout⟩ := invocations_of_unroll h hrollable
    rw [hout, List.getElem?_map, hlines] at hi
    obtain ⟨m, hm, rfl⟩ := Option.map_eq_some_iff.mp hi
    obtain ⟨hlt, rfl⟩ := List.getElem?_eq_some_iff.mp hm
    rw [List.getElem_range, Invocation.context?, find?_invocationAt fun l hl => (hentries l hl).1,
      textFor?_of_rollable hrollable]
    cases entries.find? fun l => l.keyword = "context" with
    | none => rfl
    | some l =>
      rw [Option.bind_some, Option.bind_some]
      cases l.valueOrLast? n <;> rfl
  | false =>
    rw [invocation_of_unroll h hrollable] at hi
    have hone := List.mem_of_getElem? hi
    rw [List.mem_singleton] at hone
    have hcontext : ((if b.command = "write_pest_files" then (insertBounds b.body).drop 1
        else b.entries).find? fun l => l.keyword = "context") =
          entries.find? fun l => l.keyword = "context" := by
      split
      · rw [hbody, insertBounds_start hstart, List.drop_one, List.tail_cons]
        exact find?_context_insertBounds entries
      · rw [hlines]
    rw [hone, ← hcontext, Invocation.context?, Invocation.find?, singleInvocation]
    dsimp only
    split
    next hcollecting =>
      rw [lookup_collected, first?_collected, textFor?_of_collecting hrollable hcollecting,
        Option.map_eq_bind]
      rfl
    next hkept =>
      rw [lookup_kept, textFor?_of_kept hrollable hkept, Option.bind_map]
      congr 1
      exact funext first?_value

/-! ## The context that a file gives -/

/-- The first block of settings of a file gives this context. -/
def GivesContext (blocks : List Block) (context : String) : Prop :=
  ∃ front b rest l, blocks = front ++ b :: rest ∧ (∀ b' ∈ front, b'.title ≠ "SETTINGS") ∧
    b.title = "SETTINGS" ∧ b.contextLine? = some l ∧ l.values.head? = some context

theorem title_of_collecting : ∀ command ∈ collecting, Text.upper command ≠ "SETTINGS" := by
  decide +kernel

/-- The first invocation of settings has the first value of the line. -/
theorem textFor?_zero (htitle : b.title = "SETTINGS") :
    Line.textFor? b.command 0 = fun l => l.values.head? := by
  have hkept : ¬ collecting.contains b.command = true := fun h =>
    title_of_collecting b.command (List.contains_iff_mem.mp h) htitle
  cases hrollable : isRollable b.command with
  | true =>
    rw [textFor?_of_rollable hrollable]
    funext l
    rw [Line.valueOrLast?, ← List.head?_eq_getElem?]
    cases l.values <;> rfl
  | false => exact textFor?_of_kept hrollable hkept

theorem exists_first (h : unroll b = .ok out) : ∃ i rest, out.1 = i :: rest := by
  cases hrollable : isRollable b.command with
  | true =>
    obtain ⟨count, hout⟩ := invocations_of_unroll h hrollable
    rw [hout, List.range_succ_eq_map]
    exact ⟨_, _, rfl⟩
  | false => exact ⟨_, [], invocation_of_unroll h hrollable⟩

/-- The first invocation of settings is that of the first block of settings. -/
theorem givesContext_of_unroll {source context : String} {all blocks : List Block}
    {outs : List (List Invocation × List Notice)} (hall : blocksOf source = .ok all)
    (hmem : ∀ b ∈ blocks, b ∈ all)
    (houts : List.Forall₂ (fun b out => unroll b = .ok out) blocks outs)
    (hcontext : (((outs.flatMap Prod.fst).find? fun i => i.command = "SETTINGS").bind
      Invocation.context?) = some context) : GivesContext blocks context := by
  induction houts with
  | nil => cases hcontext
  | @cons b out rest outs hout _ ih =>
    rw [List.forall_mem_cons] at hmem
    rw [List.flatMap_cons, List.find?_append] at hcontext
    by_cases htitle : b.title = "SETTINGS"
    · obtain ⟨i, more, hfirst⟩ := exists_first hout
      have hi : out.1[0]? = some i := by rw [hfirst, List.getElem?_cons_zero]
      have hcommand : i.command = "SETTINGS" :=
        (command_of_unroll hout i (hfirst ▸ List.mem_cons_self)).trans htitle
      have hfind : (out.1.find? fun i => i.command = "SETTINGS") = some i := by
        rw [hfirst]
        exact List.find?_cons_of_pos (by simpa using hcommand)
      rw [hfind, Option.some_or, Option.bind_some, context_of_unroll hall hmem.1 hout hi,
        textFor?_zero htitle] at hcontext
      obtain ⟨l, hl, hhead⟩ := Option.bind_eq_some_iff.mp hcontext
      exact ⟨[], b, rest, l, rfl, nofun, htitle, hl, hhead⟩
    · have hnone : (out.1.find? fun i => i.command = "SETTINGS") = none := by
        apply List.find?_eq_none.mpr
        intro i hi
        rw [command_of_unroll hout i hi]
        simpa using htitle
      rw [hnone, Option.none_or] at hcontext
      obtain ⟨front, b', more, l, rfl, hfront, hgives⟩ := ih hmem.2 hcontext
      exact ⟨b :: front, b', more, l, rfl, List.forall_mem_cons.mpr ⟨htitle, hfront⟩, hgives⟩

end Hydroseries.Control
