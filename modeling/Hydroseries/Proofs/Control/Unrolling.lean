import Hydroseries.Proofs.Control.Blocks
import Hydroseries.Proofs.Run.Planning

/-!
# Unrolling

A block of a command that is not run once has one invocation for each value position of its widest
line, and a line with fewer values repeats its last one. The line that opens the block counts as well:
words behind the name of the command are values that no keyword has, and they add invocations
(`invocations_of_rollable`).
-/

namespace Hydroseries.Control

variable {b : Block} {l start last : Line} {lines entries : List Line}
  {out : List Invocation × List Notice}

/-! ## Commands that are run once -/

/-- The commands that are run once for each of their blocks. -/
def runOnce : List String := "settings" :: collecting ++ wordy

theorem mem_runOnce : b.command ∈ runOnce ↔ b.command = "settings" ∨ isRollable b.command = false := by
  simp [runOnce, isRollable, -not_and]
  tauto

/-- A block of a command that is run once has one invocation. -/
theorem unroll_of_runOnce (hb : b.command ∈ runOnce) (h : unroll b = .ok out) :
    ∃ i, out.1 = [i] ∧ i.origin = b.origin := by
  have horigin := origin_of_unroll h
  suffices hone : ∃ i, out.1 = [i] by
    obtain ⟨i, hi⟩ := hone
    exact ⟨i, hi, horigin i (hi ▸ List.mem_singleton_self i)⟩
  unfold unroll at h
  dsimp only at h
  split at h
  all_goals
    obtain ⟨notices, -, h⟩ := bind_eq_ok.mp h
    split at h
    next hrollable =>
      -- The settings are unrolled, but to the first position only.
      have hsettings : b.command = "settings" := by
        rcases mem_runOnce.mp hb with hb | hb
        · exact hb
        · rw [hrollable] at hb
          cases hb
      rw [if_pos hsettings] at h
      exact ⟨_, by rw [← Except.ok.inj h]; rfl⟩
    · exact ⟨_, by rw [← Except.ok.inj h]⟩

/-! ## Value positions -/

/-- The value of a line at a position: the one there, or the last one of a shorter line. -/
def Line.HasValueAt (l : Line) (i : Nat) (v : String) : Prop :=
  l.values[i]? = some v ∨ l.values.length ≤ i ∧ l.values.getLast? = some v

/-- The largest number of values on a line; one if there is no line. -/
def mostValues (lines : List Line) : Nat := (lines.map fun l => l.values.length).max?.getD 1

theorem mostValues_cons (hl : l.values ≠ []) (lines : List Line) :
    mostValues (l :: lines) = max l.values.length (mostValues lines) := by
  have hone : 1 ≤ l.values.length := List.length_pos_iff.mpr hl
  unfold mostValues
  rw [List.map_cons, List.max?_cons]
  cases (lines.map fun l => l.values.length).max? with
  | none => simp [hone]
  | some n => rfl

theorem one_le_mostValues (hlines : ∀ l ∈ lines, l.values ≠ []) : 1 ≤ mostValues lines := by
  induction lines with
  | nil => exact Nat.le_refl 1
  | cons l lines ih =>
    rw [List.forall_mem_cons] at hlines
    rw [mostValues_cons hlines.1]
    exact Nat.le_trans (ih hlines.2) (Nat.le_max_right ..)

theorem mostValues_le_iff {n : Nat} (hn : 1 ≤ n) (hlines : ∀ l ∈ lines, l.values ≠ []) :
    mostValues lines ≤ n ↔ ∀ l ∈ lines, l.values.length ≤ n := by
  induction lines with
  | nil => simpa [mostValues] using hn
  | cons l lines ih =>
    rw [List.forall_mem_cons] at hlines
    rw [mostValues_cons hlines.1, Nat.max_le, ih hlines.2, List.forall_mem_cons]

theorem foldl_width (n : Nat) (lines : List Line) (hlines : ∀ l ∈ lines, l.values ≠ []) :
    (lines.map Line.width).foldl Nat.max (max n 1 + 1) = max n (mostValues lines) + 1 := by
  induction lines generalizing n with
  | nil => rfl
  | cons l lines ih =>
    rw [List.forall_mem_cons] at hlines
    have hwidth : (max n 1 + 1).max l.width = max (max n l.values.length) 1 + 1 := by
      show max (max n 1 + 1) (l.values.length + 1) = _
      omega
    rw [List.map_cons, List.foldl_cons, hwidth, ih _ hlines.2, mostValues_cons hlines.1,
      Nat.max_assoc]

/-- The widest line has most values. -/
theorem widest_eq (hlines : ∀ l ∈ lines, l.values ≠ []) : widest lines = mostValues lines + 1 := by
  have hfold := foldl_width 1 lines hlines
  rwa [Nat.max_eq_right (one_le_mostValues hlines)] at hfold

theorem valueOrLast?_eq_some {i : Nat} {v : String} (hl : l.valueOrLast? i = some v) :
    l.HasValueAt i v := by
  unfold Line.valueOrLast? at hl
  cases hi : l.values[i]? with
  | none =>
    rw [hi, Option.none_or] at hl
    exact .inr ⟨List.getElem?_eq_none_iff.mp hi, hl⟩
  | some w =>
    rw [hi, Option.some_or] at hl
    exact .inl (hi.trans hl)

theorem exists_valueOrLast? (hl : l.values ≠ []) (i : Nat) : ∃ v, l.valueOrLast? i = some v := by
  have hlast := List.getLast?_eq_some_getLast hl
  unfold Line.valueOrLast?
  cases l.values[i]? with
  | none => exact ⟨_, hlast⟩
  | some v => exact ⟨v, rfl⟩

/-- The entries of an invocation: each line with its value at the position. -/
theorem entries_invocationAt {origin : Origin} (hlines : ∀ l ∈ lines, l.values ≠ []) (i : Nat) :
    List.Forall₂ (fun l e => ∃ v, e = (l.keyword, .scalar v) ∧ l.HasValueAt i v) lines
      (invocationAt origin lines i).entries := by
  induction lines with
  | nil => exact .nil
  | cons l lines ih =>
    rw [List.forall_mem_cons] at hlines
    obtain ⟨v, hv⟩ := exists_valueOrLast? hlines.1 i
    have hcons : (invocationAt origin (l :: lines) i).entries =
        (l.keyword, .scalar v) :: (invocationAt origin lines i).entries := by
      rw [invocationAt, List.filterMap_cons, hv]
      rfl
    rw [hcons]
    exact .cons ⟨v, rfl, valueOrLast?_eq_some hv⟩ (ih hlines.2)

/-! ## Blocks that are unrolled -/

theorem unroll_of_rollable (hrollable : isRollable b.command = true)
    (hsettings : b.command ≠ "settings") : unroll b =
      .ok ((List.range (widest b.body - 1)).map (invocationAt b.origin (b.body.drop 1)), []) := by
  have hpest : b.command ≠ "write_pest_files" := by
    intro hpest
    rw [hpest] at hrollable
    exact absurd hrollable (by decide)
  unfold unroll
  simp only [hpest, hsettings, hrollable, if_false, if_true]
  rfl

/-- The lines of a block of a text: the one that opens it, the keyword lines, and the one that closes
it. All but the last one are its body. -/
theorem lines_of_blocksOf {source : String} {blocks : List Block} (h : blocksOf source = .ok blocks)
    (hb : b ∈ blocks) : ∃ start entries last, b.lines = start :: entries ++ [last] ∧
      b.body = start :: entries ∧ start.keyword = "start" ∧ last.keyword = "end" ∧
      (∃ name, start.values.head? = some name ∧ b.command = Text.lower name) ∧
      ∀ l ∈ start :: entries, l.values ≠ [] := by
  obtain ⟨start, name, body, last, rfl, hopens, hbody, hcloses⟩ :=
    (blocksOf_eq_ok.mp h).exists_of_mem hb
  refine ⟨start.line, body.map CodeLine.line, last.line, by simp [openedBy],
    body_openedBy hcloses.1, hopens.1, hcloses.1, ⟨name, hopens.2, rfl⟩, ?_⟩
  rw [List.forall_mem_cons, List.forall_mem_map]
  refine ⟨fun hnil => ?_, fun l hl => (hbody l hl).1.2.2⟩
  have hname := hopens.2
  rw [show start.values = [] from hnil] at hname
  cases hname

/-- A block that is run for each value position has as many invocations as most values on one of its
keyword lines, or more if the name of its command has more words behind it. Each has the line of the
block, and all keyword lines in their order, with their values at the position. So the words behind
the name matter exactly when they are more than the values of any keyword line. -/
theorem invocations_of_rollable {source : String} {blocks : List Block}
    (h : blocksOf source = .ok blocks) (hb : b ∈ blocks) (hrollable : isRollable b.command = true)
    (hsettings : b.command ≠ "settings") :
    ∃ start entries last invocations, b.lines = start :: entries ++ [last] ∧
      start.keyword = "start" ∧ last.keyword = "end" ∧ unroll b = .ok (invocations, []) ∧
      invocations.length = max start.values.length (mostValues entries) ∧
      (invocations.length = mostValues entries ↔ start.values.length ≤ mostValues entries) ∧
      ∀ i inv, invocations[i]? = some inv → inv.command = b.title ∧
        inv.startLine = b.startLine ∧
        List.Forall₂ (fun l e => ∃ v, e = (l.keyword, .scalar v) ∧ l.HasValueAt i v) entries
          inv.entries := by
  obtain ⟨start, entries, last, hlines, hbody, hstart, hlast, -, hvalues⟩ := lines_of_blocksOf h hb
  have hcount : widest b.body - 1 = max start.values.length (mostValues entries) := by
    rw [hbody, widest_eq hvalues, Nat.add_sub_cancel]
    exact mostValues_cons (hvalues start List.mem_cons_self) entries
  refine ⟨start, entries, last, _, hlines, hstart, hlast, unroll_of_rollable hrollable hsettings, ?_,
    ?_, fun i inv hinv => ?_⟩
  · rw [List.length_map, List.length_range, hcount]
  · rw [List.length_map, List.length_range, hcount]
    omega
  · rw [List.getElem?_map] at hinv
    obtain ⟨n, hn, rfl⟩ := Option.map_eq_some_iff.mp hinv
    obtain ⟨hlt, rfl⟩ := List.getElem?_eq_some_iff.mp hn
    rw [List.getElem_range, hbody]
    exact ⟨rfl, rfl, entries_invocationAt (fun l hl => hvalues l (List.mem_cons_of_mem _ hl)) i⟩

/-- A block with words behind the name of its command, and no keyword with two values. -/
def annotatedText : String := "START COPY of today\n CONTEXT all\n SERIES_NAME q\nEND COPY\n"

def annotatedBlock : Block :=
  ⟨"copy", 1, [⟨"start", ["COPY", "of", "today"]⟩, ⟨"context", ["all"]⟩, ⟨"series_name", ["q"]⟩,
    ⟨"end", ["COPY"]⟩]⟩

theorem blocksOf_annotated : blocksOf annotatedText = .ok [annotatedBlock] := by
  decide +kernel

/-- The words behind the name make three invocations. -/
theorem invocations_of_annotated :
    blocksOf annotatedText = .ok [annotatedBlock] ∧ isRollable "copy" = true ∧
      ∃ start entries last invocations, annotatedBlock.lines = start :: entries ++ [last] ∧
        unroll annotatedBlock = .ok (invocations, []) ∧
        invocations.length = max start.values.length (mostValues entries) := by
  have hrollable : isRollable "copy" = true := by decide
  obtain ⟨start, entries, last, invocations, hlines, -, -, hunroll, hlength, -⟩ :=
    invocations_of_rollable blocksOf_annotated List.mem_cons_self hrollable (by decide)
  exact ⟨blocksOf_annotated, hrollable, start, entries, last, invocations, hlines, hunroll, hlength⟩

/-- No keyword line has two values, but the block is run three times. -/
theorem annotated_run_three_times :
    ∃ start entries last invocations, blocksOf annotatedText = .ok [annotatedBlock] ∧
      isRollable annotatedBlock.command = true ∧ annotatedBlock.command ≠ "settings" ∧
      annotatedBlock.lines = start :: entries ++ [last] ∧ start.keyword = "start" ∧
      last.keyword = "end" ∧ mostValues entries = 1 ∧
      unroll annotatedBlock = .ok (invocations, []) ∧ invocations.length = 3 :=
  ⟨⟨"start", ["COPY", "of", "today"]⟩, [⟨"context", ["all"]⟩, ⟨"series_name", ["q"]⟩],
    ⟨"end", ["COPY"]⟩, (List.range 3).map (invocationAt ⟨"COPY", 1⟩
      [⟨"context", ["all"]⟩, ⟨"series_name", ["q"]⟩]),
    blocksOf_annotated, by decide, by decide, rfl, rfl, rfl, rfl, by decide +kernel, rfl⟩

end Hydroseries.Control
