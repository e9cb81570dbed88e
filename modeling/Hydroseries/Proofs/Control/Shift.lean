import Hydroseries.Proofs.Control.Spelling
import Hydroseries.Proofs.Text.Blank

/-!
# Control files one behind the other

A control file behind another one, which ends with a line end, is read as it is read alone, but its
lines have other numbers: what is read of both is what is read of the first, and what is read of the
second with its lines shifted (`Script.read_append`).
-/

namespace Hydroseries.Control

/-! ## Shifted lines -/

def Origin.shift (k : Nat) (o : Origin) : Origin := { o with line := o.line + k }

def CodeLine.shift (k : Nat) (l : CodeLine) : CodeLine := { l with number := l.number + k }

def Block.shift (k : Nat) (b : Block) : Block := { b with startLine := b.startLine + k }

def Invocation.shift (k : Nat) (i : Invocation) : Invocation :=
  { i with startLine := i.startLine + k }

def Notice.shift (k : Nat) (n : Notice) : Notice := { n with origin := n.origin.shift k }

def Script.shift (k : Nat) (sc : Script) : Script :=
  ⟨sc.blocks.map (Block.shift k), sc.invocations.map (Invocation.shift k),
    sc.notices.map (Notice.shift k)⟩

section

variable (k : Nat)

@[simp] theorem Block.origin_shift (b : Block) : (b.shift k).origin = b.origin.shift k := rfl

@[simp] theorem Block.body_shift (b : Block) : (b.shift k).body = b.body := rfl

@[simp] theorem Block.command_shift (b : Block) : (b.shift k).command = b.command := rfl

@[simp] theorem Invocation.context?_shift (i : Invocation) :
    (i.shift k).context? = i.context? := rfl

@[simp] theorem Invocation.command_shift (i : Invocation) : (i.shift k).command = i.command := rfl

theorem invocationAt_shift (o : Origin) (lines : List Line) :
    invocationAt (o.shift k) lines = Invocation.shift k ∘ invocationAt o lines := rfl

theorem singleInvocation_shift (command : String) (o : Origin) (lines : List Line) :
    singleInvocation command (o.shift k) lines = (singleInvocation command o lines).shift k := rfl

theorem keptTogether_shift (o : Origin) (lines : List Line) :
    keptTogether (o.shift k) lines = (keptTogether o lines).shift k := rfl

end

variable {a b front source : String} {k : Nat} {lines : List CodeLine} {blocks done : List Block}

/-! ## Lines with code -/

theorem codeLine?_add (n k : Nat) (raw : List Char) :
    codeLine? (n + k) raw = (codeLine? n raw).map (CodeLine.shift k) := by
  unfold codeLine?
  cases codeOf? raw with
  | none => rfl
  | some code => cases h : Text.wordsOf (normalize code) <;> simp [h, CodeLine.shift]

theorem codeLinesFrom_cons (n : Nat) (raw : List Char) (raws : List (List Char)) :
    codeLinesFrom n (raw :: raws) = (codeLine? n raw).toList ++ codeLinesFrom (n + 1) raws := by
  rw [codeLinesFrom, List.zipIdx_cons, List.filterMap_cons, codeLinesFrom]
  dsimp only
  cases codeLine? n raw <;> rfl

theorem codeLinesFrom_add (n k : Nat) (raws : List (List Char)) :
    codeLinesFrom (n + k) raws = (codeLinesFrom n raws).map (CodeLine.shift k) := by
  induction raws generalizing n with
  | nil => rfl
  | cons raw raws ih =>
    rw [codeLinesFrom_cons, codeLinesFrom_cons, codeLine?_add, Nat.add_right_comm, ih,
      List.map_append]
    cases codeLine? n raw <;> rfl

theorem codeLinesFrom_append (n : Nat) (raws rest : List (List Char)) :
    codeLinesFrom n (raws ++ rest) =
      codeLinesFrom n raws ++ codeLinesFrom (n + raws.length) rest := by
  rw [codeLinesFrom, List.zipIdx_append, List.filterMap_append]
  rfl

theorem codeLines_append (ha : a = front ++ "\n") (b : String) :
    codeLines (a ++ b) =
      codeLines a ++ (codeLines b).map (CodeLine.shift (Text.lines a).length) := by
  have hline : a.toList = front.toList ++ ['\n'] := by rw [ha, String.toList_append]; rfl
  have hlines : Text.linesOf (a ++ b).toList = Text.linesOf a.toList ++ Text.linesOf b.toList := by
    rw [String.toList_append, hline, List.append_assoc, List.singleton_append, Text.linesOf_append]
  unfold codeLines
  rw [hlines, codeLinesFrom_append, codeLinesFrom_add, Text.lines, List.length_map]

/-! ## Blocks -/

theorem Blocks.shift (h : Blocks lines blocks) (k : Nat) :
    Blocks (lines.map (CodeLine.shift k)) (blocks.map (Block.shift k)) := by
  induction h with
  | nil => exact .nil
  | ignored hstart hend _ ih => exact .ignored hstart hend ih
  | @block start name body last rest blocks hopens hbody hcloses _ ih =>
    have hopened : (openedBy start name (body ++ [last])).shift k = openedBy (start.shift k) name
        (body.map (CodeLine.shift k) ++ [last.shift k]) := by
      simp [openedBy, Block.shift, CodeLine.shift, CodeLine.line, Function.comp_def]
    rw [List.map_append, List.map_cons, List.map_cons, List.map_cons, hopened]
    exact .block hopens (List.forall_mem_map.mpr hbody) hcloses ih

theorem blocksOf_append (ha : a = front ++ "\n") (hdone : blocksOf a = .ok done)
    (hblocks : blocksOf b = .ok blocks) :
    blocksOf (a ++ b) = .ok (done ++ blocks.map (Block.shift (Text.lines a).length)) := by
  rw [blocksOf_eq_ok] at hdone hblocks ⊢
  rw [codeLines_append ha]
  exact hdone.append (hblocks.shift _)

theorem checkOrderFrom_shift (k : Nat) (previous : Option String) (blocks : List Block) :
    checkOrderFrom previous (blocks.map (Block.shift k)) = .ok () ↔
      checkOrderFrom previous blocks = .ok () := by
  induction blocks generalizing previous with
  | nil => rfl
  | cons b blocks ih =>
    rw [List.map_cons, checkOrderFrom, checkOrderFrom, Block.command_shift]
    split
    · simp
    · exact ih _

/-- What may begin a file may stand behind any block. -/
theorem checkOrderFrom_of_none (h : checkOrderFrom none blocks = .ok ())
    (previous : Option String) : checkOrderFrom previous blocks = .ok () := by
  cases blocks with
  | nil => rfl
  | cons b blocks =>
    rw [checkOrderFrom] at h ⊢
    by_cases hb : b.command = "write_pest_files"
    · rw [if_pos (by simp [hb])] at h
      cases h
    · rw [if_neg (by simp [hb])] at h ⊢
      exact h

theorem checkOrderFrom_append {previous : Option String}
    (hdone : checkOrderFrom previous done = .ok ()) (hblocks : checkOrder blocks = .ok ()) :
    checkOrderFrom previous (done ++ blocks) = .ok () := by
  induction done generalizing previous with
  | nil => exact checkOrderFrom_of_none hblocks previous
  | cons b done ih =>
    rw [List.cons_append, checkOrderFrom]
    rw [checkOrderFrom] at hdone
    split at hdone
    · cases hdone
    next hb =>
      rw [if_neg hb]
      exact ih hdone

/-! ## Invocations -/

theorem requireNext_eq_ok {n : Nat} {next : Option Line} {needed after : String} :
    requireNext n next needed after = .ok () ↔ (next.any fun l => l.keyword = needed) = true := by
  unfold requireNext
  split <;> simp_all

theorem boundsNotices_shift {o : Origin} {lines : List Line} {notices : List Notice}
    (h : boundsNotices o lines = .ok notices) (k : Nat) :
    boundsNotices (o.shift k) lines = .ok (notices.map (Notice.shift k)) := by
  induction lines generalizing notices with
  | nil =>
    cases h
    rfl
  | cons line rest ih =>
    rw [boundsNotices] at h ⊢
    split at h
    next =>
      obtain ⟨here, hhere, h⟩ := bind_eq_ok.mp h
      obtain ⟨later, hlater, h⟩ := bind_eq_ok.mp h
      cases hhere
      cases h
      exact bind_eq_ok.mpr ⟨_, rfl, bind_eq_ok.mpr ⟨_, ih hlater, rfl⟩⟩
    next family _ =>
      obtain ⟨⟨⟩, hmodel, h⟩ := bind_eq_ok.mp h
      obtain ⟨⟨⟩, hequation, h⟩ := bind_eq_ok.mp h
      apply bind_eq_ok.mpr ⟨(), requireNext_eq_ok.mpr (requireNext_eq_ok.mp hmodel), ?_⟩
      apply bind_eq_ok.mpr ⟨(), requireNext_eq_ok.mpr (requireNext_eq_ok.mp hequation), ?_⟩
      split at h
      next hbounds =>
        obtain ⟨here, hhere, h⟩ := bind_eq_ok.mp h
        obtain ⟨later, hlater, h⟩ := bind_eq_ok.mp h
        cases hhere
        cases h
        rw [if_pos hbounds]
        exact bind_eq_ok.mpr ⟨_, rfl, bind_eq_ok.mpr ⟨_, ih hlater, rfl⟩⟩
      next hbounds =>
        obtain ⟨here, hhere, h⟩ := bind_eq_ok.mp h
        obtain ⟨later, hlater, h⟩ := bind_eq_ok.mp h
        cases hhere
        cases h
        rw [if_neg hbounds]
        exact bind_eq_ok.mpr ⟨_, rfl, bind_eq_ok.mpr ⟨_, ih hlater, rfl⟩⟩

theorem unroll_shift {b : Block} {out : List Invocation × List Notice} (h : unroll b = .ok out)
    (k : Nat) :
    unroll (b.shift k) = .ok (out.1.map (Invocation.shift k), out.2.map (Notice.shift k)) := by
  unfold unroll at h ⊢
  dsimp only at h ⊢
  rw [Block.command_shift, Block.body_shift, Block.origin_shift]
  generalize (if b.command = "write_pest_files" then insertBounds b.body else b.body) = body at h ⊢
  generalize (if b.command = "settings" then 2 else widest body) = width at h ⊢
  rw [invocationAt_shift, singleInvocation_shift, keptTogether_shift]
  split at h
  next hpest =>
    obtain ⟨notices, hnotices, h⟩ := bind_eq_ok.mp h
    rw [if_pos hpest]
    apply bind_eq_ok.mpr ⟨_, boundsNotices_shift hnotices k, ?_⟩
    split at h
    next hrollable =>
      rw [if_pos hrollable, ← Except.ok.inj h, List.map_map]
      rfl
    next hrollable =>
      rw [if_neg hrollable, ← Except.ok.inj h, List.map_append]
      split <;> rfl
  next hpest =>
    obtain ⟨notices, hnotices, h⟩ := bind_eq_ok.mp h
    cases hnotices
    rw [if_neg hpest]
    apply bind_eq_ok.mpr ⟨_, rfl, ?_⟩
    split at h
    next hrollable =>
      rw [if_pos hrollable, ← Except.ok.inj h, List.map_map]
      rfl
    next hrollable =>
      rw [if_neg hrollable, ← Except.ok.inj h, List.map_append]
      split <;> rfl

/-! ## Scripts -/

/-- A file behind another one is read as alone, with its lines shifted. -/
theorem Script.read_append {sa sb : Script} (ha : a = front ++ "\n") (hsa : Script.read a = .ok sa)
    (hsb : Script.read b = .ok sb) :
    Script.read (a ++ b) = .ok ⟨sa.blocks ++ (sb.shift (Text.lines a).length).blocks,
      sa.invocations ++ (sb.shift (Text.lines a).length).invocations,
      sa.notices ++ (sb.shift (Text.lines a).length).notices⟩ := by
  obtain ⟨hablocks, haorder, outs, houts, hainvocations, hanotices⟩ := Script.read_eq_ok.mp hsa
  obtain ⟨hbblocks, hborder, more, hmore, hbinvocations, hbnotices⟩ := Script.read_eq_ok.mp hsb
  let moved := more.map fun out => (out.1.map (Invocation.shift (Text.lines a).length),
    out.2.map (Notice.shift (Text.lines a).length))
  apply Script.read_eq_ok.mpr ⟨blocksOf_append ha hablocks hbblocks, ?_, outs ++ moved, ?_, ?_, ?_⟩
  · exact checkOrderFrom_append haorder ((checkOrderFrom_shift _ _ _).mpr hborder)
  · apply List.rel_append houts
    rw [Script.shift, List.forall₂_map_left_iff, List.forall₂_map_right_iff]
    exact hmore.imp fun b out hout => unroll_shift hout _
  · rw [List.flatMap_append, List.flatMap_map, ← hainvocations, Script.shift, hbinvocations,
      List.map_flatMap]
  · rw [List.flatMap_append, List.flatMap_map, ← hanotices, Script.shift, hbnotices,
      List.map_flatMap]

end Hydroseries.Control
