import Hydroseries.Proofs.Control.Unrolling

/-!
# The order of blocks

A block on parameter files directly follows a report block, and blocks are out of order where the
first one does not (`checkOrder_iff`). Both are run once, so in a file that is read the invocation of
the one directly follows that of the other (`report_before`). This is not so for a block whose command
has these capitals but is spelled otherwise in lower case: it is not taken for a block on parameter
files until its command is looked up.
-/

namespace Hydroseries.Control

variable {blocks : List Block} {b : Block} {front rest : List Block}

/-- What stands before a block on parameter files, in a file whose order was checked. -/
theorem previous_of_checkOrderFrom {previous : Option String}
    (h : checkOrderFrom previous (front ++ b :: rest) = .ok ())
    (hb : b.command = "write_pest_files") :
    (front.getLast?.map Block.command).or previous = some "list_output" := by
  induction front generalizing previous with
  | nil =>
    rw [List.nil_append, checkOrderFrom] at h
    split at h
    · cases h
    next hnot => simpa [hb] using hnot
  | cons c front ih =>
    rw [List.cons_append, checkOrderFrom] at h
    split at h
    · cases h
    · cases front with
      | nil => exact ih h
      | cons d front => simpa [List.getLast?_cons] using ih h

theorem report_of_checkOrder (h : checkOrder (front ++ b :: rest) = .ok ())
    (hb : b.command = "write_pest_files") :
    ∃ before report, front = before ++ [report] ∧ report.command = "list_output" := by
  have hlast := previous_of_checkOrderFrom h hb
  rw [Option.or_none] at hlast
  obtain ⟨report, hreport, hcommand⟩ := Option.map_eq_some_iff.mp hlast
  obtain ⟨before, rfl⟩ := List.getLast?_eq_some_iff.mp hreport
  exact ⟨before, report, rfl, hcommand⟩

/-! ## Blocks out of order -/

/-- The block before the `n`-th is a report block. -/
def FollowsReport (blocks : List Block) (n : Nat) : Prop :=
  ∃ m r, n = m + 1 ∧ blocks[m]? = some r ∧ r.command = "list_output"

/-- The `n`-th block is on parameter files, and the block before it is no report block. -/
def IsMisplaced (blocks : List Block) (n : Nat) (b : Block) : Prop :=
  blocks[n]? = some b ∧ b.command = "write_pest_files" ∧ ¬ FollowsReport blocks n

/-- The command before the `n`-th block, if `previous` is the one before all blocks. -/
def commandBefore (previous : Option String) (blocks : List Block) : Nat → Option String
  | 0 => previous
  | n + 1 => blocks[n]?.map Block.command

/-- The `n`-th block is misplaced behind `previous` and the blocks before it. -/
def IsMisplacedFrom (previous : Option String) (blocks : List Block) (n : Nat) (b : Block) : Prop :=
  blocks[n]? = some b ∧ b.command = "write_pest_files" ∧
    commandBefore previous blocks n ≠ some "list_output"

theorem isMisplacedFrom_succ {previous : Option String} {n : Nat} {c : Block} :
    IsMisplacedFrom previous (b :: rest) (n + 1) c ↔ IsMisplacedFrom (some b.command) rest n c := by
  have hbefore : commandBefore previous (b :: rest) (n + 1) =
      commandBefore (some b.command) rest n := by
    cases n <;> rfl
  rw [IsMisplacedFrom, IsMisplacedFrom, List.getElem?_cons_succ, hbefore]

theorem isMisplaced_iff {n : Nat} : IsMisplaced blocks n b ↔ IsMisplacedFrom none blocks n b := by
  have hbefore : FollowsReport blocks n ↔ commandBefore none blocks n = some "list_output" := by
    cases n with
    | zero =>
      refine iff_of_false ?_ nofun
      rintro ⟨m, r, hm, -⟩
      cases hm
    | succ n =>
      rw [commandBefore, Option.map_eq_some_iff]
      exact ⟨fun ⟨m, r, h, hr⟩ => ⟨r, Nat.succ.inj h ▸ hr⟩, fun ⟨r, hr⟩ => ⟨n, r, rfl, hr⟩⟩
  rw [IsMisplaced, hbefore]
  rfl

/-- The check ends at the first block that is misplaced. -/
theorem checkOrderFrom_cases (previous : Option String) (blocks : List Block) :
    checkOrderFrom previous blocks = .ok () ∧ (∀ n b, ¬ IsMisplacedFrom previous blocks n b) ∨
    ∃ n b, checkOrderFrom previous blocks = .error (.misplaced b.startLine) ∧
      IsMisplacedFrom previous blocks n b ∧ ∀ m < n, ∀ c, ¬ IsMisplacedFrom previous blocks m c := by
  induction blocks generalizing previous with
  | nil => exact .inl ⟨rfl, fun n b h => nomatch h.1⟩
  | cons b rest ih =>
    by_cases hb : IsMisplacedFrom previous (b :: rest) 0 b
    · refine .inr ⟨0, b, ?_, hb, nofun⟩
      rw [checkOrderFrom, if_pos (by simpa [commandBefore] using hb.2)]
    · have hzero : ∀ c, ¬ IsMisplacedFrom previous (b :: rest) 0 c := by
        intro c hc
        obtain rfl : b = c := Option.some.inj hc.1
        exact hb hc
      have hcheck : checkOrderFrom previous (b :: rest) = checkOrderFrom (some b.command) rest := by
        rw [checkOrderFrom, if_neg]
        intro h
        exact hb ⟨rfl, by simpa [commandBefore] using h⟩
      rw [hcheck]
      rcases ih (some b.command) with ⟨hok, hnone⟩ | ⟨n, c, herror, hc, hfirst⟩
      · refine .inl ⟨hok, fun n c => ?_⟩
        cases n with
        | zero => exact hzero c
        | succ n => exact isMisplacedFrom_succ.not.mpr (hnone n c)
      · refine .inr ⟨n + 1, c, herror, isMisplacedFrom_succ.mpr hc, fun m hm d => ?_⟩
        cases m with
        | zero => exact hzero d
        | succ m => exact isMisplacedFrom_succ.not.mpr (hfirst m (Nat.lt_of_succ_lt_succ hm) d)

/-- Blocks are in order if each block on parameter files has a report block directly before it.
Otherwise the fault is at the first line of the first block that has none. -/
theorem checkOrder_iff (blocks : List Block) :
    (checkOrder blocks = .ok () ↔ ∀ n b, blocks[n]? = some b → b.command = "write_pest_files" →
      FollowsReport blocks n) ∧
    ∀ fault, checkOrder blocks = .error fault ↔ ∃ n b, IsMisplaced blocks n b ∧
      (∀ m < n, ∀ c, ¬ IsMisplaced blocks m c) ∧ fault = .misplaced b.startLine := by
  have hall : (∀ n b, blocks[n]? = some b → b.command = "write_pest_files" →
      FollowsReport blocks n) ↔ ∀ n b, ¬ IsMisplaced blocks n b := by
    simp only [IsMisplaced, not_and, not_not]
  rw [hall]
  simp only [isMisplaced_iff, checkOrder]
  rcases checkOrderFrom_cases none blocks with ⟨hok, hnone⟩ | ⟨n, b, herror, hb, hfirst⟩
  · rw [hok]
    refine ⟨iff_of_true rfl hnone, fun fault => iff_of_false nofun ?_⟩
    rintro ⟨n, b, hb, -⟩
    exact hnone n b hb
  · rw [herror]
    refine ⟨iff_of_false nofun fun hnone => hnone n b hb, fun fault => ?_⟩
    constructor
    · intro h
      exact ⟨n, b, hb, hfirst, (Except.error.inj h).symm⟩
    · rintro ⟨m, c, hc, hbefore, rfl⟩
      -- Each of the two is the first one.
      have hmn : m = n := by
        rcases Nat.lt_trichotomy m n with hlt | heq | hlt
        · exact absurd hc (hfirst m hlt c)
        · exact heq
        · exact absurd hb (hbefore n hlt b)
      obtain rfl : b = c := Option.some.inj (hb.1.symm.trans (hmn ▸ hc.1))
      rfl

/-! ## Invocations -/

/-- An invocation of a file comes from a block, and those before it from that block and the blocks
before. -/
theorem split_unrolled {outs : List (List Invocation × List Notice)}
    (h : List.Forall₂ (fun b out => unroll b = .ok out) blocks outs) {i : Invocation}
    {before after : List Invocation} (hi : outs.flatMap Prod.fst = before ++ i :: after) :
    ∃ front b rest outs' out done following, blocks = front ++ b :: rest ∧
      List.Forall₂ (fun b out => unroll b = .ok out) front outs' ∧ unroll b = .ok out ∧
      out.1 = done ++ i :: following ∧ before = outs'.flatMap Prod.fst ++ done := by
  induction h generalizing before with
  | nil => simp at hi
  | @cons b out rest outs hout hrest ih =>
    rw [List.flatMap_cons] at hi
    rcases List.append_eq_append_iff.mp hi with ⟨more, rfl, hmore⟩ | ⟨more, hb, hmore⟩
    · obtain ⟨front, c, rest', outs', out', done, following, rfl, hfront, hc, hdone, rfl⟩ := ih hmore
      refine ⟨b :: front, c, rest', out :: outs', out', done, following, rfl, .cons hout hfront, hc,
        hdone, ?_⟩
      rw [List.flatMap_cons, List.append_assoc]
    · cases more with
      | nil =>
        obtain ⟨front, c, rest', outs', out', done, following, rfl, hfront, hc, hdone, hnil⟩ :=
          ih (show _ = [] ++ i :: after from hmore.symm)
        refine ⟨b :: front, c, rest', out :: outs', out', done, following, rfl, .cons hout hfront,
          hc, hdone, ?_⟩
        rw [List.append_nil] at hb
        rw [List.flatMap_cons, List.append_assoc, ← hnil, hb, List.append_nil]
      | cons j more =>
        obtain ⟨rfl, -⟩ := List.cons.inj hmore
        exact ⟨[], b, rest, [], out, before, more, rfl, .nil, hout, hb, rfl⟩

/-- An invocation on parameter files comes from a block, and if that is spelled so in lower case the
invocation of a report block comes directly before. -/
theorem Script.report_before {source : String} {sc : Script} (h : Script.read source = .ok sc)
    {i : Invocation} {before after : List Invocation} (hi : sc.invocations = before ++ i :: after) :
    ∃ front b rest, sc.blocks = front ++ b :: rest ∧ b.origin = i.origin ∧
      (b.command = "write_pest_files" → ∃ earlier report done r, front = earlier ++ [report] ∧
        report.command = "list_output" ∧ before = done ++ [r] ∧ r.origin = report.origin) := by
  obtain ⟨blocks, -, h⟩ := bind_eq_ok.mp h
  obtain ⟨⟨⟩, horder, h⟩ := bind_eq_ok.mp h
  obtain ⟨unrolled, hunroll, h⟩ := bind_eq_ok.mp h
  obtain rfl := Except.ok.inj h
  obtain ⟨front, b, rest, outs, out, done, following, rfl, hfront, hout, hdone, rfl⟩ :=
    split_unrolled (mapM_eq_ok.mp hunroll) hi
  refine ⟨front, b, rest, rfl, (origin_of_unroll hout i (by simp [hdone])).symm, fun hpest => ?_⟩
  obtain ⟨earlier, report, rfl, hreport⟩ := report_of_checkOrder horder hpest
  -- Both blocks are run once.
  obtain ⟨j, hj, -⟩ := unroll_of_runOnce (by rw [hpest]; decide) hout
  have hlength := congrArg List.length hdone
  simp only [hj, List.length_append, List.length_cons, List.length_nil] at hlength
  obtain rfl : done = [] := List.eq_nil_of_length_eq_zero (by omega)
  obtain ⟨outs', last, -, hlast, rfl⟩ := mapM_concat_eq_ok.mp (mapM_eq_ok.mpr hfront)
  obtain ⟨r, hr, horigin⟩ := unroll_of_runOnce (by rw [hreport]; decide) hlast
  refine ⟨earlier, report, outs'.flatMap Prod.fst, r, rfl, hreport, ?_, horigin⟩
  simp [hr]

end Hydroseries.Control
