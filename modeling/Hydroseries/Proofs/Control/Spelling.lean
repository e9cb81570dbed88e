import Hydroseries.Proofs.Control.Order
import Hydroseries.Proofs.Text.Case

/-!
# Spellings of commands

Blocks are unrolled and ordered by their names in lower case, and run by the capitals of these. The two
agree on what is run once and on what needs a report before it, unless the name has a character outside
ASCII that turns into ASCII letters in capitals, such as a long s or a ligature
(`commands_of_spellings`). A block with such a name is run under the capitals, but neither kept together
nor looked at when the order of the blocks is checked.
-/

namespace Hydroseries.Control

open Text (IsDisguised)

variable {b : Block} {source : String} {sc : Script} {out : List Invocation × List Notice}

/-! ## Names of commands that are run once -/

theorem runOnce_ascii : ∀ name ∈ runOnce, ∀ c ∈ (Text.upper name).toList, c.toNat < 0x80 := by
  have hall : ∀ name ∈ runOnce, (Text.upper name).toList.all (·.toNat < 0x80) = true := by
    decide +kernel
  exact fun name hname c hc => of_decide_eq_true (List.all_eq_true.mp (hall name hname) c hc)

theorem runOnce_plain : ∀ name ∈ runOnce, ¬ IsDisguised name := by
  decide +kernel

theorem lower_upper_runOnce : ∀ name ∈ runOnce, Text.lower (Text.upper name) = name := by
  decide +kernel

/-- A block with the capitals of a command that is run once has the name of that command, if it is not
disguised. -/
theorem command_of_title {name command : String} (hb : b.command = Text.lower name)
    (hcommand : command ∈ runOnce) (htitle : b.title = Text.upper command)
    (hplain : ¬ IsDisguised b.command) : b.command = command := by
  have hcapitals : Text.upper (Text.lower name) = Text.upper command := hb ▸ htitle
  have hascii := runOnce_ascii command hcommand
  rw [← hcapitals] at hascii
  calc b.command
      = Text.lower (Text.upper (Text.lower name)) := by
        rw [Text.lower_upper hascii (hb ▸ hplain), hb]
    _ = command := by rw [hcapitals, lower_upper_runOnce command hcommand]

/-! ## Blocks of a file -/

/-- The steps in which a file is read. -/
theorem Script.read_eq_ok : Script.read source = .ok sc ↔
    blocksOf source = .ok sc.blocks ∧ checkOrder sc.blocks = .ok () ∧
      ∃ outs, List.Forall₂ (fun b out => unroll b = .ok out) sc.blocks outs ∧
        sc.invocations = outs.flatMap Prod.fst ∧ sc.notices = outs.flatMap Prod.snd := by
  unfold Script.read
  simp only [bind_eq_ok, ← mapM_eq_ok]
  constructor
  · rintro ⟨blocks, hblocks, ⟨⟩, horder, outs, houts, hsc⟩
    obtain rfl := Except.ok.inj hsc
    exact ⟨hblocks, horder, outs, houts, rfl, rfl⟩
  · rintro ⟨hblocks, horder, outs, houts, hinvocations, hnotices⟩
    refine ⟨sc.blocks, hblocks, (), horder, outs, houts, ?_⟩
    rw [← hinvocations, ← hnotices]
    rfl

/-- A block with a disguised name is unrolled, whatever its capitals. -/
theorem length_unroll_of_disguised {blocks : List Block} (h : blocksOf source = .ok blocks)
    (hb : b ∈ blocks) (hdisguised : IsDisguised b.command) (hout : unroll b = .ok out) :
    out.1.length = mostValues b.body ∧ ∀ l ∈ b.body, l.values ≠ [] := by
  obtain ⟨start, entries, last, -, hbody, -, -, -, hvalues⟩ := lines_of_blocksOf h hb
  rw [← hbody] at hvalues
  have hnot : b.command ∉ runOnce := fun hmem => runOnce_plain _ hmem hdisguised
  rw [mem_runOnce, not_or, Bool.not_eq_false] at hnot
  rw [unroll_of_rollable hnot.2 hnot.1] at hout
  rw [← Except.ok.inj hout, List.length_map, List.length_range, widest_eq hvalues,
    Nat.add_sub_cancel]
  exact ⟨rfl, hvalues⟩

/-- A command of those that are run once is run once for a block unless the name of the block is
disguised and some line of it has two values; and if the name is not disguised, a block on parameter
files directly follows one whose only invocation is a report. -/
theorem commands_of_spellings (h : Script.read source = .ok sc) :
    ∃ outs, List.Forall₂ (fun b out => unroll b = .ok out) sc.blocks outs ∧
      sc.invocations = outs.flatMap Prod.fst ∧
      ∀ front b rest, sc.blocks = front ++ b :: rest → ∀ out, unroll b = .ok out → ∀ i ∈ out.1,
        (i.command ∈ runOnce.map Text.upper →
          (out.1 = [i] ↔ ¬ IsDisguised b.command ∨ ∀ l ∈ b.body, l.values.length ≤ 1)) ∧
        (i.command = "WRITE_PEST_FILES" → ¬ IsDisguised b.command →
          ∃ earlier report r notices, front = earlier ++ [report] ∧
            unroll report = .ok ([r], notices) ∧ r.command = "LIST_OUTPUT") := by
  obtain ⟨hblocks, horder, outs, houts, hinvocations, -⟩ := Script.read_eq_ok.mp h
  refine ⟨outs, houts, hinvocations, fun front b rest hsplit out hout i hi => ?_⟩
  have hb : b ∈ sc.blocks := hsplit ▸ List.mem_append_right _ List.mem_cons_self
  obtain ⟨start, entries, last, -, -, -, -, ⟨name, -, hname⟩, -⟩ := lines_of_blocksOf hblocks hb
  have htitle := command_of_unroll hout i hi
  constructor
  · intro hmem
    obtain ⟨command, hcommand, hupper⟩ := List.mem_map.mp hmem
    by_cases hdisguised : IsDisguised b.command
    · obtain ⟨hlength, hvalues⟩ := length_unroll_of_disguised hblocks hb hdisguised hout
      have hone : out.1 = [i] ↔ out.1.length = 1 := by
        constructor
        · intro hout
          rw [hout, List.length_singleton]
        · intro hlength
          obtain ⟨j, hj⟩ := List.length_eq_one_iff.mp hlength
          rw [hj, List.mem_singleton] at hi
          rw [hj, hi]
      have hleast := one_le_mostValues hvalues
      rw [hone, hlength, ← mostValues_le_iff (Nat.le_refl 1) hvalues]
      simp only [hdisguised, not_true_eq_false, false_or]
      omega
    · have hruns := command_of_title hname hcommand (htitle.symm.trans hupper.symm) hdisguised
      obtain ⟨j, hj, -⟩ := unroll_of_runOnce (hruns ▸ hcommand) hout
      rw [hj, List.mem_singleton] at hi
      simp only [hdisguised, not_false_eq_true, true_or, iff_true]
      rw [hj, hi]
  · intro hpest hplain
    have hcommand : b.command = "write_pest_files" :=
      command_of_title hname (by decide) (htitle.symm.trans (hpest.trans (by decide +kernel))) hplain
    obtain ⟨earlier, report, rfl, hreport⟩ := report_of_checkOrder (hsplit ▸ horder) hcommand
    have hmem : report ∈ sc.blocks := by simp [hsplit]
    obtain ⟨n, hn⟩ := List.mem_iff_getElem?.mp hmem
    obtain ⟨out', -, hout'⟩ := getElem?_of_mapM (mapM_eq_ok.mpr houts) hn
    obtain ⟨r, hr, horigin⟩ := unroll_of_runOnce (by rw [hreport]; decide) hout'
    refine ⟨earlier, report, r, out'.2, rfl, by rw [hout', ← hr], ?_⟩
    rw [show r.command = report.title from congrArg Origin.command horigin, Block.title, hreport]
    decide +kernel

/-! ## Disguised names -/

/-- Settings with a long s, and parameter files with a dotless i. -/
def disguisedText : String :=
  "START ſettings\n CONTEXT a b\nEND ſettings\nSTART wrıte_pest_files\n CONTEXT a\n" ++
    "END wrıte_pest_files\n"

theorem read_disguised : (Script.read disguisedText).toOption.map
    (fun sc => (sc.blocks.map Block.startLine, sc.invocations.map Invocation.origin)) =
      some ([1, 4], [⟨"SETTINGS", 1⟩, ⟨"SETTINGS", 1⟩, ⟨"WRITE_PEST_FILES", 4⟩]) := by
  decide +kernel

theorem commands_of_disguised : ∃ sc, Script.read disguisedText = .ok sc ∧
    ∃ outs, List.Forall₂ (fun b out => unroll b = .ok out) sc.blocks outs ∧
      sc.invocations = outs.flatMap Prod.fst ∧
      ∀ front b rest, sc.blocks = front ++ b :: rest → ∀ out, unroll b = .ok out → ∀ i ∈ out.1,
        i.command ∈ runOnce.map Text.upper →
          (out.1 = [i] ↔ ¬ IsDisguised b.command ∨ ∀ l ∈ b.body, l.values.length ≤ 1) := by
  obtain ⟨sc, hread, -⟩ := ok_of_toOption_map read_disguised
  obtain ⟨outs, houts, hinvocations, hblocks⟩ := commands_of_spellings hread
  exact ⟨sc, hread, outs, houts, hinvocations, fun front b rest hsplit out hout i hi =>
    (hblocks front b rest hsplit out hout i hi).1⟩

/-- The settings are run twice, and parameter files are written for no report. -/
theorem disguised_commands_run : ∃ sc, Script.read disguisedText = .ok sc ∧
    sc.blocks.map Block.startLine = [1, 4] ∧ sc.invocations.map Invocation.origin =
      [⟨"SETTINGS", 1⟩, ⟨"SETTINGS", 1⟩, ⟨"WRITE_PEST_FILES", 4⟩] := by
  obtain ⟨sc, hread, hsc⟩ := ok_of_toOption_map read_disguised
  obtain ⟨hlines, horigins⟩ := Prod.mk.inj hsc
  exact ⟨sc, hread, hlines, horigins⟩

end Hydroseries.Control
