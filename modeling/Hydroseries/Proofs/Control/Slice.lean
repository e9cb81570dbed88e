import Hydroseries.Proofs.Control.Context
import Hydroseries.Proofs.Control.Spelling

/-!
# Blocks that list several values

A block may list several values of some keywords and one of each other (`Lists`). If its command
collects lines it has one invocation with all the values, and if it is unrolled it has one for each
position. An invocation for a position is a slice of the other one (`slice_of_lists`): it has one of
the listed values, and what stands under the other keywords is read the same.
-/

namespace Hydroseries.Control

variable {several : List String} {n position : Nat} {lines entries : List Line} {start : Line}
  {origin origin' : Origin} {command key : String} {i m r : Invocation}

/-- There is one line for each of some keywords, with `n` values, and all other lines have one
value. -/
structure Lists (several : List String) (n : Nat) (lines : List Line) : Prop where
  listed : ∀ key ∈ several, ∃ l, lines.filter (fun l => l.keyword = key) = [l] ∧ l.values.length = n
  single : ∀ l ∈ lines, l.keyword ∉ several → l.values.length = 1

/-- What is found under a keyword is not blank. -/
def Filled (i : Invocation) : Prop := ∀ key v, i.find? key = some v → v.isBlank = false

/-- `r` has the value at a position of each of the keywords that `m` has `n` words of, and the texts
under all other keywords are the same. -/
structure Slice (several : List String) (n position : Nat) (m r : Invocation) : Prop where
  first? : ∀ key ∉ several, (r.find? key).bind Value.first? = (m.find? key).bind Value.first?
  listed : ∀ key ∈ several, ∃ words w, m.find? key = some (.list [Text.join " " words]) ∧
    words.length = n ∧ (∀ w ∈ words, Text.IsWord w.toList) ∧ words[position]? = some w ∧
    r.find? key = some (.scalar w)

/-- Lines of a block of a text, which have words for values. -/
def Wordy (lines : List Line) : Prop :=
  ∀ l ∈ lines, l.values ≠ [] ∧ ∀ v ∈ l.values, Text.IsWord v.toList

/-! ## Values -/

theorem isSome_first? {v : Value} (h : v.isBlank = false) : v.first?.isSome = true := by
  rw [Value.first?, List.isSome_head?]
  intro hnil
  rw [Value.isBlank, hnil] at h
  cases h

/-- The same keywords are found in both. -/
theorem Slice.isSome (h : Slice several n position m r) (hm : Filled m) (hr : Filled r)
    (key : String) : (r.find? key).isSome = (m.find? key).isSome := by
  have hfound {i : Invocation} (hi : Filled i) :
      (i.find? key).isSome = ((i.find? key).bind Value.first?).isSome := by
    cases hv : i.find? key with
    | none => rfl
    | some v => exact (isSome_first? (hi key v hv)).symm
  by_cases hkey : key ∈ several
  · obtain ⟨words, w, hwords, -, -, -, hw⟩ := h.listed key hkey
    rw [hwords, hw]
    rfl
  · rw [hfound hm, hfound hr, h.first? key hkey]

theorem Slice.context? (h : Slice several n position m r) (hcontext : "context" ∉ several) :
    r.context? = m.context? := h.first? "context" hcontext

/-! ## Collected lines and lines by position -/

theorem find?_collected (hcollecting : collecting.contains command = true) :
    (singleInvocation command origin lines).find? key = collected? (textsAt key lines) := by
  rw [← lookup_collected, singleInvocation, if_pos hcollecting]
  rfl

theorem filled_collected (hcollecting : collecting.contains command = true) (hlines : Wordy lines) :
    Filled (singleInvocation command origin lines) := by
  intro key v hv
  rw [find?_collected hcollecting, collected?] at hv
  cases htexts : textsAt key lines with
  | nil =>
    rw [htexts] at hv
    cases hv
  | cons text texts =>
    rw [htexts] at hv
    obtain rfl := Option.some.inj hv
    have hmem : text ∈ textsAt key lines := htexts ▸ List.mem_cons_self
    obtain ⟨l, hl, rfl⟩ := List.mem_map.mp hmem
    obtain ⟨hvalues, hwords⟩ := hlines l (List.mem_filter.mp hl).1
    have hblank : Text.isAllBlank l.joined = false := Text.isAllBlank_join hvalues hwords
    rw [Value.isBlank, Value.entries, List.all_cons, hblank, Bool.false_and]

theorem filled_invocationAt (hlines : Wordy lines) :
    Filled (invocationAt origin lines position) := by
  intro key v hv
  rw [find?_invocationAt fun l hl => (hlines l hl).1] at hv
  obtain ⟨l, hl, hv⟩ := Option.bind_eq_some_iff.mp hv
  obtain ⟨w, hw, rfl⟩ := Option.map_eq_some_iff.mp hv
  have hword : Text.IsWord w.toList := by
    apply (hlines l (List.mem_of_find?_eq_some hl)).2
    rcases valueOrLast?_eq_some hw with hw | ⟨-, hw⟩
    · exact List.mem_of_getElem? hw
    · exact List.mem_of_getLast? hw
  rw [Value.isBlank, Value.entries, List.all_cons, Text.isAllBlank_word hword, Bool.false_and]

/-- The invocation for a position is a slice of the one that collects the lines. -/
theorem slice_of_lists (hcollecting : collecting.contains command = true) (hlines : Wordy lines)
    (h : Lists several n lines) (hposition : position < n) :
    Slice several n position (singleInvocation command origin lines)
      (invocationAt origin' lines position) := by
  have hvalues : ∀ l ∈ lines, l.values ≠ [] := fun l hl => (hlines l hl).1
  constructor
  · intro key hkey
    rw [find?_collected hcollecting, first?_collected, find?_invocationAt hvalues]
    cases hl : lines.find? fun l => l.keyword = key with
    | none => rfl
    | some l =>
      have hmem := List.mem_of_find?_eq_some hl
      have hkeyword : l.keyword = key := by simpa using List.find?_some hl
      obtain ⟨v, hv⟩ := List.length_eq_one_iff.mp (h.single l hmem (hkeyword ▸ hkey))
      have hvalue : l.valueOrLast? position = some v := by
        unfold Line.valueOrLast?
        rw [hv]
        cases position <;> rfl
      have hjoined : l.joined = v := by
        rw [Line.joined, hv]
        rfl
      simp [hvalue, hjoined, Value.first?, Value.entries]
  · intro key hkey
    obtain ⟨l, hl, hlength⟩ := h.listed key hkey
    have hmem : l ∈ lines := (List.mem_filter.mp (hl ▸ List.mem_singleton_self l)).1
    have hfirst : lines.find? (fun l => l.keyword = key) = some l := by
      rw [← List.head?_filter, hl]
      rfl
    have hvalue : l.values[position]? = some l.values[position] :=
      List.getElem?_eq_getElem (hlength ▸ hposition)
    refine ⟨l.values, l.values[position], ?_, hlength, (hlines l hmem).2, hvalue, ?_⟩
    · rw [find?_collected hcollecting, textsAt, hl]
      rfl
    · rw [find?_invocationAt hvalues, hfirst, Option.bind_some, Line.valueOrLast?, hvalue]
      rfl

/-! ## Invocations of a block -/

/-- The command of a block that lists `n` values is run for `n` positions, if there are no more
words behind its name. -/
theorem unroll_of_lists {b : Block} (hrollable : isRollable b.command = true)
    (hsettings : b.command ≠ "settings") (hbody : b.body = start :: entries)
    (hstart : start.values ≠ []) (hshort : start.values.length ≤ n) (hentries : Wordy entries)
    (h : Lists several n entries) (hsome : several ≠ []) :
    unroll b = .ok ((List.range n).map (invocationAt b.origin entries), []) := by
  have hvalues : ∀ l ∈ start :: entries, l.values ≠ [] :=
    List.forall_mem_cons.mpr ⟨hstart, fun l hl => (hentries l hl).1⟩
  have hn : 1 ≤ n := Nat.le_trans (List.length_pos_iff.mpr hstart) hshort
  have hwidest : widest b.body - 1 = n := by
    rw [hbody, widest_eq hvalues, Nat.add_sub_cancel]
    apply Nat.le_antisymm
    · rw [mostValues_le_iff hn hvalues, List.forall_mem_cons]
      refine ⟨hshort, fun l hl => ?_⟩
      by_cases hkey : l.keyword ∈ several
      · obtain ⟨l', hl', hlength⟩ := h.listed l.keyword hkey
        have hmem : l ∈ entries.filter fun l' => l'.keyword = l.keyword :=
          List.mem_filter.mpr ⟨hl, by simp⟩
        rw [hl', List.mem_singleton] at hmem
        exact Nat.le_of_eq (hmem ▸ hlength)
      · rw [h.single l hl hkey]
        exact hn
    · obtain ⟨key, rest, rfl⟩ := List.exists_cons_of_ne_nil hsome
      obtain ⟨l, hl, rfl⟩ := h.listed key List.mem_cons_self
      have hmem : l ∈ entries := (List.mem_filter.mp (hl ▸ List.mem_singleton_self l)).1
      exact (mostValues_le_iff (one_le_mostValues hvalues) hvalues).mp (Nat.le_refl _) l
        (List.mem_cons_of_mem _ hmem)
  rw [unroll_of_rollable hrollable hsettings, hwidest, hbody]
  rfl

theorem unroll_of_collecting {b : Block} (hcollecting : collecting.contains b.command = true)
    (hpest : b.command ≠ "write_pest_files") :
    ∃ notices, unroll b = .ok ([singleInvocation b.command b.origin b.entries], notices) := by
  have hsingle : isRollable b.command = false := by rw [isRollable, hcollecting]; rfl
  unfold unroll
  simp only [hpest, hsingle, if_false, Bool.false_eq_true]
  exact ⟨_, rfl⟩

/-- A file of one block has the invocations of the block. -/
theorem Script.read_of_block {source : String} {b : Block} {out : List Invocation × List Notice}
    (hblocks : blocksOf source = .ok [b]) (hpest : b.command ≠ "write_pest_files")
    (hout : unroll b = .ok out) :
    Script.read source = .ok ⟨[b], out.1, out.2⟩ := by
  apply Script.read_eq_ok.mpr ⟨hblocks, ?_, [out], ?_, ?_, ?_⟩
  · rw [checkOrder, checkOrderFrom, if_neg (by simp [hpest])]
    rfl
  · exact .cons hout .nil
  · rw [List.flatMap_singleton]
  · rw [List.flatMap_singleton]

end Hydroseries.Control
