import Hydroseries.Proofs.Control.Resumption
import Hydroseries.Proofs.Control.Slice

/-!
# Collected lines

A block of a command that collects its lines has one invocation, and nothing of the block is lost in
it: it has each keyword once, in the order in which the keywords first occur, with one text for each
line of the keyword, so that the words under a keyword are the values of all its lines
(`invocation_of_collecting`).

The blocks are those that a reader finishes, whatever lines it has refused in between. Such a block has
a line that opens it, lines with words for values, and a line that closes it (`lines_of_isRead`).
-/

namespace Hydroseries.Control

variable {b : Block} {s s' : Open} {n : Nat} {raw : List Char} {block? : Option Block}
  {line : Line} {entries : List (String × Value)} {key : String}

/-! ## Blocks of a reader -/

/-- Lines fed to a reader that is outside of any block finish the block. -/
def Block.IsRead (b : Block) : Prop := ∃ lines, b ∈ (Reader.reading none lines).1

theorem isRead_of_blocksOf {source : String} {blocks : List Block} (h : blocksOf source = .ok blocks)
    (hb : b ∈ blocks) : b.IsRead :=
  ⟨_, by rwa [Reader.reading_of_blocksFrom h]⟩

/-- A block without the line that closes it. -/
def Block.IsBegun (b : Block) : Prop :=
  ∃ start entries, b.lines = start :: entries ∧ start.keyword = "start" ∧ Wordy entries

/-- A block with the line that closes it. -/
def Block.IsClosed (b : Block) : Prop :=
  ∃ start entries last, b.lines = start :: entries ++ [last] ∧ start.keyword = "start" ∧
    last.keyword = "end" ∧ Wordy entries

theorem isWord_of_ofChars? (h : Line.ofChars? raw = some line) :
    ∀ v ∈ line.values, Text.IsWord v.toList := by
  intro v hv
  obtain ⟨code, -, h⟩ := Option.bind_eq_some_iff.mp h
  split at h
  · cases h
  next word values hwords =>
    obtain rfl := Option.some.inj h
    obtain ⟨value, hvalue, rfl⟩ := List.mem_map.mp hv
    rw [String.toList_ofList]
    exact Text.isWord_of_mem_wordsOf value (hwords ▸ List.mem_cons_of_mem _ hvalue)

/-- What a line does if it is not refused. -/
inductive Takes (n : Nat) (line : Line) : Open → Option Block → Open → Prop
  | opens (name : String) (more : List String) (hstart : line.keyword = "start")
      (hvalues : line.values = name :: more) :
      Takes n line none none (some ⟨Text.lower name, n, [line]⟩)
  | ignored (hstart : line.keyword ≠ "start") (hend : line.keyword ≠ "end") :
      Takes n line none none none
  | closes (block : Block) (hend : line.keyword = "end")
      (hname : Text.lower (line.values.head?.getD "") = block.command) :
      Takes n line (some block) (some { block with lines := block.lines ++ [line] }) none
  | adds (block : Block) (hstart : line.keyword ≠ "start") (hend : line.keyword ≠ "end")
      (hvalues : line.values ≠ []) :
      Takes n line (some block) none (some { block with lines := block.lines ++ [line] })

theorem takes_of_take (h : s.take n line = .ok (block?, s')) : Takes n line s block? s' := by
  unfold Open.take at h
  cases s with
  | none =>
    dsimp only at h
    split at h
    next hstart =>
      split at h
      · cases h
      next name more hvalues =>
        cases h
        exact .opens name more hstart hvalues
    next hstart =>
      split at h
      · cases h
      next hend =>
        cases h
        exact .ignored hstart hend
  | some block =>
    dsimp only at h
    split at h
    · cases h
    next hstart =>
      split at h
      next hend =>
        split at h
        next hname =>
          cases h
          exact .closes block hend hname
        · cases h
      next hend =>
        split at h
        · cases h
        next hvalues =>
          cases h
          exact .adds block hstart hend (by simpa using hvalues)

/-- The open block stays one that is begun, and a block is closed by the line that finishes it. -/
theorem isBegun_of_takes (hwords : ∀ v ∈ line.values, Text.IsWord v.toList)
    (h : Takes n line s block? s') (hs : ∀ b ∈ s, b.IsBegun) :
    (∀ b ∈ s', b.IsBegun) ∧ ∀ b ∈ block?, b.IsClosed := by
  cases h with
  | opens name more hstart hvalues =>
    refine ⟨fun b hb => ?_, nofun⟩
    obtain rfl := Option.some.inj hb
    exact ⟨line, [], rfl, hstart, nofun⟩
  | ignored hstart hend => exact ⟨nofun, nofun⟩
  | closes block hend hname =>
    obtain ⟨start, entries, hlines, hstart, hentries⟩ := hs block rfl
    refine ⟨nofun, fun b hb => ?_⟩
    obtain rfl := Option.some.inj hb
    exact ⟨start, entries, line, by rw [hlines], hstart, hend, hentries⟩
  | adds block hstart hend hvalues =>
    obtain ⟨start, entries, hlines, hfirst, hentries⟩ := hs block rfl
    refine ⟨fun b hb => ?_, nofun⟩
    obtain rfl := Option.some.inj hb
    refine ⟨start, entries ++ [line], by rw [hlines]; rfl, hfirst, fun l hl => ?_⟩
    rcases List.mem_append.mp hl with hl | hl
    · exact hentries l hl
    · obtain rfl := List.mem_singleton.mp hl
      exact ⟨hvalues, hwords⟩

theorem isBegun_of_feed (hs : ∀ b ∈ s, b.IsBegun) (h : s.feed n raw = .ok (block?, s')) :
    (∀ b ∈ s', b.IsBegun) ∧ ∀ b ∈ block?, b.IsClosed := by
  unfold Open.feed at h
  split at h
  · cases h
    exact ⟨hs, nofun⟩
  next line hline => exact isBegun_of_takes (isWord_of_ofChars? hline) (takes_of_take h) hs

theorem isClosed_of_reading (lines : List (Nat × List Char)) (hs : ∀ b ∈ s, b.IsBegun) :
    ∀ b ∈ (Reader.reading s lines).1, b.IsClosed := by
  induction lines generalizing s with
  | nil => exact fun b hb => absurd hb List.not_mem_nil
  | cons l lines ih =>
    intro b hb
    cases hfeed : s.feed l.1 l.2 with
    | error fault =>
      rw [Reader.reading_cons_of_refused hfeed] at hb
      exact ih hs b hb
    | ok after =>
      rw [Reader.reading_cons hfeed] at hb
      obtain ⟨hbegun, hclosed⟩ := isBegun_of_feed hs hfeed
      rcases List.mem_append.mp hb with hb | hb
      · exact hclosed b (Option.mem_toList.mp hb)
      · exact ih hbegun b hb

theorem lines_of_isRead (hb : b.IsRead) : b.IsClosed := by
  obtain ⟨lines, hb⟩ := hb
  have hnone : ∀ b ∈ (none : Open), b.IsBegun := nofun
  exact isClosed_of_reading lines hnone b hb

/-! ## Keywords and texts -/

theorem keys_collectLine (entries : List (String × Value)) (l : Line) :
    (collectLine entries l).map Prod.fst =
      if l.keyword ∈ entries.map Prod.fst then entries.map Prod.fst
      else entries.map Prod.fst ++ [l.keyword] := by
  have hany : (entries.any fun e => e.1 = l.keyword) = true ↔ l.keyword ∈ entries.map Prod.fst := by
    simp [List.any_eq_true]
  unfold collectLine
  split
  next h =>
    rw [if_pos (hany.mp h), List.map_map]
    refine List.map_congr_left fun e _ => ?_
    simp only [Function.comp_apply]
    split <;> rfl
  next h => rw [if_neg (hany.not.mp h), List.map_append]; rfl

theorem eraseDups_concat (keys : List String) (key : String) :
    (keys ++ [key]).eraseDups = if key ∈ keys then keys.eraseDups else keys.eraseDups ++ [key] := by
  rw [List.eraseDups_append, List.removeAll, List.filter_singleton]
  by_cases h : key ∈ keys <;> simp [h, List.eraseDups_cons]

/-- Keywords are collected in the order in which they first occur. -/
theorem keys_collected (lines : List Line) :
    (lines.foldl collectLine []).map Prod.fst = (lines.map Line.keyword).eraseDups := by
  induction lines using List.reverseRecOn with
  | nil => rfl
  | append_singleton lines l ih =>
    rw [List.foldl_append, List.foldl_cons, List.foldl_nil, keys_collectLine, ih, List.map_append,
      List.map_singleton, eraseDups_concat]
    simp only [List.mem_eraseDups]

theorem nodup_keys_collected (lines : List Line) :
    ((lines.foldl collectLine []).map Prod.fst).Nodup := by
  induction lines using List.reverseRecOn with
  | nil => exact List.nodup_nil
  | append_singleton lines l ih =>
    rw [List.foldl_append, List.foldl_cons, List.foldl_nil, keys_collectLine]
    split
    · exact ih
    next h =>
      refine List.nodup_append.mpr ⟨ih, by simp, fun k hk k' hk' => ?_⟩
      rw [List.mem_singleton.mp hk']
      exact fun heq => h (heq ▸ hk)

theorem lookup_of_mem {v : Value} (hkeys : (entries.map Prod.fst).Nodup) (h : (key, v) ∈ entries) :
    entries.lookup key = some v := by
  obtain ⟨front, rest, rfl⟩ := List.mem_iff_append.mp h
  refine List.lookup_eq_some_iff.mpr ⟨front, rest, rfl, fun e he => bne_iff_ne.mpr ?_⟩
  rw [List.map_append, List.map_cons, List.nodup_append] at hkeys
  exact (hkeys.2.2 e.1 (List.mem_map_of_mem he) key List.mem_cons_self).symm

/-- Each entry holds all texts of its keyword. -/
theorem texts_of_mem_collected {lines : List Line} {v : Value}
    (h : (key, v) ∈ lines.foldl collectLine []) : v = .list (textsAt key lines) := by
  have hfind := lookup_of_mem (nodup_keys_collected lines) h
  rw [lookup_collected, collected?] at hfind
  split at hfind
  · cases hfind
  · exact (Option.some.inj hfind).symm

/-- The words of collected texts are the values of their lines. -/
theorem tokens_textsAt {lines : List Line} (hlines : Wordy lines) (key : String) :
    (Value.list (textsAt key lines)).tokens =
      (lines.filter fun l => l.keyword = key).flatMap Line.values := by
  rw [Value.tokens, Value.entries, textsAt, List.flatMap_map]
  refine List.flatMap_congr fun l hl => ?_
  exact Text.words_join (hlines l (List.mem_filter.mp hl).1).2

/-! ## Invocations -/

theorem body_of_lines {start last : Line} {lines : List Line}
    (hlines : b.lines = start :: lines ++ [last]) (hlast : last.keyword = "end") :
    b.body = start :: lines := by
  rw [Block.body, hlines, List.getLast?_concat]
  simp only [hlast, if_true, List.dropLast_concat]

/-- A block of a command that collects its lines has one invocation. This has each keyword of the
block once, in the order in which they first occur, and under each keyword one text for each of its
lines, in their order, so that no value is lost. -/
theorem invocation_of_collecting (hb : b.IsRead) (hcollecting : b.command ∈ collecting)
    (hpest : b.command ≠ "write_pest_files") :
    ∃ start lines last i notices, b.lines = start :: lines ++ [last] ∧ start.keyword = "start" ∧
      last.keyword = "end" ∧ unroll b = .ok ([i], notices) ∧ i.origin = b.origin ∧
      (i.entries.map Prod.fst).Nodup ∧
      i.entries.map Prod.fst = (lines.map Line.keyword).eraseDups ∧
      ∀ key v, (key, v) ∈ i.entries →
        v = .list ((lines.filter fun l => l.keyword = key).map fun l => Text.join " " l.values) ∧
        v.tokens = (lines.filter fun l => l.keyword = key).flatMap Line.values := by
  obtain ⟨start, lines, last, hlines, hstart, hlast, hwords⟩ := lines_of_isRead hb
  obtain ⟨notices, hunroll⟩ := unroll_of_collecting (List.contains_iff_mem.mpr hcollecting) hpest
  have hentries : b.entries = lines := by rw [Block.entries, body_of_lines hlines hlast]; rfl
  have hcollected : (singleInvocation b.command b.origin b.entries).entries =
      lines.foldl collectLine [] := by
    rw [singleInvocation, if_pos (List.contains_iff_mem.mpr hcollecting), hentries]
  refine ⟨start, lines, last, _, notices, hlines, hstart, hlast, hunroll, rfl, ?_, ?_,
    fun key v hv => ?_⟩
  · rw [hcollected]
    exact nodup_keys_collected lines
  · rw [hcollected]
    exact keys_collected lines
  · rw [hcollected] at hv
    obtain rfl := texts_of_mem_collected hv
    exact ⟨rfl, tokens_textsAt hwords key⟩

/-- A report with names on several lines, and other lines in between. -/
def scatteredText : String :=
  "START LIST_OUTPUT\n CONTEXT all\n SERIES_NAME a b\n FILE out.txt\n SERIES_NAME c\n" ++
    "END LIST_OUTPUT\n"

def scatteredBlock : Block :=
  ⟨"list_output", 1, [⟨"start", ["LIST_OUTPUT"]⟩, ⟨"context", ["all"]⟩, ⟨"series_name", ["a", "b"]⟩,
    ⟨"file", ["out.txt"]⟩, ⟨"series_name", ["c"]⟩, ⟨"end", ["LIST_OUTPUT"]⟩]⟩

theorem blocksOf_scattered : blocksOf scatteredText = .ok [scatteredBlock] := by
  decide +kernel

/-- The names of both lines are kept, between the lines on the context and on the file. -/
theorem invocation_of_scattered :
    scatteredBlock.IsRead ∧ scatteredBlock.command ∈ collecting ∧
      scatteredBlock.command ≠ "write_pest_files" ∧
      ∃ i notices, unroll scatteredBlock = .ok ([i], notices) ∧
        i.entries.map Prod.fst = ["context", "series_name", "file"] ∧
        ∀ v, ("series_name", v) ∈ i.entries →
          v = .list ["a b", "c"] ∧ v.tokens = ["a", "b", "c"] := by
  have hread := isRead_of_blocksOf blocksOf_scattered List.mem_cons_self
  obtain ⟨start, lines, last, i, notices, hlines, -, -, hunroll, -, -, hkeys, htexts⟩ :=
    invocation_of_collecting hread (by decide) (by decide)
  obtain rfl : lines = [⟨"context", ["all"]⟩, ⟨"series_name", ["a", "b"]⟩, ⟨"file", ["out.txt"]⟩,
      ⟨"series_name", ["c"]⟩] := by
    have hbody := congrArg (fun ls => (ls.drop 1).dropLast) hlines
    simpa [scatteredBlock] using hbody.symm
  exact ⟨hread, by decide, by decide, i, notices, hunroll, hkeys, fun v => htexts "series_name" v⟩

end Hydroseries.Control
