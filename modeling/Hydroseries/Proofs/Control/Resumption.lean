import Hydroseries.Control.Reader
import Hydroseries.Proofs.Stateful

/-!
# Reading on behind refused lines

A step of the reader changes its state as it goes, but whatever may refuse a line comes before the
first change: the state behind a refused line is the state before it (`exec_feed`). So reading on
behind refused lines gives what reading without them gives (`reading_of_taken`).
-/

namespace Hydroseries.Control.Reader

variable {s : Open} {n : Nat} {raw : List Char} {lines : List (Nat × List Char)}

/-- A line changes the state as it does for the reader that stops at a fault, and not at all if it is
refused. -/
theorem exec_feed (s : Open) (n : Nat) (raw : List Char) :
    Stateful.exec (feed n raw) s = match s.feed n raw with
      | .ok (block?, s') => (.ok block?, s')
      | .error fault => (.error fault, s) := by
  unfold feed Open.feed
  cases Line.ofChars? raw with
  | none => rfl
  | some line =>
    simp only [Stateful.exec_get, Open.take]
    cases s with
    | none =>
      split
      · cases line.values <;> rfl
      · split <;> rfl
    | some block =>
      dsimp only
      split
      · rfl
      · split
        · by_cases hname : Text.lower (line.values.head?.getD "") = block.command
          · rw [if_neg fun h => h hname, if_pos hname]
            rfl
          · rw [if_pos hname, if_neg hname]
            rfl
        · split <;> rfl

/-! ## Lines one after the other -/

/-- The blocks that lines have finished. -/
def finished (results : List (Outcome (Option Block))) : List Block :=
  results.filterMap fun result => result.toOption.join

/-- The lines that are not refused when all of them are fed, with their numbers. -/
def taken (s : Open) (lines : List (Nat × List Char)) : List (Nat × List Char) :=
  ((lines.zip ((feedAll lines).run s).1).filter fun p => p.2.isOk).map Prod.fst

/-- The blocks of lines, and whether the last one is closed. -/
def reading (s : Open) (lines : List (Nat × List Char)) : List Block × Outcome Unit :=
  (finished ((feedAll lines).run s).1, ((feedAll lines).run s).2.finish)

/-- The first line is fed to the state, and the others to the state that it leaves. -/
theorem run_feedAll_cons (s : Open) (l : Nat × List Char) (lines : List (Nat × List Char)) :
    (feedAll (l :: lines)).run s =
      ((Stateful.exec (feed l.1 l.2) s).1 ::
          ((feedAll lines).run (Stateful.exec (feed l.1 l.2) s).2).1,
        ((feedAll lines).run (Stateful.exec (feed l.1 l.2) s).2).2) := by
  unfold feedAll
  rw [List.mapM_cons]
  rfl

theorem taken_cons (s : Open) (l : Nat × List Char) (lines : List (Nat × List Char)) :
    taken s (l :: lines) =
      if (Stateful.exec (feed l.1 l.2) s).1.isOk then
        l :: taken (Stateful.exec (feed l.1 l.2) s).2 lines
      else taken (Stateful.exec (feed l.1 l.2) s).2 lines := by
  rw [taken, run_feedAll_cons, List.zip_cons_cons, List.filter_cons]
  split <;> rfl

theorem finished_cons (result : Outcome (Option Block)) (results : List (Outcome (Option Block))) :
    finished (result :: results) = result.toOption.join.toList ++ finished results := by
  rw [finished, List.filterMap_cons]
  cases result.toOption.join <;> rfl

theorem reading_cons_of_refused {l : Nat × List Char} {fault : Fault}
    (h : s.feed l.1 l.2 = .error fault) : reading s (l :: lines) = reading s lines := by
  have hexec : Stateful.exec (feed l.1 l.2) s = (.error fault, s) := by rw [exec_feed, h]
  rw [reading, run_feedAll_cons, hexec, finished_cons]
  rfl

theorem reading_cons {l : Nat × List Char} {block? : Option Block} {s' : Open}
    (h : s.feed l.1 l.2 = .ok (block?, s')) :
    reading s (l :: lines) = (block?.toList ++ (reading s' lines).1, (reading s' lines).2) := by
  have hexec : Stateful.exec (feed l.1 l.2) s = (.ok block?, s') := by rw [exec_feed, h]
  rw [reading, run_feedAll_cons, hexec, finished_cons]
  rfl

/-- A refused line finishes no block. -/
theorem finished_filter (results : List (Outcome (Option Block))) :
    finished (results.filter Except.isOk) = finished results := by
  induction results with
  | nil => rfl
  | cons result results ih =>
    cases result with
    | error fault => exact ih
    | ok block? => rw [List.filter_cons_of_pos rfl, finished_cons, finished_cons, ih]

/-- The lines that are taken have the same results without the refused ones, and lead to the same
state. -/
theorem run_feedAll_taken (s : Open) (lines : List (Nat × List Char)) :
    (feedAll (taken s lines)).run s =
      (((feedAll lines).run s).1.filter Except.isOk, ((feedAll lines).run s).2) := by
  induction lines generalizing s with
  | nil => rfl
  | cons l lines ih =>
    rw [taken_cons, run_feedAll_cons]
    cases hfeed : s.feed l.1 l.2 with
    | error fault =>
      have hexec : Stateful.exec (feed l.1 l.2) s = (.error fault, s) := by rw [exec_feed, hfeed]
      rw [hexec]
      exact ih s
    | ok after =>
      have hexec : Stateful.exec (feed l.1 l.2) s = (.ok after.1, after.2) := by
        rw [exec_feed, hfeed]
      have hok : (Except.ok after.1 : Outcome (Option Block)).isOk = true := rfl
      simp only [hexec, hok, if_true, run_feedAll_cons, ih, List.filter_cons_of_pos]

/-- A refused line leaves the state as it was. So lines with refused ones among them have the blocks,
and the end, of the lines that are taken, each under its own number, and none of these is refused when
only they are fed. -/
theorem reading_of_taken (s : Open) (lines : List (Nat × List Char)) :
    (∀ n raw fault s', Stateful.exec (feed n raw) s = (.error fault, s') → s' = s) ∧
    reading s (taken s lines) = reading s lines ∧
    ∀ result ∈ ((feedAll (taken s lines)).run s).1, ∃ block?, result = .ok block? := by
  have hrun := run_feedAll_taken s lines
  refine ⟨fun n raw fault s' h => ?_, ?_, fun result hresult => ?_⟩
  · rw [exec_feed] at h
    split at h
    · cases h
    · exact (Prod.mk.inj h).2.symm
  · rw [reading, hrun, finished_filter]
    rfl
  · rw [hrun] at hresult
    have hok := (List.mem_filter.mp hresult).2
    cases result with
    | error fault => cases hok
    | ok block? => exact ⟨block?, rfl⟩

/-! ## Reading without faults -/

/-- Lines with their numbers, of which the first is `n`. -/
def numbered (n : Nat) (raws : List (List Char)) : List (Nat × List Char) :=
  (raws.zipIdx n).map Prod.swap

/-- A text without faults has the blocks that it has for the reader that stops at a fault. -/
theorem reading_of_blocksFrom {raws : List (List Char)} {blocks : List Block}
    (h : blocksFrom s n raws = .ok blocks) : reading s (numbered n raws) = (blocks, .ok ()) := by
  induction raws generalizing s n blocks with
  | nil =>
    obtain ⟨⟨⟩, hfinish, h⟩ := bind_eq_ok.mp h
    rw [← Except.ok.inj h, ← hfinish]
    rfl
  | cons raw raws ih =>
    obtain ⟨⟨block?, s'⟩, hfeed, h⟩ := bind_eq_ok.mp h
    obtain ⟨later, hlater, h⟩ := bind_eq_ok.mp h
    have hcons : numbered n (raw :: raws) = (n, raw) :: numbered (n + 1) raws := rfl
    rw [hcons, reading_cons hfeed, ih hlater, ← Except.ok.inj h]

/-- A second opening line is refused, and the block that is open is read on. -/
example : (reading none (numbered 1 (Text.linesOf
    "START COPY\nSTART MOVE\n k v\nEND copy\n".toList))).1 =
      [⟨"copy", 1, [⟨"start", ["COPY"]⟩, ⟨"k", ["v"]⟩, ⟨"end", ["copy"]⟩]⟩] := by
  decide +kernel

end Hydroseries.Control.Reader
