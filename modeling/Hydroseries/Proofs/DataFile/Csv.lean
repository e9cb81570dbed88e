import Hydroseries.DataFile.Csv
import Hydroseries.Proofs.DataFile.Columns
import Mathlib.Data.List.Induction

/-!
# Columns of comma separated text by number

A comma separated text is read if its records are: a moment, and numbers or blanks behind it
(`read_eq_ok`). A column that is asked for by its number is found by its label: the number counts the
different labels, the label is looked up again in any case, and what is read under a label is its last
column (`Selected`). That is the column with the number if no label before it is the same up to case and
no later one is the same (`selected_of_apart`), but it may be any other column.
-/

namespace Hydroseries.DataFile.Csv

variable {path text wanted : String} {dates : DateFormat} {line n column : ℕ} {t : Timestamp}
  {record labels : List String} {table : DataTable} {window : Window}

/-! ## Records -/

/-- The labels of the columns behind that of the timestamps. -/
def dataLabels (text : String) : List String := ((trimmedRecords text).head?.getD []).drop 1

/-- The record has a timestamp. -/
def IsStamped (record : List String) : Prop := record.head?.getD "" ≠ ""

instance : Decidable (IsStamped record) := inferInstanceAs (Decidable (_ ≠ _))

/-- The records with a timestamp, below the labels. -/
def stampedRecords (text : String) : List (List String) :=
  ((trimmedRecords text).drop 1).filter (IsStamped ·)

/-- The cell is empty or `nan`. -/
def IsMissing (cell : String) : Prop :=
  (cell.isEmpty || Text.eqIgnoringAsciiCase cell "nan") = true

instance (cell : String) : Decidable (IsMissing cell) := inferInstanceAs (Decidable (_ = true))

def cellValue? (cell : String) : Option Double :=
  if IsMissing cell then none else Text.readDouble? (Text.trim cell)

def IsReadable (cell : String) : Prop :=
  IsMissing cell ∨ (Text.readDouble? (Text.trim cell)).isSome = true

/-- The value of a record in a column. -/
def value? (record : List String) (column : ℕ) : Option Double :=
  record.tail[column]?.bind cellValue?

/-- The record begins with the timestamp of a moment. -/
def StandsAt (dates : DateFormat) (record : List String) (t : Timestamp) : Prop :=
  dates.readTimestamp (record.head?.getD "") = .ok t

/-- The record is a timestamp with cells that can be read behind it. -/
structure IsRow (dates : DateFormat) (record : List String) (row : Row) : Prop where
  standsAt : StandsAt dates record row.1
  readable : ∀ cell ∈ record.tail, IsReadable cell
  values : record.tail.map cellValue? = row.2

theorem cell_eq_ok {token : String} {o : Option Double} :
    cell path line token = .ok o ↔ IsReadable token ∧ cellValue? token = o := by
  unfold cell IsReadable cellValue?
  split
  next h => simp [show IsMissing token from h]
  next h =>
    have hvalue : ¬ IsMissing token := h
    simp only [map_eq_ok, number_eq_ok, hvalue, false_or, if_false, Option.isSome_iff_exists]
    constructor
    · rintro ⟨x, hx, rfl⟩
      exact ⟨⟨x, hx⟩, hx⟩
    · rintro ⟨⟨x, hx⟩, rfl⟩
      exact ⟨x, hx, hx.symm⟩

theorem row_eq_ok {o : Option Row} : row path dates line record = .ok o ↔
    (¬ IsStamped record ∧ o = none) ∨ (IsStamped record ∧ ∃ r, o = some r ∧ IsRow dates record r) := by
  unfold row
  split
  · simp [IsStamped, eq_comm]
  · simp [IsStamped, eq_comm]
  next stamp cells hstamp =>
    have hstamped : IsStamped (stamp :: cells) := hstamp
    simp only [hstamped, not_true_eq_false, false_and, true_and, false_or]
    constructor
    · intro h
      obtain ⟨t, ht, h⟩ := bind_eq_ok.mp h
      obtain ⟨values, hvalues, h⟩ := bind_eq_ok.mp h
      obtain ⟨hreadable, hvalues⟩ := (mapM_eq_ok_and fun _ _ => cell_eq_ok).mp hvalues
      exact ⟨(t, values), (Except.ok.inj h).symm, atLine_eq_ok.mp ht, hreadable, hvalues⟩
    · rintro ⟨⟨t, values⟩, rfl, ht, hreadable, hvalues⟩
      exact bind_eq_ok.mpr ⟨t, atLine_eq_ok.mpr ht, bind_eq_ok.mpr
        ⟨values, (mapM_eq_ok_and fun _ _ => cell_eq_ok).mpr ⟨hreadable, hvalues⟩, rfl⟩⟩

/-- The rows of some records are those with a timestamp. -/
theorem rows_eq_ok {records : List (List String × ℕ)} {rows : List Row} :
    (∃ rs, records.mapM (fun r => row path dates r.2 r.1) = .ok rs ∧ rs.filterMap id = rows) ↔
      List.Forall₂ (IsRow dates) ((records.map Prod.fst).filter (IsStamped ·)) rows := by
  rw [filterMap_mapM_eq_ok fun _ _ => row_eq_ok, List.filter_map, List.forall₂_map_left_iff]
  rfl

/-- A text is read if it has columns and rows, and these make up series. -/
theorem read_eq_ok : read path text dates = .ok table ↔
    dataLabels text ≠ [] ∧ ∃ rows, List.Forall₂ (IsRow dates) (stampedRecords text) rows ∧
      tableOfRows path (dataLabels text) rows = .ok table := by
  have hrecords : (trimmedRecords text).drop 1 =
      (((trimmedRecords text).drop 1).zipIdx 2).map Prod.fst := (List.zipIdx_map_fst 2 _).symm
  rw [stampedRecords, hrecords]
  unfold read
  change (if (dataLabels text).isEmpty = true then _ else _) = _ ↔ _
  split
  next hnone => simp_all [throw, throwThe, MonadExceptOf.throw, bind, Except.bind]
  next hsome =>
    rw [bind_eq_ok]
    constructor
    · rintro ⟨rs, hrs, htable⟩
      exact ⟨by simpa using hsome, rs.filterMap id, rows_eq_ok.mp ⟨rs, hrs, rfl⟩, htable⟩
    · rintro ⟨-, rows, hrows, htable⟩
      obtain ⟨rs, hrs, rfl⟩ := rows_eq_ok.mpr hrows
      exact ⟨rs, hrs, htable⟩

/-- The points of a column are what the records say. -/
theorem mem_points {rows : List Row} {records : List (List String)}
    (h : List.Forall₂ (IsRow dates) records rows) {o : Option Double} :
    (t, o) ∈ columnPoints rows column ↔
      ∃ record ∈ records, StandsAt dates record t ∧ value? record column = o := by
  refine mem_columnPoints (value? · column) (h.imp fun record row hrow => ⟨fun t => ?_, ?_⟩)
  · constructor
    · intro ht
      exact Except.ok.inj (hrow.standsAt.symm.trans ht)
    · rintro rfl
      exact hrow.standsAt
  · rw [← hrow.values, List.getElem?_map, value?]
    cases record.tail[column]? <;> simp

/-! ## Numbers -/

/-- The column that is read for a number: the last one with the label that is found for the label with
the number, where labels that stand twice count once. -/
def Selected (labels : List String) (n column : ℕ) : Prop :=
  ∃ named label, labels.eraseDups[n - 1]? = some named ∧
    labels.find? (Text.eqIgnoringAsciiCase · named) = some label ∧ LastNamed labels label column

/-- Up to the column with the number all labels differ, none before it is the same as its own up to
case, and none behind it is its own. -/
def Apart (labels : List String) (n : ℕ) : Prop :=
  ∃ before label after, labels = before ++ label :: after ∧ n = before.length + 1 ∧ before.Nodup ∧
    (∀ l ∈ before, Text.eqIgnoringAsciiCase l label = false) ∧ label ∉ after

theorem eqIgnoringAsciiCase_self (s : String) : Text.eqIgnoringAsciiCase s s = true := by
  rw [Text.eqIgnoringAsciiCase, beq_self_eq_true]

/-- The first label that satisfies something is there when each label counts once. -/
theorem find?_eraseDups (p : String → Bool) (labels : List String) :
    labels.eraseDups.find? p = labels.find? p := by
  induction labels using List.reverseRecOn with
  | nil => rfl
  | append_singleton labels label ih =>
    rw [List.eraseDups_append, List.find?_append, List.find?_append, ih]
    by_cases hmem : label ∈ labels
    · have hnone : [label].removeAll labels = [] := by simp [List.removeAll, hmem]
      cases hfind : labels.find? p with
      | some found => simp
      | none => simp [hnone, List.find?_eq_none.mp hfind label hmem]
    · simp [List.removeAll, hmem, List.eraseDups_cons]

theorem eraseDups_of_nodup (h : labels.Nodup) : labels.eraseDups = labels := by
  induction labels with
  | nil => rfl
  | cons label labels ih =>
    obtain ⟨hnew, hnodup⟩ := List.nodup_cons.mp h
    have hothers : labels.filter (fun l => !l == label) = labels := by
      refine List.filter_eq_self.mpr fun l hl => ?_
      simpa using fun heq : l = label => hnew (heq ▸ hl)
    rw [List.eraseDups_cons, hothers, ih hnodup]

/-- Some column is read for a number unless there are fewer different labels. -/
theorem exists_selected_iff (hn : 1 ≤ n) :
    (∃ column, Selected labels n column) ↔ n ≤ labels.eraseDups.length := by
  constructor
  · rintro ⟨column, named, label, hnamed, -⟩
    have hlt := (List.getElem?_eq_some_iff.mp hnamed).1
    omega
  · intro hle
    have hnamed := List.getElem?_eq_getElem (show n - 1 < labels.eraseDups.length by omega)
    have hmem := List.mem_eraseDups.mp (List.mem_of_getElem? hnamed)
    have hfound : (labels.find? (Text.eqIgnoringAsciiCase · _)).isSome = true :=
      List.find?_isSome.mpr ⟨_, hmem, eqIgnoringAsciiCase_self _⟩
    obtain ⟨label, hlabel⟩ := Option.isSome_iff_exists.mp hfound
    obtain ⟨column, hlast⟩ := exists_lastNamed (List.mem_of_find?_eq_some hlabel)
    exact ⟨column, _, label, hnamed, hlabel, hlast⟩

/-- A column whose label is told apart is read for its number. -/
theorem selected_of_apart (h : Apart labels n) : Selected labels n (n - 1) := by
  obtain ⟨before, label, after, rfl, rfl, hnodup, hbefore, hafter⟩ := h
  have hnew : label ∉ before := fun hmem => by
    have := hbefore label hmem
    rw [eqIgnoringAsciiCase_self] at this
    cases this
  refine ⟨label, label, ?_, ?_, lastNamed_append hafter⟩
  · have hfirst : (label :: after).removeAll before = label :: after.removeAll before := by
      simp [List.removeAll, hnew]
    rw [List.eraseDups_append, eraseDups_of_nodup hnodup, hfirst, List.eraseDups_cons]
    simp
  · rw [List.find?_append, List.find?_eq_none.mpr (by simpa using hbefore), Option.none_or]
    exact List.find?_cons_of_pos (eqIgnoringAsciiCase_self label)

/-! ## Tables -/

/-- The label that stands for a number. -/
theorem columnLabel_of_number (hwanted : Text.readWord64? wanted = some n) (hn : 1 ≤ n) :
    columnLabel path table (some wanted) =
      match table.keys[n - 1]? with
      | some label => .ok label
      | none => .error (.unreadable path ("USECOL " ++ toString n ++
          " is out of range, the file has " ++ toString table.keys.length ++ " data columns")) := by
  unfold columnLabel
  simp only [hwanted, if_neg (Nat.ne_of_gt hn)]
  rw [OrderedMap.keys, List.length_map]
  rfl

/-- What is picked for a number is the column that is read for it. -/
theorem pick_of_number {rows : List Row} (htable : tableOfRows path labels rows = .ok table)
    (hwanted : Text.readWord64? wanted = some n) (hn : 1 ≤ n) (h : Selected labels n column) :
    ∃ named label s, columnLabel path table (some wanted) = .ok named ∧
      pick path table named window = .ok (s.within window) ∧
      columnSeries path label (columnPoints rows column) = .ok s := by
  obtain ⟨named, label, hnamed, hlabel, hlast⟩ := h
  have hkeys := keys_of_table htable
  rw [← find?_eraseDups, ← hkeys, OrderedMap.keys, List.find?_map, Option.map_eq_some_iff] at hlabel
  obtain ⟨⟨_, s⟩, he, rfl⟩ := hlabel
  obtain ⟨column', hlast', hread⟩ := column_of_table htable
    (OrderedMap.find?_of_mem (nodup_keys_of_table htable) (List.mem_of_find?_eq_some he))
  obtain rfl := hlast.eq hlast'
  refine ⟨named, _, s, ?_, ?_, hread⟩
  · rw [columnLabel_of_number hwanted hn, hkeys, hnamed]
  · unfold pick
    rw [show table.entries.find? (fun e => Text.eqIgnoringAsciiCase e.1 named) = _ from he]

end Hydroseries.DataFile.Csv
