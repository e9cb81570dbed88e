import Hydroseries.DataFile.Plotgen
import Hydroseries.DataFile.StatVar
import Hydroseries.File.Tree
import Hydroseries.Proofs.Outcome
import Hydroseries.Proofs.Series.Alignment
import Hydroseries.Proofs.Text.Case

/-!
# Columns of data files

A file with the bytes of a text is read as that text. Rows that increase in time are read as the
columns that they make up (`tableOfRows_of_increasing`), whatever the format of their file.
-/

namespace Hydroseries

/-! ## Texts -/

theorem fromUTF8?_toUTF8 (text : String) : String.fromUTF8? text.toUTF8 = some text :=
  dif_pos text.isValidUTF8

/-- A file that has the bytes of a text is read as the text. -/
theorem FileTree.read_of_find? {t : FileTree} {name text : String} {place : FilePlace}
    (hplace : t.locate name = .ok place) (hfile : t.files.find? place = some text.toUTF8) :
    t.read name = .ok text := by
  rw [FileTree.read, hplace]
  dsimp only [bind, Except.bind]
  rw [hfile]
  dsimp only
  rw [fromUTF8?_toUTF8]
  rfl

/-! ## Tables -/

namespace DataFile

variable {path text : String} {names : List String} {lines : List (String × Nat)}

theorem atLine_eq_ok {α : Type} {line : ℕ} {x : Outcome α} {a : α} :
    atLine path line x = .ok a ↔ x = .ok a :=
  mapError_eq_ok

theorem number_eq_ok {word : String} {line : ℕ} {x : Double} :
    number path line word = .ok x ↔ Text.readDouble? (Text.trim word) = some x := by
  unfold number
  cases Text.readDouble? (Text.trim word) <;> simp

theorem columnSeries_eq_ok {label : String} {points : List (Timestamp × Option Double)}
    {s : Series} : columnSeries path label points = .ok s ↔ TimeSeries.ofPoints points = .ok s :=
  mapError_eq_ok

theorem columnSeries_of_increasing {rows : List Row} (h : Increasing (rows.map Prod.fst))
    (path label : String) (column : Nat) :
    columnSeries path label (columnPoints rows column) = .ok ⟨columnPoints rows column⟩ := by
  have hindex : (columnPoints rows column).map Prod.fst = rows.map Prod.fst := by
    rw [columnPoints, List.map_map]
    rfl
  exact columnSeries_eq_ok.mpr (TimeSeries.ofPoints_of_increasing (hindex ▸ h))

/-- Rows that increase in time are read as their columns. -/
theorem tableOfRows_of_increasing {rows : List Row} (h : Increasing (rows.map Prod.fst))
    (path : String) (labels : List String) :
    tableOfRows path labels rows =
      .ok (OrderedMap.ofList (labels.zipIdx.map fun e => (e.1, ⟨columnPoints rows e.2⟩))) := by
  have hcolumns : (labels.zipIdx.mapM fun e => do
      let s ← columnSeries path e.1 (columnPoints rows e.2)
      pure (e.1, s)) = .ok (labels.zipIdx.map fun e => (e.1, ⟨columnPoints rows e.2⟩)) := by
    rw [mapM_eq_ok, List.forall₂_map_right_iff, List.forall₂_same]
    intro e _
    rw [columnSeries_of_increasing h]
    rfl
  unfold tableOfRows
  rw [hcolumns]
  rfl

/-- Points of a series that is made of points in any order are those. -/
theorem mem_columnSeries {label : String} {points : List (Timestamp × Option Double)} {s : Series}
    (h : columnSeries path label points = .ok s) :
    Increasing s.index ∧ ∀ p, p ∈ s.points ↔ p ∈ points := by
  obtain ⟨hincreasing, hperm⟩ := TimeSeries.ofPoints_eq_ok.mp (columnSeries_eq_ok.mp h)
  exact ⟨hincreasing, fun p => hperm.mem_iff⟩

/-- If every row says at which moment it stands and what value it has in a column, the points of the
column are what the rows say. -/
theorem mem_columnPoints {α : Type} {stands : α → Timestamp → Prop} (value? : α → Option Double)
    {column : ℕ} {xs : List α} {rows : List Row} {t : Timestamp} {o : Option Double}
    (h : List.Forall₂ (fun x row => (∀ t, stands x t ↔ row.1 = t) ∧ (row.2[column]?).join = value? x)
      xs rows) :
    (t, o) ∈ columnPoints rows column ↔ ∃ x ∈ xs, stands x t ∧ value? x = o := by
  induction h with
  | nil => simp [columnPoints]
  | @cons x row xs rows hrow _ ih =>
    have hhere : (t, o) = (row.1, (row.2[column]?).join) ↔ stands x t ∧ value? x = o := by
      rw [hrow.1, hrow.2, Prod.mk.injEq, @eq_comm _ t, @eq_comm _ o]
    rw [columnPoints, List.map_cons, List.mem_cons, hhere, List.exists_mem_cons_iff]
    exact or_congr_right ih

/-- The last column with a label. -/
def LastNamed (labels : List String) (label : String) (column : ℕ) : Prop :=
  labels[column]? = some label ∧ ∀ later, column < later → labels[later]? ≠ some label

theorem LastNamed.eq {labels : List String} {label : String} {column column' : ℕ}
    (h : LastNamed labels label column) (h' : LastNamed labels label column') : column = column' := by
  rcases lt_trichotomy column column' with hlt | heq | hlt
  · exact absurd h'.1 (h.2 _ hlt)
  · exact heq
  · exact absurd h.1 (h'.2 _ hlt)

theorem lastNamed_append {before after : List String} {label : String} (h : label ∉ after) :
    LastNamed (before ++ label :: after) label before.length := by
  refine ⟨by simp, fun later hlater hlabel => h ?_⟩
  rw [List.getElem?_append_right hlater.le, List.getElem?_cons, if_neg (by omega)] at hlabel
  exact List.mem_of_getElem? hlabel

theorem exists_lastNamed {labels : List String} {label : String} (h : label ∈ labels) :
    ∃ column, LastNamed labels label column := by
  obtain ⟨after, before, hsplit, hafter⟩ := List.eq_append_cons_of_mem (List.mem_reverse.mpr h)
  have hlabels : labels = before.reverse ++ label :: after.reverse := by
    rw [← List.reverse_reverse labels, hsplit]
    simp
  exact ⟨_, hlabels ▸ lastNamed_append (mt List.mem_reverse.mp hafter)⟩

/-- A table has each label once, at its first place. -/
theorem keys_of_table {rows : List Row} {table : DataTable}
    (h : tableOfRows path names rows = .ok table) : table.keys = names.eraseDups := by
  obtain ⟨columns, hcolumns, hmade⟩ := bind_eq_ok.mp h
  obtain rfl := Except.ok.inj hmade
  have hnames : columns.map Prod.fst = names.zipIdx.map Prod.fst := map_eq_of_mapM hcolumns
    fun e column hcolumn => by
      obtain ⟨s, -, hpair⟩ := bind_eq_ok.mp hcolumn
      exact congrArg Prod.fst (Except.ok.inj hpair).symm
  rw [OrderedMap.keys_ofList, hnames, List.zipIdx_map_fst]

theorem nodup_keys_of_table {rows : List Row} {table : DataTable}
    (h : tableOfRows path names rows = .ok table) : table.keys.Nodup := by
  obtain ⟨columns, -, hmade⟩ := bind_eq_ok.mp h
  obtain rfl := Except.ok.inj hmade
  exact OrderedMap.nodup_ofList columns

/-- What is read under a label is its last column. -/
theorem column_of_table {rows : List Row} {table : DataTable} {label : String} {s : Series}
    (htable : tableOfRows path names rows = .ok table) (hfind : table.find? label = some s) :
    ∃ column, LastNamed names label column ∧
      columnSeries path label (columnPoints rows column) = .ok s := by
  obtain ⟨columns, hcolumns, hmade⟩ := bind_eq_ok.mp htable
  obtain rfl := Except.ok.inj hmade
  obtain ⟨before, after, hsplit, hafter⟩ := OrderedMap.exists_last_of_find? hfind
  have hlength := (mapM_eq_ok.mp hcolumns).length_eq
  -- The columns are at the positions of their labels.
  have hcolumn : ∀ n name, names[n]? = some name → ∃ w, columns[n]? = some (name, w) ∧
      columnSeries path name (columnPoints rows n) = .ok w := by
    intro n name hname
    have hzip : names.zipIdx[n]? = some (name, n) := by simp [hname]
    obtain ⟨entry, hentry, hread⟩ := getElem?_of_mapM hcolumns hzip
    obtain ⟨w, hw, hpair⟩ := bind_eq_ok.mp hread
    exact ⟨w, (Except.ok.inj hpair).symm ▸ hentry, hw⟩
  have hhere : columns[before.length]? = some (label, s) := by simp [hsplit]
  obtain ⟨name, hname⟩ : ∃ name, names[before.length]? = some name := by
    have hlt := (List.getElem?_eq_some_iff.mp hhere).1
    exact ⟨_, List.getElem?_eq_getElem (by rw [← hlength, List.length_zipIdx] at hlt; exact hlt)⟩
  obtain ⟨w, hw, hread⟩ := hcolumn _ _ hname
  obtain ⟨rfl, rfl⟩ := Prod.mk.inj (Option.some.inj (hw.symm.trans hhere))
  refine ⟨before.length, ⟨hname, fun later hlater hlabel => ?_⟩, hread⟩
  obtain ⟨w', hw', -⟩ := hcolumn later name hlabel
  rw [hsplit, List.getElem?_append_right hlater.le, List.getElem?_cons,
    if_neg (by omega)] at hw'
  exact hafter _ (List.mem_of_getElem? hw') rfl

theorem within_unbounded (s : Series) : s.within .unbounded = s := by
  have hall : ∀ p ∈ s.points, Window.unbounded.contains p.1 = true := fun _ _ => rfl
  rw [TimeSeries.within, TimeSeries.filterTime, List.filter_eq_self.mpr hall]

/-- Where all labels are in capitals, what is picked is the last column with the label. -/
theorem column_of_pick {rows : List Row} {table : DataTable} {word : String} {s : Series}
    (htable : tableOfRows path names rows = .ok table)
    (hcapitals : ∀ name ∈ names, ∃ w, name = Text.upper w)
    (hpick : pick path table (Text.upper word) .unbounded = .ok s) :
    ∃ column, LastNamed names (Text.upper word) column ∧
      columnSeries path (Text.upper word) (columnPoints rows column) = .ok s := by
  unfold pick at hpick
  split at hpick
  case h_2 => cases hpick
  case h_1 e he =>
    obtain rfl := Except.ok.inj hpick
    obtain ⟨column, hlast, hread⟩ := column_of_table htable
      (OrderedMap.find?_of_mem (nodup_keys_of_table htable) (List.mem_of_find?_eq_some he))
    obtain ⟨w, hw⟩ := hcapitals e.1 (List.mem_of_getElem? hlast.1)
    have hsame := List.find?_some he
    rw [hw] at hsame
    rw [← Text.eq_of_eqIgnoringAsciiCase hsame, ← hw, within_unbounded]
    exact ⟨column, hlast, hread⟩

/-! ## Formats -/

/-- What a plot file is read as, from its parts. -/
theorem Plotgen.read_of_parts {lines' data : List (String × Nat)} {rows : List (Option Row)}
    (hlines : linesAfter? "Label" (numberedLines text) = some lines)
    (hnames : labels path lines = .ok (names, lines')) (hsome : names ≠ [])
    (hdata : linesAfter? "Date/time" lines' = some data)
    (hrows : List.Forall₂ (fun l r => row path names.length l.2 l.1 = .ok r) data rows) :
    read path text = tableOfRows path names (rows.filterMap id) := by
  have hempty : names.isEmpty = false := by simpa using hsome
  unfold read
  rw [hlines]
  dsimp only
  rw [hnames]
  dsimp only [bind, Except.bind]
  rw [if_neg (ne_true_of_eq_false hempty), hdata]
  show (data.mapM (fun l => row path names.length l.2 l.1) >>= _) = _
  rw [mapM_eq_ok.mpr hrows]
  rfl

/-- What a file of statistic variables is read as, from its parts. -/
theorem StatVar.read_of_parts {count : Nat} {rows : List Row}
    (hlines : countAndRest path "variables" text = .ok (count, lines))
    (hcount : count ≤ lines.length)
    (hnames : (lines.take count).map (fun l => Text.join "_" (Text.words l.1)) = names)
    (hrows : List.Forall₂ (fun l r => row path count l.2 l.1 = .ok r) (lines.drop count) rows) :
    read path text = tableOfRows path names rows := by
  unfold read
  rw [hlines]
  dsimp only [bind, Except.bind]
  rw [if_neg (Nat.not_lt.mpr hcount), hnames]
  show ((lines.drop count).mapM (fun l => row path count l.2 l.1) >>= _) = _
  rw [mapM_eq_ok.mpr hrows]
  rfl

end DataFile

end Hydroseries
