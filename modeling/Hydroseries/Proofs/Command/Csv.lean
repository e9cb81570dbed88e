import Hydroseries.Proofs.Command.Gage
import Hydroseries.Proofs.DataFile.Csv
import Hydroseries.Proofs.Series.Regular

/-!
# Columns of comma separated files in the store

A command that asks for a column by its number joins the part in its window of the column that is read
for the number, or fails if there are fewer different labels (`column_of_number`). For a header with a
label that stands twice, or again in another case, this need not be the column with the number
(`other_column_read`).
-/

namespace Hydroseries.Command.GetSeries

open DataFile.Csv
open Stateful (exec)

variable {c : GetSeries} {p : Params} {dates : DateFormat} {ses : Session} {path text wanted : String}
  {table : DataTable} {name : EntityName} {n column : ℕ}

/-! ## Blocks -/

/-- What a block for a comma separated file says that is accepted. -/
structure ReadsCsv (c : GetSeries) (p : Params) (dates : DateFormat) (name : EntityName) : Prop where
  entity : p.entity "new_series_name" = .ok name
  format : c.format = .csv (p.text? "usecol")
  picks : c.picks = [("", name)]
  window : p.window dates = .ok c.window
  dates : c.dates = dates

theorem readsCsv_of_ofParams (hc : ofParams p dates = .ok c) (hcommand : formatName p.command = "CSV") :
    ∃ name, c.ReadsCsv p dates name := by
  obtain ⟨window, hwindow, hc⟩ := bind_eq_ok.mp hc
  obtain ⟨⟨format, picks⟩, hpicks, hc⟩ := bind_eq_ok.mp hc
  obtain ⟨file, -, hc⟩ := bind_eq_ok.mp hc
  obtain rfl := Except.ok.inj hc
  unfold formatAndPicks at hpicks
  rw [hcommand] at hpicks
  obtain ⟨_, hsingle, hpicks⟩ := bind_eq_ok.mp hpicks
  obtain ⟨name, hname, hsingle⟩ := bind_eq_ok.mp hsingle
  obtain rfl := Except.ok.inj hsingle
  obtain ⟨rfl, rfl⟩ := Prod.mk.inj (Except.ok.inj hpicks)
  exact ⟨name, hname, rfl, rfl, hwindow, rfl⟩

/-! ## Columns -/

/-- The points of a column in a window. -/
structure IsColumn (dates : DateFormat) (window : Window) (text : String) (column : ℕ) (s : Series) :
    Prop where
  increasing : Increasing s.index
  mem_points : ∀ t o, (t, o) ∈ s.points ↔ window.contains t = true ∧
    ∃ record ∈ stampedRecords text, StandsAt dates record t ∧ value? record column = o

theorem ReadsCsv.load (h : c.ReadsCsv p dates name)
    (hfile : ses.files.read (ses.resolve c.file) = .ok text)
    (htable : read (ses.resolve c.file) text dates = .ok table) : c.load ses = .ok table := by
  refine bind_eq_ok.mpr ⟨text, hfile, ?_⟩
  rw [GetSeries.table, h.format, h.dates]
  exact htable

/-- A block for a column that is there joins it. -/
theorem ReadsCsv.exec_run_of_pick {label : String} {s : Series} (h : c.ReadsCsv p dates name)
    (hload : c.load ses = .ok table)
    (hlabel : columnLabel (ses.resolve c.file) table (p.text? "usecol") = .ok label)
    (hpick : DataFile.pick (ses.resolve c.file) table label c.window = .ok s) :
    exec c.run ses = exec (Action.joinSeries name s) ses := by
  have hadd : c.add (ses.resolve c.file) table ses.store ("", name) =
      ses.store.joinSeries name s := by
    simp only [add, labelOf, h.format, hlabel, hpick, bind, Except.bind]
  simp only [exec_run, hload, h.picks, Action.changeAll, hadd, Action.joinSeries,
    Action.exec_changeStore]
  cases ses.store.joinSeries name s <;> rfl

/-- A block for a column that is not there fails and changes nothing. -/
theorem ReadsCsv.exec_run_of_fault {fault : Fault} (h : c.ReadsCsv p dates name)
    (hload : c.load ses = .ok table)
    (hlabel : columnLabel (ses.resolve c.file) table (p.text? "usecol") = .error fault) :
    exec c.run ses = (.error fault, ses) := by
  have hadd : c.add (ses.resolve c.file) table ses.store ("", name) = .error fault := by
    simp only [add, labelOf, h.format, hlabel, bind, Except.bind]
  simp only [exec_run, hload, h.picks, Action.changeAll, hadd]

/-- The column that is read for a number is joined. -/
theorem ReadsCsv.exec_run_of_selected (h : c.ReadsCsv p dates name)
    (hwanted : p.text? "usecol" = some wanted) (hnumber : Text.readWord64? wanted = some n)
    (hn : 1 ≤ n) (hfile : ses.files.read (ses.resolve c.file) = .ok text)
    (htable : read (ses.resolve c.file) text dates = .ok table)
    (hselected : Selected (dataLabels text) n column) :
    ∃ s, IsColumn dates c.window text column s ∧
      exec c.run ses = exec (Action.joinSeries name s) ses := by
  obtain ⟨-, rows, hrows, hmade⟩ := read_eq_ok.mp htable
  obtain ⟨label, _, s, hlabel, hpick, hs⟩ := pick_of_number hmade hnumber hn hselected
  obtain ⟨hincreasing, hpoints⟩ := DataFile.mem_columnSeries hs
  refine ⟨s.within c.window, ⟨TimeSeries.increasing_within hincreasing _, fun t o => ?_⟩,
    h.exec_run_of_pick (h.load hfile htable) (hwanted ▸ hlabel) hpick⟩
  rw [← mem_points hrows, ← hpoints]
  simp [TimeSeries.within, TimeSeries.filterTime, and_comm]

/-- For every header, a block that asks for a column by its number joins the part in its window of the
column that is selected for the number, the values of all records at their moments. This is the column
with the number if its label is told apart from those before it, case ignored, and is the last of its
kind. If there are fewer different labels than the number, no column is selected and the block fails. -/
theorem column_of_number (hc : ofParams p dates = .ok c) (hcommand : formatName p.command = "CSV")
    (hwanted : p.text? "usecol" = some wanted) (hnumber : Text.readWord64? wanted = some n)
    (hn : 1 ≤ n) (hfile : ses.files.read (ses.resolve c.file) = .ok text)
    (htable : read (ses.resolve c.file) text dates = .ok table) :
    ∃ name, p.entity "new_series_name" = .ok name ∧ p.window dates = .ok c.window ∧
      (∀ column, Selected (dataLabels text) n column → ∃ s, IsColumn dates c.window text column s ∧
        exec c.run ses = exec (Action.joinSeries name s) ses) ∧
      (Apart (dataLabels text) n → Selected (dataLabels text) n (n - 1)) ∧
      ((∃ column, Selected (dataLabels text) n column) ↔ n ≤ (dataLabels text).eraseDups.length) ∧
      ((dataLabels text).eraseDups.length < n → exec c.run ses =
        (.error (.unreadable (ses.resolve c.file) ("USECOL " ++ toString n ++
          " is out of range, the file has " ++ toString (dataLabels text).eraseDups.length ++
            " data columns")), ses)) := by
  obtain ⟨name, h⟩ := readsCsv_of_ofParams hc hcommand
  refine ⟨name, h.entity, h.window, fun column hselected => ?_, selected_of_apart,
    exists_selected_iff hn, fun hmany => ?_⟩
  · exact h.exec_run_of_selected hwanted hnumber hn hfile htable hselected
  · obtain ⟨-, rows, -, hmade⟩ := read_eq_ok.mp htable
    refine h.exec_run_of_fault (h.load hfile htable) ?_
    rw [hwanted, columnLabel_of_number hnumber hn, DataFile.keys_of_table hmade,
      List.getElem?_eq_none (by omega)]

/-! ## Second columns -/

/-- A record of the first day of 2020 under a header of three columns. -/
def headed (header : String) : String := "date," ++ header ++ "\n2020-01-01,1,2,3\n"

def headedRecord : List String := ["2020-01-01", "1", "2", "3"]

def headedSession (header : String) : Session where
  baseDir := ""
  files := { files := ⟨[(["data.csv"], (headed header).toUTF8)]⟩ }

/-- A block that asks for the second column. -/
def secondParams : Params := .ofPairs "GET_SERIES_CSV" 1
  [("file", .scalar "data.csv"), ("new_series_name", .scalar "q"), ("usecol", .scalar "2")]

def secondCommand : GetSeries where
  format := .csv (some "2")
  file := "data.csv"
  picks := [("", ⟨"Q"⟩)]
  window := .unbounded
  dates := .iso

local instance : DecidableEq Double := Double.sameBits

theorem ofParams_second : ofParams secondParams .iso = .ok secondCommand := by decide +kernel

theorem readsCsv_second : secondCommand.ReadsCsv secondParams .iso ⟨"Q"⟩ := by
  obtain ⟨name, h⟩ := readsCsv_of_ofParams ofParams_second (by decide +kernel)
  have hentity : secondParams.entity "new_series_name" = .ok ⟨"Q"⟩ := by decide +kernel
  exact Except.ok.inj (hentity.symm.trans h.entity) ▸ h

theorem text?_second : secondParams.text? "usecol" = some "2" := by decide +kernel

/-- The header names three columns, and the record is read. -/
structure Heads (header : String) (labels : List String) : Prop where
  names : dataLabels (headed header) = labels
  records : stampedRecords (headed header) = [headedRecord]
  nonempty : labels ≠ []

section

variable {header : String} {labels : List String} {s : Series} {v : Double}

theorem read_second (header : String) : (headedSession header).files.read
    ((headedSession header).resolve secondCommand.file) = .ok (headed header) := by
  have hplace : (headedSession header).resolve secondCommand.file = "data.csv" :=
    (by decide +kernel : FilePath.join "" "data.csv" = "data.csv")
  have hlocate : (headedSession header).files.locate "data.csv" = .ok ["data.csv"] := by rfl
  rw [hplace]
  exact FileTree.read_of_find? hlocate rfl

theorem Heads.exists_read (h : Heads header labels) (path : String) :
    ∃ table, read path (headed header) .iso = .ok table := by
  have hrow : DataFile.Csv.IsRow .iso headedRecord (newYear, [some 1, some 2, some 3]) :=
    ⟨by unfold StandsAt; decide +kernel, by unfold IsReadable; decide +kernel, by decide +kernel⟩
  have hincreasing : Increasing ([(newYear, [some 1, some 2, some 3])].map
      (Prod.fst : DataFile.Row → Timestamp)) := List.pairwise_singleton _ _
  refine ⟨_, read_eq_ok.mpr ⟨h.names ▸ h.nonempty, _, ?_,
    DataFile.tableOfRows_of_increasing hincreasing path _⟩⟩
  rw [h.records]
  exact .cons hrow .nil

/-- The column of the record has one point. -/
theorem Heads.eq_of_isColumn (h : Heads header labels)
    (hs : IsColumn .iso .unbounded (headed header) column s) :
    s = ⟨[(newYear, value? headedRecord column)]⟩ := by
  have hstands : StandsAt .iso headedRecord newYear := by unfold StandsAt; decide +kernel
  have hpoints : s.points = [(newYear, value? headedRecord column)] :=
    hs.increasing.eq_of_mem_iff (List.pairwise_singleton _ newYear) fun ⟨t, o⟩ => by
      rw [hs.mem_points, h.records]
      simp only [List.mem_singleton, exists_eq_left, Prod.mk.injEq]
      constructor
      · rintro ⟨-, ht, rfl⟩
        exact ⟨Except.ok.inj (ht.symm.trans hstands), rfl⟩
      · rintro ⟨rfl, rfl⟩
        exact ⟨rfl, hstands, rfl⟩
  exact congrArg TimeSeries.mk hpoints

/-- What is left of a block that joins the point of the record. -/
theorem Heads.exec_run {header' : String} (h : Heads header labels)
    (hs : IsColumn .iso .unbounded (headed header) column s) (hv : value? headedRecord column = some v)
    (hjoin : (Store.empty.joinSeries ⟨"Q"⟩ ⟨[(newYear, some v)]⟩).toOption.map
      (fun st => (st.getSeries ⟨"Q"⟩).toOption.map TimeSeries.valid) = some (some [(newYear, v)])) :
    ∃ ses' a, exec (Action.joinSeries ⟨"Q"⟩ s) (headedSession header') = (.ok (), ses') ∧
      ses'.store.getSeries ⟨"Q"⟩ = .ok a ∧ a.valid = [(newYear, v)] := by
  obtain rfl := h.eq_of_isColumn hs
  obtain ⟨st, hst, hread⟩ := ok_of_toOption_map hjoin
  obtain ⟨a, ha, hvalid⟩ := ok_of_toOption_map hread
  refine ⟨{ headedSession header' with store := st }, a, ?_, ha, hvalid⟩
  rw [hv, Action.joinSeries, Action.exec_changeStore]
  simp only [show (headedSession header').store = Store.empty from rfl, hst]

end

theorem heads_apart : Heads "Flow,Level,Stage" ["Flow", "Level", "Stage"] := by
  constructor <;> decide +kernel

theorem heads_case : Heads "Flow,flow,Stage" ["Flow", "flow", "Stage"] := by
  constructor <;> decide +kernel

theorem second_column_read : ∃ ses' a, ofParams secondParams .iso = .ok secondCommand ∧
    exec secondCommand.run (headedSession "Flow,Level,Stage") = (.ok (), ses') ∧
      ses'.store.getSeries ⟨"Q"⟩ = .ok a ∧ a.valid = [(newYear, 2)] := by
  obtain ⟨table, htable⟩ := heads_apart.exists_read _
  obtain ⟨name, hname, -, hread, hapart, -⟩ := column_of_number ofParams_second (by decide +kernel)
    text?_second (n := 2) (by decide +kernel) (by decide) (read_second _) htable
  obtain rfl := Except.ok.inj (readsCsv_second.entity.symm.trans hname)
  rw [heads_apart.names] at hread hapart
  have hlabels : Apart ["Flow", "Level", "Stage"] 2 :=
    ⟨["Flow"], "Level", ["Stage"], rfl, rfl, by decide, by decide +kernel, by decide⟩
  obtain ⟨s, hs, hexec⟩ := hread _ (hapart hlabels)
  obtain ⟨ses', a, hjoin, ha, hvalid⟩ := heads_apart.exec_run (v := 2) hs (by decide +kernel)
    (by decide +kernel)
  exact ⟨ses', a, ofParams_second, hexec.trans hjoin, ha, hvalid⟩

/-- If the second label is the first one in another case, the first column is read for the number two,
though it is not in the second that its value is. -/
theorem other_column_read : ∃ ses' a, ofParams secondParams .iso = .ok secondCommand ∧
    secondParams.text? "usecol" = some "2" ∧
      dataLabels (headed "Flow,flow,Stage") = ["Flow", "flow", "Stage"] ∧
      stampedRecords (headed "Flow,flow,Stage") = [headedRecord] ∧
      value? headedRecord (2 - 1) = some 2 ∧
        exec secondCommand.run (headedSession "Flow,flow,Stage") = (.ok (), ses') ∧
          ses'.store.getSeries ⟨"Q"⟩ = .ok a ∧ a.valid = [(newYear, 1)] := by
  obtain ⟨table, htable⟩ := heads_case.exists_read _
  have hselected : Selected (dataLabels (headed "Flow,flow,Stage")) 2 0 := by
    rw [heads_case.names]
    exact ⟨"flow", "Flow", by decide +kernel, by decide +kernel,
      @DataFile.lastNamed_append [] _ _ (by decide)⟩
  obtain ⟨s, hs, hexec⟩ := readsCsv_second.exec_run_of_selected text?_second (by decide +kernel)
    (by decide) (read_second _) htable hselected
  obtain ⟨ses', a, hjoin, ha, hvalid⟩ := heads_case.exec_run (v := 1) hs (by decide +kernel)
    (by decide +kernel)
  exact ⟨ses', a, ofParams_second, text?_second, heads_case.names, heads_case.records,
    by decide +kernel, hexec.trans hjoin, ha, hvalid⟩

end Hydroseries.Command.GetSeries
