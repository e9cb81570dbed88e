import Hydroseries.Proofs.Command.Failure
import Hydroseries.Proofs.Command.Reading
import Hydroseries.Proofs.DataFile.Gage
import Hydroseries.Proofs.Store.OffGrid
import Hydroseries.Proofs.Store.ReadBack

/-!
# Rows of gage files in the store

A command that reads a file keeps each wanted column under its new name, whatever columns are added
after it (`keeps_of_additions`). So the values of the rows of a gage file that are on the grid of the
frequency are read, and no others (`rows_of_run`). All of them are if the rows are whole seconds apart,
which is so for whole model times if a unit is a whole number of seconds.
-/

namespace Hydroseries.Command.GetSeries

open Action (changeAll)
open DataFile (LastNamed)
open DataFile.Gage
open Stateful (exec)
open Timestamp (secondNanos dayNanos)

variable {c : GetSeries} {p : Params} {dates : DateFormat} {ses ses' : Session} {st st' : Store}
  {path text : String} {columns : DataTable} {reference t : Timestamp} {u column : ℕ}

/-! ## Additions -/

/-- A command that succeeds adds all wanted columns of its file. -/
theorem exec_run_eq_ok : exec c.run ses = (.ok (), ses') ↔
    ∃ columns st, c.load ses = .ok columns ∧
      c.picks.foldlM (c.add (ses.resolve c.file) columns) ses.store = .ok st ∧
      { ses with store := st } = ses' := by
  rw [exec_run]
  cases c.load ses with
  | error fault => simp
  | ok columns =>
    dsimp only
    rcases hadded : changeAll (c.add (ses.resolve c.file) columns) c.picks ses.store with
      ⟨_ | _, st⟩
    · simp [← Action.changeAll_eq_ok, hadded]
    · simp [← Action.changeAll_eq_ok, hadded]

/-- Columns stay as they were added, and so do the series from before. -/
theorem keeps_of_additions {picks : List (String × EntityName)} (hst : st.Aligned)
    (hincreasing : ∀ pick ∈ picks, ∀ label s, c.labelOf path columns pick.1 = .ok label →
      DataFile.pick path columns label c.window = .ok s → Increasing s.index)
    (h : picks.foldlM (c.add path columns) st = .ok st') :
    st'.Aligned ∧ (∀ name s, st.Keeps name s → st'.Keeps name s) ∧
      ∀ pick ∈ picks, ∃ label s, c.labelOf path columns pick.1 = .ok label ∧
        DataFile.pick path columns label c.window = .ok s ∧ st'.Keeps pick.2 s := by
  induction picks generalizing st with
  | nil =>
    obtain rfl := Except.ok.inj h
    exact ⟨hst, fun _ _ hk => hk, by simp⟩
  | cons pick picks ih =>
    rw [List.foldlM_cons] at h
    obtain ⟨st₁, hadd, hrest⟩ := bind_eq_ok.mp h
    obtain ⟨label, hlabel, hadd⟩ := bind_eq_ok.mp hadd
    obtain ⟨s, hs, hjoin⟩ := bind_eq_ok.mp hadd
    rw [List.forall_mem_cons] at hincreasing
    have hincreasing' := hincreasing.1 label s hlabel hs
    obtain ⟨hst', hold, hnew⟩ := ih (hst.of_join hincreasing' hjoin) hincreasing.2 hrest
    refine ⟨hst', fun name s' hk => hold name s' (hk.of_join hst hincreasing' hjoin), ?_⟩
    intro pick' hpick
    rcases List.mem_cons.mp hpick with rfl | hpick
    · exact ⟨label, s, hlabel, hs, hold _ _ (Store.keeps_of_join hst hincreasing' hjoin)⟩
    · exact hnew pick' hpick

/-! ## Blocks -/

theorem mem_paired {labels : List String} {picks : List (String × EntityName)}
    (h : paired p labels = .ok picks) {pick : String × EntityName} (hpick : pick ∈ picks) :
    pick.1 ∈ labels := by
  unfold paired at h
  dsimp only at h
  split at h
  · obtain rfl := Except.ok.inj h
    exact (List.of_mem_zip hpick).1
  · cases h

/-- The wanted columns of a gage file are in capitals. -/
theorem picks_of_gage (hc : ofParams p dates = .ok c) (hformat : c.format = .gage reference u) :
    ∀ pick ∈ c.picks, ∃ word, pick.1 = Text.upper word := by
  obtain ⟨window, -, hc⟩ := bind_eq_ok.mp hc
  obtain ⟨⟨format, picks⟩, hpicks, hc⟩ := bind_eq_ok.mp hc
  obtain ⟨file, -, hc⟩ := bind_eq_ok.mp hc
  obtain rfl := Except.ok.inj hc
  obtain rfl : format = .gage reference u := hformat
  unfold formatAndPicks at hpicks
  split at hpicks
  case h_5 =>
    obtain ⟨units, -, hpicks⟩ := bind_eq_ok.mp hpicks
    dsimp only at hpicks
    split at hpicks
    · cases hpicks
    · obtain ⟨start, -, hpicks⟩ := bind_eq_ok.mp hpicks
      obtain ⟨picks', hpaired, hpicks⟩ := bind_eq_ok.mp hpicks
      cases hpicks
      intro pick hpick
      obtain ⟨word, -, hword⟩ := List.mem_map.mp (mem_paired hpaired hpick)
      exact ⟨word, hword.symm⟩
  case h_4 =>
    obtain ⟨labels, -, hpicks⟩ := bind_eq_ok.mp hpicks
    obtain ⟨picks', -, hpicks⟩ := bind_eq_ok.mp hpicks
    cases hpicks
  case h_6 =>
    obtain ⟨start, -, hpicks⟩ := bind_eq_ok.mp hpicks
    obtain ⟨_, -, hpicks⟩ := bind_eq_ok.mp hpicks
    obtain ⟨step, -, hpicks⟩ := bind_eq_ok.mp hpicks
    obtain ⟨picks', -, hpicks⟩ := bind_eq_ok.mp hpicks
    cases hpicks
  case h_7 => cases hpicks
  all_goals
    obtain ⟨picks', -, hpicks⟩ := bind_eq_ok.mp hpicks
    cases hpicks

/-! ## Rows -/

/-- All rows are whole seconds apart. -/
def SecondsApart (reference : Timestamp) (u : ℕ) (text : String) : Prop :=
  ∀ words ∈ rowWords text, ∀ words' ∈ rowWords text, ∀ t t', StandsAt reference u words t →
    StandsAt reference u words' t' → secondNanos ∣ t'.since t

/-- All model times are whole numbers of moderate size. -/
def WholeTimes (u : ℕ) (text : String) : Prop :=
  ∀ words ∈ rowWords text, ∀ time, modelTime? words = some time →
    Moderate u time ∧ ∃ n : ℤ, time.toRat = 1 + n

theorem WholeTimes.secondsApart (h : WholeTimes u text) (hdvd : u ∣ 86400) :
    SecondsApart reference u text := by
  have hreference : ∀ words ∈ rowWords text, ∀ t, StandsAt reference u words t →
      secondNanos ∣ t.since reference := by
    rintro words hwords t ⟨time, htime, ht⟩
    obtain ⟨hmoderate, n, hn⟩ := h words hwords time htime
    exact secondNanos_dvd_since hdvd ht hmoderate hn
  intro words hwords words' hwords' t t' ht ht'
  have hdiff := Int.dvd_sub (hreference words' hwords' t' ht') (hreference words hwords t ht)
  rwa [Timestamp.since, Timestamp.since, sub_sub_sub_cancel_right] at hdiff

/-- What is read of a column of a gage file. -/
structure HoldsColumn (reference : Timestamp) (u : ℕ) (text : String) (column : ℕ)
    (r : SeriesRecord) (a : Series) : Prop where
  /-- The values are those of the rows that are on the grid. -/
  values : ∀ t v, a.valueAt? t = some v ↔ r.OnGrid t ∧
    ∃ words ∈ rowWords text, StandsAt reference u words t ∧ value? words column = some v
  /-- If rows are whole seconds apart, all of them are. -/
  onGrid : SecondsApart reference u text → ∀ words ∈ rowWords text, ∀ t v,
    StandsAt reference u words t → value? words column = some v → a.valueAt? t = some v
  /-- The values of whole days are read at their days. -/
  day : SecondsApart reference u text → u ∣ 86400000 → ∀ words ∈ rowWords text, ∀ time (k : ℤ) v,
    modelTime? words = some time → Moderate u time → time.toRat = 1 + k * u →
      value? words column = some v → a.valueAt? ⟨reference.nanos + k * dayNanos⟩ = some v

/-- The points of a series are the rows of a column. -/
def HasRows (reference : Timestamp) (u : ℕ) (text : String) (column : ℕ) (s : Series) : Prop :=
  ∀ t v, (t, v) ∈ s.points ↔
    ∃ words ∈ rowWords text, StandsAt reference u words t ∧ value? words column = v

/-- If the rows are whole seconds apart, none of their values is off the grid. -/
theorem HasRows.onGrid {s regular : Series} {r : SeriesRecord} {v : Double}
    (h : HasRows reference u text column s) (hs : Increasing s.index) (hfiling : Filing s r regular)
    (hseconds : SecondsApart reference u text) (hpoint : (t, some v) ∈ s.points) : r.OnGrid t := by
  refine hfiling.onGrid_of_seconds hs (fun t₁ ht₁ t₂ ht₂ => ?_) t ?_
  · obtain ⟨v₁, hpoint₁⟩ := TimeSeries.mem_index.mp ht₁
    obtain ⟨v₂, hpoint₂⟩ := TimeSeries.mem_index.mp ht₂
    obtain ⟨words₁, hwords₁, hstands₁, -⟩ := (h t₁ v₁).mp hpoint₁
    obtain ⟨words₂, hwords₂, hstands₂, -⟩ := (h t₂ v₂).mp hpoint₂
    exact hseconds words₁ hwords₁ words₂ hwords₂ t₁ t₂ hstands₁ hstands₂
  · have hvalid := TimeSeries.mem_valid.mpr hpoint
    rw [← TimeSeries.valid_trimmed hs] at hvalid
    exact TimeSeries.mem_index.mpr ⟨some v, TimeSeries.mem_valid.mp hvalid⟩

/-- Of a column that is kept, the values on the grid are read. -/
theorem holdsColumn_of_keeps {rows : List DataFile.Row} {name : EntityName} {s : Series}
    {label : String} (hst : st.Aligned) (hu : 0 < u)
    (hrows : List.Forall₂ (DataFile.Gage.IsRow reference u) (rowWords text) rows)
    (hs : DataFile.columnSeries path label (DataFile.columnPoints rows column) = .ok s)
    (hk : st.Keeps name s) :
    ∃ r a, st.series.find? name = some r ∧ st.getSeries name = .ok a ∧
      HoldsColumn reference u text column r a := by
  obtain ⟨hincreasing, hpoints⟩ := DataFile.mem_columnSeries hs
  have hhas : HasRows reference u text column s := fun t v =>
    (hpoints (t, v)).trans (mem_columnPoints hrows)
  obtain ⟨r, regular, a, hr, hfiling, ha, hvalues⟩ := hk.valueAt?_iff hst
  have hread : SecondsApart reference u text → ∀ words ∈ rowWords text, ∀ t v,
      StandsAt reference u words t → value? words column = some v → a.valueAt? t = some v := by
    intro hseconds words hwords t v ht hv
    have hpoint := (hhas t (some v)).mpr ⟨words, hwords, ht, hv⟩
    exact (hvalues t v).mpr ⟨(TimeSeries.valueAt?_eq_some hincreasing).mpr hpoint,
      hhas.onGrid hincreasing hfiling hseconds hpoint⟩
  refine ⟨r, a, hr, ha, fun t v => ?_, hread, ?_⟩
  · rw [hvalues, TimeSeries.valueAt?_eq_some hincreasing, hhas, and_comm]
  · intro hseconds hdvd words hwords time k v htime hmoderate hk hv
    obtain ⟨t, time', htime', ht⟩ := exists_standsAt hrows words hwords
    obtain rfl := Option.some.inj (htime.symm.trans htime')
    rw [← (placed_of_moment hu ht hmoderate).eq_day hk hdvd]
    exact hread hseconds words hwords t v ⟨time, htime, ht⟩ hv

/-- Whatever the store holds, if a command that reads a gage file without a window succeeds, every row
is at the moment of its model time. Under each new name the values of the column are read at the
moments of their rows, except for those that are off the grid of a fixed frequency. None are if the
rows are whole seconds apart, as whole model times are if the units are whole seconds. -/
theorem rows_of_run {last : EntityName → Option Series} (hst : Store.History ses.store last)
    (hc : ofParams p dates = .ok c) (hformat : c.format = .gage reference u)
    (hwindow : c.window = .unbounded) (h : exec c.run ses = (.ok (), ses')) :
    ∃ text, ses.files.read (ses.resolve c.file) = .ok text ∧
      (∀ words ∈ rowWords text, ∃ time t, modelTime? words = some time ∧
        moment reference u time = .ok t ∧ (Moderate u time → Placed reference u time t)) ∧
      (u ∣ 86400 → WholeTimes u text → SecondsApart reference u text) ∧
      ∀ pick ∈ c.picks, ∃ column r a, LastNamed (dataNames text) pick.1 column ∧
        ses'.store.series.find? pick.2 = some r ∧ ses'.store.getSeries pick.2 = .ok a ∧
        HoldsColumn reference u text column r a := by
  obtain ⟨columns, st, hload, hadded, rfl⟩ := exec_run_eq_ok.mp h
  obtain ⟨text, htext, htable⟩ := bind_eq_ok.mp hload
  rw [table, hformat] at htable
  obtain ⟨hu, -, rows, hrows, htable⟩ := read_eq_ok.mp htable
  have hcolumn : ∀ pick ∈ c.picks, ∀ label s,
      c.labelOf (ses.resolve c.file) columns pick.1 = .ok label →
      DataFile.pick (ses.resolve c.file) columns label c.window = .ok s →
      ∃ column, LastNamed (dataNames text) pick.1 column ∧
        DataFile.columnSeries (ses.resolve c.file) pick.1 (DataFile.columnPoints rows column) =
          .ok s := by
    intro pick hpick label s hlabel hs
    obtain ⟨word, hword⟩ := picks_of_gage hc hformat pick hpick
    rw [labelOf, hformat] at hlabel
    obtain rfl := Except.ok.inj hlabel
    rw [hword, hwindow] at hs
    rw [hword]
    exact DataFile.column_of_pick htable upper_of_mem_dataNames hs
  obtain ⟨hst', -, hadditions⟩ := keeps_of_additions hst.aligned
    (fun pick hpick label s hlabel hs => by
      obtain ⟨column, -, hs⟩ := hcolumn pick hpick label s hlabel hs
      exact (DataFile.mem_columnSeries hs).1) hadded
  refine ⟨text, htext, fun words hwords => ?_, fun hdvd hwhole => hwhole.secondsApart hdvd,
    fun pick hpick => ?_⟩
  · obtain ⟨t, time, htime, ht⟩ := exists_standsAt hrows words hwords
    exact ⟨time, t, htime, ht, placed_of_moment hu ht⟩
  · obtain ⟨label, s, hlabel, hs, hk⟩ := hadditions pick hpick
    obtain ⟨column, hlast, hs⟩ := hcolumn pick hpick label s hlabel hs
    obtain ⟨r, a, hr, ha, hholds⟩ := holdsColumn_of_keeps hst' hu hrows hs hk
    exact ⟨column, r, a, hlast, hr, ha, hholds⟩

/-! ## Two rows -/

/-- A gage file with a row at the reference moment and a row at another model time. -/
def twoRows (time : String) : String := "gage\n\"DATA:\" Time Flow\n1 1\n" ++ time ++ " 2\n"

def gageSession (time : String) : Session where
  baseDir := ""
  files := { files := ⟨[(["gage.txt"], (twoRows time).toUTF8)]⟩ }

/-- A block that reads the file from New Year 2020 on. -/
def gageParams (u : ℕ) : Params := .ofPairs "GET_SERIES_GSFLOW_GAGE" 1
  [("file", .scalar "gage.txt"), ("data_type", .scalar "Flow"), ("new_series_name", .scalar "q"),
    ("model_reference_date", .scalar "2020-01-01"), ("model_reference_time", .scalar "00:00:00"),
    ("time_units_per_day", .scalar (toString u))]

def newYear : Timestamp := .ofDate ⟨18262⟩ 0

def gageCommand (u : ℕ) : GetSeries where
  format := .gage newYear u
  file := "gage.txt"
  picks := [("FLOW", ⟨"Q"⟩)]
  window := .unbounded
  dates := .iso

local instance : DecidableEq Double := Double.sameBits

/-- The block is read, and so are the words of the file, the second row being at `next`. -/
structure ReadsTwoRows (u : ℕ) (time : String) (x : Double) (next : Timestamp) : Prop where
  units_pos : 0 < u
  block : ofParams (gageParams u) .iso = .ok (gageCommand u)
  place : (gageSession time).files.locate "gage.txt" = .ok ["gage.txt"]
  words : rowWords (twoRows time) = [["1", "1"], [time, "2"]]
  names : dataNames (twoRows time) = ["FLOW"]
  number_first : number? "1" = some 1
  number_value : number? "2" = some 2
  number_time : number? time = some x
  moment_first : moment newYear u 1 = .ok newYear
  moment_time : moment newYear u x = .ok next
  lt : newYear < next

section

variable {time : String} {x : Double} {next : Timestamp} {α : Type} {f : Store → α} {v : α}

theorem isRow_pair {word value : String} {y : Double} (htime : number? word = some x)
    (ht : moment reference u x = .ok t) (hvalue : number? value = some y) :
    DataFile.Gage.IsRow reference u [word, value] (t, [some y]) := by
  refine ⟨⟨x, ?_, ht⟩, [y], ?_, rfl⟩
  · rw [modelTime?_cons, htime]
  · rw [List.tail_cons, List.map_singleton, hvalue, List.map_singleton]

theorem resolve_gage (time : String) (u : ℕ) :
    (gageSession time).resolve (gageCommand u).file = "gage.txt" :=
  (by decide +kernel : FilePath.join "" "gage.txt" = "gage.txt")

theorem ReadsTwoRows.read (h : ReadsTwoRows u time x next) :
    (gageSession time).files.read ((gageSession time).resolve (gageCommand u).file) =
      .ok (twoRows time) := by
  rw [resolve_gage]
  exact FileTree.read_of_find? h.place rfl

/-- The column of the file. -/
def twoPoints (next : Timestamp) : DataTable :=
  .ofList [("FLOW", ⟨[(newYear, some 1), (next, some 2)]⟩)]

theorem ReadsTwoRows.load (h : ReadsTwoRows u time x next) :
    (gageCommand u).load (gageSession time) = .ok (twoPoints next) := by
  have hrows : List.Forall₂ (DataFile.Gage.IsRow newYear u) (rowWords (twoRows time))
      [(newYear, [some 1]), (next, [some 2])] := by
    rw [h.words]
    exact .cons (isRow_pair h.number_first h.moment_first h.number_first)
      (.cons (isRow_pair h.number_time h.moment_time h.number_value) .nil)
  have hincreasing : Increasing ([(newYear, [some 1]), (next, [some 2])].map
      (Prod.fst : DataFile.Row → Timestamp)) := List.pairwise_pair.mpr h.lt
  have hcolumns : (["FLOW"].zipIdx.map fun e => (e.1, (⟨DataFile.columnPoints
      [(newYear, [some 1]), (next, [some 2])] e.2⟩ : Series))) =
      [("FLOW", ⟨[(newYear, some 1), (next, some 2)]⟩)] := rfl
  have htable := DataFile.tableOfRows_of_increasing hincreasing "gage.txt" ["FLOW"]
  rw [hcolumns, ← h.names] at htable
  have hread := read_eq_ok.mpr ⟨h.units_pos, by rw [h.names]; decide, _, hrows, htable⟩
  exact bind_eq_ok.mpr ⟨twoRows time, h.read, by rw [resolve_gage]; exact hread⟩

/-- What is left of a run that reads two rows. -/
theorem ReadsTwoRows.exec (h : ReadsTwoRows u time x next)
    (hadd : ((gageCommand u).add "gage.txt" (twoPoints next) .empty ("FLOW", ⟨"Q"⟩)).toOption.map f =
      some v) :
    ∃ ses', exec (gageCommand u).run (gageSession time) = (.ok (), ses') ∧ f ses'.store = v := by
  obtain ⟨st, hst, hv⟩ := ok_of_toOption_map hadd
  refine ⟨{ gageSession time with store := st },
    exec_run_eq_ok.mpr ⟨_, st, h.load, ?_, rfl⟩, hv⟩
  rw [resolve_gage]
  exact bind_eq_ok.mpr ⟨st, hst, rfl⟩

end

theorem readsTwoRows_hours : ReadsTwoRows 24 "25" 25 ⟨newYear.nanos + dayNanos⟩ := by
  constructor <;> decide +kernel

theorem readsTwoRows_sevenths :
    ReadsTwoRows 7 "8" 8 ⟨newYear.nanos + 86399999000000⟩ := by
  constructor <;> decide +kernel

theorem moderate_ofNat {n : ℕ} (hn : n < 2 ^ 53)
    (h : |(n : ℚ) - 1| * (unitMillis u + 1) ≤ 2 ^ 50) : Moderate u (.ofNat n) := by
  obtain ⟨hfinite, hvalue⟩ := Double.ofNat_eq hn
  exact ⟨hfinite, by rwa [hvalue]⟩

theorem ReadsTwoRows.wholeTimes {time : String} {n : ℕ} {next : Timestamp}
    (h : ReadsTwoRows u time (.ofNat n) next) (hn : n < 2 ^ 53)
    (hsize : |(n : ℚ) - 1| * (unitMillis u + 1) ≤ 2 ^ 50) : WholeTimes u (twoRows time) := by
  intro words hwords x hx
  rw [h.words, List.mem_pair] at hwords
  rcases hwords with rfl | rfl
  · rw [modelTime?_cons, h.number_first] at hx
    obtain rfl := Option.some.inj hx
    refine ⟨moderate_ofNat (by decide) (by norm_num), 0, ?_⟩
    rw [show (1 : Double) = .ofNat 1 from rfl, (Double.ofNat_eq (by decide)).2]
    norm_num
  · rw [modelTime?_cons, h.number_time] at hx
    obtain rfl := Option.some.inj hx
    refine ⟨moderate_ofNat hn hsize, (n : ℤ) - 1, ?_⟩
    rw [(Double.ofNat_eq hn).2]
    push_cast
    ring

theorem rows_of_hours : ∃ ses' column r a,
    ofParams (gageParams 24) .iso = .ok (gageCommand 24) ∧
      exec (gageCommand 24).run (gageSession "25") = (.ok (), ses') ∧
      WholeTimes 24 (twoRows "25") ∧ LastNamed (dataNames (twoRows "25")) "FLOW" column ∧
      ses'.store.getSeries ⟨"Q"⟩ = .ok a ∧ HoldsColumn newYear 24 (twoRows "25") column r a ∧
      a.valueAt? ⟨newYear.nanos + dayNanos⟩ = some 2 := by
  have h := readsTwoRows_hours
  have hadd : ((gageCommand 24).add "gage.txt" (twoPoints ⟨newYear.nanos + dayNanos⟩) .empty
      ("FLOW", ⟨"Q"⟩)).toOption.map (fun _ => ()) = some () := by
    decide +kernel
  obtain ⟨ses', hexec, -⟩ := h.exec hadd
  have hsize : |((25 : ℕ) : ℚ) - 1| * (unitMillis 24 + 1) ≤ 2 ^ 50 := by
    norm_num [unitMillis]
  have hwhole := h.wholeTimes (by decide) hsize
  obtain ⟨text, htext, -, hseconds, hpicks⟩ := rows_of_run .empty h.block rfl rfl hexec
  obtain rfl := Except.ok.inj (h.read.symm.trans htext)
  obtain ⟨column, r, a, hlast, -, ha, hholds⟩ := hpicks ("FLOW", ⟨"Q"⟩) List.mem_cons_self
  obtain rfl : column = 0 := by
    have hcolumn := hlast.1
    rw [h.names] at hcolumn
    exact Nat.lt_one_iff.mp (List.getElem?_eq_some_iff.mp hcolumn).1
  have hvalue : value? ["25", "2"] 0 = some 2 := h.number_value
  have hday := hholds.day (hseconds (by decide) hwhole) (by decide) ["25", "2"]
    (by rw [h.words]; exact List.mem_cons_of_mem _ List.mem_cons_self) (.ofNat 25) 1 2
    h.number_time (moderate_ofNat (by decide) hsize)
    (by rw [(Double.ofNat_eq (by decide)).2]; norm_num) hvalue
  rw [one_mul] at hday
  exact ⟨ses', 0, r, a, h.block, hexec, hwhole, hlast, ha, hholds, hday⟩

/-- If a day has seven units, the row at model time eight is one millisecond before the next day, and
its value is nowhere in the store: the frequency is of one second less than a day. -/
theorem row_lost_in_sevenths : ∃ ses' a,
    ofParams (gageParams 7) .iso = .ok (gageCommand 7) ∧
      exec (gageCommand 7).run (gageSession "8") = (.ok (), ses') ∧
      ["8", "2"] ∈ rowWords (twoRows "8") ∧ modelTime? ["8", "2"] = some 8 ∧
      (8 : Double).toRat = 1 + 1 * 7 ∧ value? ["8", "2"] 0 = some 2 ∧
      ses'.store.getSeries ⟨"Q"⟩ = .ok a ∧ ∀ t, a.valueAt? t ≠ some 2 := by
  have h := readsTwoRows_sevenths
  have hadd : ((gageCommand 7).add "gage.txt" (twoPoints ⟨newYear.nanos + 86399999000000⟩) .empty
      ("FLOW", ⟨"Q"⟩)).toOption.map (fun st => (st.getSeries ⟨"Q"⟩).toOption.map TimeSeries.valid) =
        some (some [(newYear, 1)]) := by
    decide +kernel
  obtain ⟨ses', hexec, hread⟩ := h.exec hadd
  obtain ⟨a, ha, hvalid⟩ := ok_of_toOption_map hread
  refine ⟨ses', a, h.block, hexec, ?_, h.number_time, ?_, h.number_value, ha, fun t ht => ?_⟩
  · rw [h.words]
    exact List.mem_cons_of_mem _ List.mem_cons_self
  · rw [show (8 : Double) = .ofNat 8 from rfl, (Double.ofNat_eq (by decide)).2]
    norm_num
  · rw [TimeSeries.valueAt?_eq_some (Store.increasing_getSeries ha), ← TimeSeries.mem_valid,
      hvalid, List.mem_singleton] at ht
    exact absurd (Prod.mk.inj ht).2 (by decide +kernel)

end Hydroseries.Command.GetSeries
