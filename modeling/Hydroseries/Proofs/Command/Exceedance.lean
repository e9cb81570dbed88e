import Hydroseries.Command.Flow
import Hydroseries.Proofs.Command.Effects
import Hydroseries.Proofs.Decimal.Value
import Hydroseries.Proofs.Outcome
import Hydroseries.Proofs.Stat.Exceedance
import Hydroseries.Proofs.Store.Calls
import Hydroseries.Proofs.Store.Entity
import Hydroseries.Proofs.Store.Series

/-!
# Exceedance times of stored series

Read in exact arithmetic, the rows that a block puts into its table have times and shares that are never
negative. They are parts of the time from the first value to the last one, and of the whole, if the block
has no negative delay (`shares_of_run`). A negative delay is accepted; it is added to every excursion, so
that more time can be beyond a threshold than there is (`delay_added_to_record`).
-/

namespace Hydroseries

open Stateful (exec exec_bind_outcome_eq_ok)

/-- The values of a series as the rationals that they are. -/
def TimeSeries.exact (s : Series) : TimeSeries ℚ := s.mapValues Double.toRat

namespace TimeSeries

variable {s : Series}

theorem increasing_exact (hs : Increasing s.index) : Increasing s.exact.index := by
  rwa [exact, index_mapValues]

@[simp] theorem firstValid?_exact (s : Series) : s.exact.firstValid? = s.firstValid? := by
  rw [head?_valid_map, head?_valid_map, exact, valid_mapValues, List.map_map]
  rfl

@[simp] theorem lastValid?_exact (s : Series) : s.exact.lastValid? = s.lastValid? := by
  rw [getLast?_valid_map, getLast?_valid_map, exact, valid_mapValues, List.map_map]
  rfl

end TimeSeries

theorem Command.extent_eq_ok {name : EntityName} {s : Series} {first last : Timestamp} :
    extent name s = .ok (first, last) ↔ s.firstValid? = some first ∧ s.lastValid? = some last := by
  rw [extent]
  cases s.firstValid? <;> cases s.lastValid? <;> simp

namespace Command.ExceedanceTime

variable {p : Params} {c : ExceedanceTime} {ses ses' : Session} {s : Series} {first last : Timestamp}

/-- The rows of a block in exact arithmetic. -/
def exactRows (c : ExceedanceTime) (s : Series) (first last : Timestamp) : List (ExceedanceRow ℚ) :=
  Excursion.rows s.exact first last c.unit c.direction
    (c.thresholds.map fun t => (t.1.toRat, t.2.toRat))

/-- The delays of a block are those that it lists, or zero if it lists none. -/
theorem delays_of_ofParams (h : ofParams p = .ok c) : ∃ delays, p.floats "delay" = .ok delays ∧
    ∀ t ∈ c.thresholds, t.2 ∈ delays ∨ t.2 = 0.0 := by
  obtain ⟨direction, -, h⟩ := bind_eq_ok.mp h
  obtain ⟨flows, -, h⟩ := bind_eq_ok.mp h
  split at h
  · cases h
  obtain ⟨delays, hdelays, h⟩ := bind_eq_ok.mp h
  generalize hlisted : (if delays.isEmpty then flows.map fun _ => 0.0 else delays) = listed at h
  dsimp only at h
  split at h
  · cases h
  obtain ⟨source, -, h⟩ := bind_eq_ok.mp h
  obtain ⟨name, -, h⟩ := bind_eq_ok.mp h
  obtain ⟨word, -, h⟩ := bind_eq_ok.mp h
  obtain ⟨unit, -, h⟩ := bind_eq_ok.mp h
  obtain rfl := Except.ok.inj h
  refine ⟨delays, hdelays, fun t ht => ?_⟩
  have hdelay : t.2 ∈ listed := (List.of_mem_zip ht).2
  rw [← hlisted] at hdelay
  split at hdelay
  · obtain ⟨-, -, hzero⟩ := List.mem_map.mp hdelay
    exact .inr hzero.symm
  · exact .inl hdelay

theorem delay_of_mem_exactRows {r : ExceedanceRow ℚ} (hr : r ∈ c.exactRows s first last) :
    ∃ t ∈ c.thresholds, r.delay = t.2.toRat := by
  obtain ⟨_, hmem, rfl⟩ := List.mem_map.mp hr
  obtain ⟨t, ht, rfl⟩ := List.mem_map.mp hmem
  exact ⟨t, ht, rfl⟩

theorem table_eq_ok {t : ETable} : c.table s = .ok t ↔
    ∃ first last, s.firstValid? = some first ∧ s.lastValid? = some last ∧
      ⟨Excursion.rows s first last c.unit c.direction c.thresholds, c.source.text, c.unit.word,
        c.direction⟩ = t := by
  rw [table, bind_eq_ok]
  constructor
  · rintro ⟨⟨first, last⟩, hextent, ht⟩
    obtain ⟨hfirst, hlast⟩ := extent_eq_ok.mp hextent
    exact ⟨first, last, hfirst, hlast, Except.ok.inj ht⟩
  · rintro ⟨first, last, hfirst, hlast, rfl⟩
    exact ⟨(first, last), extent_eq_ok.mpr ⟨hfirst, hlast⟩, rfl⟩

/-- A run puts the rows of the stored series into a new table. -/
theorem exec_run_eq_ok : exec c.run ses = (.ok (), ses') ↔
    ∃ s first last st, ses.store.getSeries c.source = .ok s ∧ s.firstValid? = some first ∧
      s.lastValid? = some last ∧
      ses.store.insertTable c.name (.e ⟨Excursion.rows s first last c.unit c.direction c.thresholds,
        c.source.text, c.unit.word, c.direction⟩) = .ok st ∧
      { ses with store := st } = ses' := by
  rw [run, Action.exec_getSeries_bind]
  cases hs : ses.store.getSeries c.source with
  | error fault => simp
  | ok s =>
    dsimp only
    rw [exec_bind_outcome_eq_ok]
    simp only [table_eq_ok, Action.exec_insertTable_eq_ok]
    constructor
    · rintro ⟨_, ⟨first, last, hfirst, hlast, rfl⟩, st, hst, hses⟩
      exact ⟨s, first, last, st, rfl, hfirst, hlast, hst, hses⟩
    · rintro ⟨_, first, last, st, hok, hfirst, hlast, hst, hses⟩
      obtain rfl := Except.ok.inj hok
      exact ⟨_, ⟨first, last, hfirst, hlast, rfl⟩, st, hst, hses⟩

/-- Whatever the store holds and whatever a block asks for, if the command succeeds, the rows of its
table, taken in exact arithmetic, have no time and no share below zero. A row whose delay is not negative
has a time within that from the first value to the last, and a share of at most one. So have all rows of
a block that lists no negative delay. -/
theorem shares_of_run (hc : ofParams p = .ok c) (h : exec c.run ses = (.ok (), ses')) :
    ∃ s first last table delays, ses.store.getSeries c.source = .ok s ∧
      s.firstValid? = some first ∧ s.lastValid? = some last ∧
      ses'.store.entity? .eTable c.name = some (.table (.e table)) ∧
      table.rows = Excursion.rows s first last c.unit c.direction c.thresholds ∧
      p.floats "delay" = .ok delays ∧
      (∀ r ∈ c.exactRows s first last, 0 ≤ r.duration ∧ 0 ≤ r.fraction ∧
        (0 ≤ r.delay → Excursion.Within first last c.unit r)) ∧
      ((∀ d ∈ delays, 0 ≤ d.toRat) →
        ∀ r ∈ c.exactRows s first last, Excursion.Within first last c.unit r) := by
  obtain ⟨s, first, last, st, hs, hfirst, hlast, hinsert, rfl⟩ := exec_run_eq_ok.mp h
  obtain ⟨delays, hdelays, hthresholds⟩ := delays_of_ofParams hc
  have hbounds {r : ExceedanceRow ℚ} (hr : r ∈ c.exactRows s first last) :=
    Excursion.rows_bounds (TimeSeries.increasing_exact (Store.increasing_getSeries hs))
      ((TimeSeries.firstValid?_exact s).trans hfirst) ((TimeSeries.lastValid?_exact s).trans hlast)
      c.unit c.direction hr
  refine ⟨s, first, last, _, delays, hs, hfirst, hlast,
    (Store.entity?_insertTable hinsert _ _).trans (if_pos ⟨rfl, rfl⟩), rfl, hdelays,
    fun r hr => hbounds hr, fun hnonneg r hr => (hbounds hr).2.2 ?_⟩
  obtain ⟨t, ht, hdelay⟩ := delay_of_mem_exactRows hr
  rw [hdelay]
  rcases hthresholds t ht with hlisted | hzero
  · exact hnonneg _ hlisted
  · rw [hzero]
    decide +kernel

/-- Three days with a flow of ten. -/
def steady : Series := ⟨(List.range 3).map fun day => (.ofDate ⟨day⟩ 0, some 10)⟩

def steadySession : Session where
  baseDir := "."
  files := .empty
  store := (Store.Call.join ⟨"Q"⟩ steady).after .empty

/-- A block that asks for the days above five, after a delay. -/
def daysBlock (delay : String) : Params := .ofPairs "EXCEEDANCE_TIME" 1
  [("series_name", .scalar "q"), ("new_e_table_name", .scalar "et"),
    ("exceedance_time_units", .scalar "days"), ("flow", .scalar "5"), ("delay", .scalar delay)]

def daysCommand (delay : Double) : ExceedanceTime := ⟨⟨"Q"⟩, ⟨"ET"⟩, .day, .above, [(5, delay)]⟩

theorem ofParams_daysBlock_pos : ofParams (daysBlock "1") = .ok (daysCommand 1) := rfl

theorem ofParams_daysBlock_neg : ofParams (daysBlock "-1") = .ok (daysCommand (-1)) := rfl

local instance : DecidableEq Double := Double.sameBits

theorem getSeries_steady : steadySession.store.getSeries ⟨"Q"⟩ = .ok steady := by
  have hpoints : (steadySession.store.getSeries ⟨"Q"⟩).toOption.map TimeSeries.points =
      some steady.points := by decide +kernel
  obtain ⟨⟨_⟩, hs, rfl⟩ := ok_of_toOption_map hpoints
  exact hs

theorem firstValid?_steady : steady.firstValid? = some (.ofDate ⟨0⟩ 0) := rfl

theorem lastValid?_steady : steady.lastValid? = some (.ofDate ⟨2⟩ 0) := rfl

theorem exec_daysCommand (delay : Double) :
    ∃ ses', exec (daysCommand delay).run steadySession = (.ok (), ses') := by
  have hfree : steadySession.store.contains .eTable ⟨"ET"⟩ = false := by decide +kernel
  obtain ⟨-, st, hst⟩ | ⟨htaken, -⟩ := Store.insertTable_cases steadySession.store ⟨"ET"⟩
    (.e ⟨Excursion.rows steady (.ofDate ⟨0⟩ 0) (.ofDate ⟨2⟩ 0) .day .above [(5, delay)], "Q", "days",
      .above⟩)
  · exact ⟨_, exec_run_eq_ok.mpr ⟨steady, _, _, st, getSeries_steady, firstValid?_steady, lastValid?_steady,
      hst, rfl⟩⟩
  · exact absurd htaken (by rw [Store.Table.kind, hfree]; decide)

/-- After a delay of a day, one of the two days counts. -/
theorem shares_of_steady : ∃ ses' first last,
    ofParams (daysBlock "1") = .ok (daysCommand 1) ∧
      exec (daysCommand 1).run steadySession = (.ok (), ses') ∧
      ∃ r ∈ (daysCommand 1).exactRows steady first last, r.duration = 1 ∧ r.fraction = 1 / 2 ∧
        Excursion.Within first last .day r := by
  obtain ⟨ses', hrun⟩ := exec_daysCommand 1
  obtain ⟨s, first, last, _, delays, hs, hfirst, hlast, -, -, hdelays, -, hwithin⟩ :=
    shares_of_run ofParams_daysBlock_pos hrun
  obtain rfl := Except.ok.inj (getSeries_steady.symm.trans hs)
  obtain rfl := Except.ok.inj hdelays
  obtain rfl := Option.some.inj (firstValid?_steady.symm.trans hfirst)
  obtain rfl := Option.some.inj (lastValid?_steady.symm.trans hlast)
  have hrow : ∃ r ∈ (daysCommand 1).exactRows steady (.ofDate ⟨0⟩ 0) (.ofDate ⟨2⟩ 0),
      r.duration = 1 ∧ r.fraction = 1 / 2 := by decide +kernel
  obtain ⟨r, hr, hduration, hfraction⟩ := hrow
  exact ⟨ses', _, _, ofParams_daysBlock_pos, hrun, r, hr, hduration, hfraction,
    hwithin (by decide +kernel) r hr⟩

/-- With a negative delay, three days count of the two that there are. -/
theorem delay_added_to_record : ∃ ses' first last table,
    ofParams (daysBlock "-1") = .ok (daysCommand (-1)) ∧
      exec (daysCommand (-1)).run steadySession = (.ok (), ses') ∧
      steadySession.store.getSeries ⟨"Q"⟩ = .ok steady ∧
      steady.firstValid? = some first ∧ steady.lastValid? = some last ∧
      Timestamp.elapsed first last / TimeUnit.day.seconds = 2 ∧
      ses'.store.entity? .eTable ⟨"ET"⟩ = some (.table (.e table)) ∧
      table.rows = Excursion.rows steady first last .day .above [(5, -1)] ∧
      ∃ r ∈ (daysCommand (-1)).exactRows steady first last, r.duration = 3 ∧ r.fraction = 3 / 2 ∧
        ¬ Excursion.Within first last .day r := by
  obtain ⟨ses', hrun⟩ := exec_daysCommand (-1)
  obtain ⟨s, first, last, st, hs, hfirst, hlast, hinsert, rfl⟩ := exec_run_eq_ok.mp hrun
  obtain rfl := Except.ok.inj (getSeries_steady.symm.trans hs)
  obtain rfl := Option.some.inj (firstValid?_steady.symm.trans hfirst)
  obtain rfl := Option.some.inj (lastValid?_steady.symm.trans hlast)
  have hrow : ∃ r ∈ (daysCommand (-1)).exactRows steady (.ofDate ⟨0⟩ 0) (.ofDate ⟨2⟩ 0),
      r.duration = 3 ∧ r.fraction = 3 / 2 := by decide +kernel
  obtain ⟨r, hr, hduration, hfraction⟩ := hrow
  refine ⟨_, _, _, _, ofParams_daysBlock_neg, hrun, getSeries_steady, hfirst, hlast, by decide +kernel,
    (Store.entity?_insertTable hinsert _ _).trans (if_pos ⟨rfl, rfl⟩), rfl, r, hr, hduration, hfraction,
    fun hwithin => ?_⟩
  have hle : (3 / 2 : ℚ) ≤ 1 := hfraction ▸ hwithin.fraction_le
  exact absurd hle (by decide +kernel)

end Command.ExceedanceTime

end Hydroseries
