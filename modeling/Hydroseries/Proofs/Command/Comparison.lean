import Hydroseries.Command.Statistics
import Hydroseries.Proofs.Command.Effects
import Hydroseries.Proofs.Decimal.Value
import Hydroseries.Proofs.Outcome
import Hydroseries.Proofs.Series.Regular
import Hydroseries.Proofs.Store.Calls
import Hydroseries.Proofs.Store.Entity
import Hydroseries.Proofs.Store.Series
import Mathlib.Data.List.Perm.Subperm

/-!
# Comparisons in the store

A comparison pairs the values at the moments at which the simulated series, the observed one and the
base all have one, and each of its statistics is that of these pairs. The number of terms in its table is
another one: that of the values of the simulated or the observed series, whichever has fewer. The two
agree exactly if one of these two series has all its values at common moments (`table_of_run`).
-/

namespace Hydroseries

open Stateful (exec exec_bind_outcome_eq_ok)

/-- A stored series, prepared for a comparison in a window. -/
def Store.prepared (st : Store) (window : Window) (name : EntityName) : Outcome Series := do
  let s ← st.getSeries name
  (Preparation.mk window false 1.0).apply s

theorem Store.increasing_prepared {st : Store} {window : Window} {name : EntityName} {s : Series}
    (h : st.prepared window name = .ok s) : Increasing s.index := by
  obtain ⟨stored, hstored, hs⟩ := bind_eq_ok.mp h
  exact Preparation.increasing_apply (increasing_getSeries hstored) hs

namespace TimeSeries

variable {s : Series} {t : Timestamp}

/-- The moments at which a series has a value. -/
theorem mem_valid_map_fst (hs : Increasing s.index) :
    t ∈ s.valid.map Prod.fst ↔ (s.valueAt? t).isSome := by
  rw [Option.isSome_iff_exists]
  simp only [List.mem_map, Prod.exists, exists_and_right, exists_eq_right, mem_valid,
    valueAt?_eq_some hs]

theorem validCount_eq (s : Series) : s.validCount = (s.valid.map Prod.fst).length := by
  rw [validCount, validValues, valid, List.length_map, List.length_filterMap_eq_countP,
    List.length_filterMap_eq_countP]
  simp only [Option.isSome_map]

end TimeSeries

/-- Some moments are all of others if there are as many of them. -/
theorem length_eq_iff_of_subset {β : Type} {xs ys : List β} (hxs : xs.Nodup) (hys : ys.Nodup)
    (hsub : xs ⊆ ys) : xs.length ≤ ys.length ∧ (xs.length = ys.length ↔ ys ⊆ xs) := by
  have hsubperm := List.subperm_of_subset hxs hsub
  refine ⟨hsubperm.length_le, fun hlength => ?_, fun hback => ?_⟩
  · exact (hsubperm.perm_of_length_le hlength.ge).symm.subset
  · exact ((List.perm_ext_iff_of_nodup hxs hys).mpr fun x => ⟨@hsub x, @hback x⟩).length_eq

namespace Command.SeriesCompare

variable {c : SeriesCompare} {ses ses' : Session} {sim obs : Series} {base : Option Series}
  {ts : List Timestamp}

/-! ## Common moments -/

/-- All series of a comparison have a value at the moment. -/
def Common (sim obs : Series) (base : Option Series) (t : Timestamp) : Prop :=
  (sim.valueAt? t).isSome ∧ (obs.valueAt? t).isSome ∧ ∀ b ∈ base, (b.valueAt? t).isSome

/-- The pairs are the values of the series at the moments `ts`, in their order. -/
structure PairedAt (sim obs : Series) (base : Option Series) (ts : List Timestamp)
    (p : Paired Double) : Prop where
  sim : ts.map sim.valueAt? = p.sim.map some
  obs : ts.map obs.valueAt? = p.obs.map some
  base : base.map (fun b => ts.map b.valueAt?) = p.base.map (·.map some)

/-- There is a pair for every moment. -/
theorem PairedAt.lengths {p : Paired Double} (h : PairedAt sim obs base ts p) :
    p.sim.length = ts.length ∧ p.obs.length = ts.length := by
  have hsim := congrArg List.length h.sim
  have hobs := congrArg List.length h.obs
  rw [List.length_map, List.length_map] at hsim hobs
  exact ⟨hsim.symm, hobs.symm⟩

/-- The values at the moment of a value of the simulated series. -/
def term? (obs : Series) (base : Option Series) (q : Timestamp × Double) :
    Option (Double × Double × Option Double) := do
  let o ← obs.valueAt? q.1
  match base with
  | none => some (q.2, o, none)
  | some b => (b.valueAt? q.1).map fun v => (q.2, o, some v)

theorem terms_eq (sim obs : Series) (base : Option Series) :
    terms sim obs base = sim.valid.filterMap (term? obs base) := rfl

theorem term?_eq_some {q : Timestamp × Double} {e : Double × Double × Option Double} :
    term? obs base q = some e ↔ q.2 = e.1 ∧ obs.valueAt? q.1 = some e.2.1 ∧
      base.map (·.valueAt? q.1) = e.2.2.map some := by
  obtain ⟨s, o, b⟩ := e
  unfold term?
  rcases base with _ | base <;> rcases b with _ | b <;>
    simp [Option.bind_eq_some_iff, and_left_comm]

/-- There is a term for the values of the simulated series at common moments. -/
theorem isSome_term? {q : Timestamp × Double} :
    (term? obs base q).isSome ↔ (obs.valueAt? q.1).isSome ∧ ∀ b ∈ base, (b.valueAt? q.1).isSome := by
  unfold term?
  cases obs.valueAt? q.1 <;> cases base <;> simp

/-- The moments of the terms. -/
def moments (sim obs : Series) (base : Option Series) : List Timestamp :=
  (sim.valid.filter fun q => (term? obs base q).isSome).map Prod.fst

theorem moments_sublist (sim obs : Series) (base : Option Series) :
    (moments sim obs base).Sublist (sim.valid.map Prod.fst) :=
  List.filter_sublist.map Prod.fst

theorem mem_moments (hs : Increasing sim.index) {t : Timestamp} :
    t ∈ moments sim obs base ↔ Common sim obs base t := by
  unfold moments Common
  rw [← TimeSeries.mem_valid_map_fst hs]
  simp only [List.mem_map, List.mem_filter, isSome_term?]
  constructor
  · rintro ⟨q, ⟨hq, hcommon⟩, rfl⟩
    exact ⟨⟨q, hq, rfl⟩, hcommon⟩
  · rintro ⟨⟨q, hq, rfl⟩, hcommon⟩
    exact ⟨q, ⟨hq, hcommon⟩, rfl⟩

/-- The pairs of some terms. -/
def pairs (base : Option Series) (es : List (Double × Double × Option Double)) : Paired Double :=
  ⟨es.map fun e => e.1, es.map fun e => e.2.1, base.map fun _ => es.filterMap fun e => e.2.2⟩

theorem PairedAt.cons {t : Timestamp} {e : Double × Double × Option Double}
    {es : List (Double × Double × Option Double)} (h : PairedAt sim obs base ts (pairs base es))
    (hsim : sim.valueAt? t = some e.1) (hobs : obs.valueAt? t = some e.2.1)
    (hbase : base.map (·.valueAt? t) = e.2.2.map some) :
    PairedAt sim obs base (t :: ts) (pairs base (e :: es)) := by
  refine ⟨congrArg₂ List.cons hsim h.sim, congrArg₂ List.cons hobs h.obs, ?_⟩
  have hrest := h.base
  obtain ⟨s, o, b⟩ := e
  rcases base with _ | base
  · rfl
  · rcases b with _ | b
    · cases hbase
    · exact congrArg some (congrArg₂ List.cons (Option.some.inj hbase) (Option.some.inj hrest))

/-- Going through the values of the simulated series, each term adds a moment and its values. -/
theorem pairedAt_moments (hs : Increasing sim.index) :
    PairedAt sim obs base (moments sim obs base) (paired sim obs base) := by
  have hvalues : ∀ q ∈ sim.valid, sim.valueAt? q.1 = some q.2 := fun q hq =>
    (TimeSeries.valueAt?_eq_some hs).mpr (TimeSeries.mem_valid.mp hq)
  show PairedAt sim obs base _ (pairs base (terms sim obs base))
  rw [moments, terms_eq]
  generalize sim.valid = points at hvalues ⊢
  induction points with
  | nil => exact ⟨rfl, rfl, by cases base <;> rfl⟩
  | cons q rest ih =>
    rw [List.forall_mem_cons] at hvalues
    have hrest := ih hvalues.2
    rw [List.filter_cons, List.filterMap_cons]
    cases hterm : term? obs base q with
    | none => exact hrest
    | some e =>
      obtain ⟨hsim, hobs, hbase⟩ := term?_eq_some.mp hterm
      exact hrest.cons (hvalues.1.trans (congrArg some hsim)) hobs hbase

/-! ## Terms that are counted -/

/-- The smaller of the two numbers of values is that of the common moments exactly if one of the series
has values at common moments only. -/
theorem min_validCount (hsim : Increasing sim.index) (hobs : Increasing obs.index)
    (hts : Increasing ts) (hcommon : ∀ t, t ∈ ts ↔ Common sim obs base t) :
    ts.length ≤ min sim.validCount obs.validCount ∧
    (min sim.validCount obs.validCount = ts.length ↔
      (∀ t, (sim.valueAt? t).isSome → t ∈ ts) ∨ ∀ t, (obs.valueAt? t).isSome → t ∈ ts) := by
  have hcount {s : Series} (hs : Increasing s.index) (hin : ∀ t ∈ ts, (s.valueAt? t).isSome) :
      ts.length ≤ s.validCount ∧
        (ts.length = s.validCount ↔ ∀ t, (s.valueAt? t).isSome → t ∈ ts) := by
    have hsub : ts ⊆ s.valid.map Prod.fst := fun t ht =>
      (TimeSeries.mem_valid_map_fst hs).mpr (hin t ht)
    have hlength := length_eq_iff_of_subset hts.nodup (TimeSeries.increasing_valid hs).nodup hsub
    rw [TimeSeries.validCount_eq]
    refine ⟨hlength.1, hlength.2.trans (forall_congr' fun t => ?_)⟩
    rw [TimeSeries.mem_valid_map_fst hs]
  have hs := hcount hsim fun t ht => ((hcommon t).mp ht).1
  have ho := hcount hobs fun t ht => ((hcommon t).mp ht).2.1
  rw [← hs.2, ← ho.2]
  omega

/-! ## The table -/

theorem label_injective : Function.Injective FitStatistic.label := by
  intro s s' h
  cases s <;> cases s' <;> first | rfl | exact absurd h (by decide)

/-- Each statistic in the table is that of the pairs. -/
theorem table_eq_ok {table : CTable} (h : c.table sim obs base = .ok table) :
    table.numTerms = min sim.validCount obs.validCount ∧
    ∀ label v, table.stats.find? label = some v ↔
      ∃ s ∈ c.stats, s.label = label ∧ s.compute (paired sim obs base) c.exponent = .ok v := by
  rw [SeriesCompare.table] at h
  split at h
  · obtain ⟨stats, hstats, h⟩ := bind_eq_ok.mp h
    obtain rfl := Except.ok.inj h
    have hmem (label : String) (v : Double) : (label, v) ∈ stats ↔
        ∃ s ∈ c.stats, s.label = label ∧ s.compute (paired sim obs base) c.exponent = .ok v := by
      constructor
      · intro hv
        obtain ⟨s, hs, hlabelled⟩ := mem_of_mapM hstats hv
        obtain ⟨_, hcompute, hpair⟩ := bind_eq_ok.mp hlabelled
        obtain ⟨rfl, rfl⟩ := Prod.mk.inj (Except.ok.inj hpair)
        exact ⟨s, hs, rfl, hcompute⟩
      · rintro ⟨s, hs, rfl, hcompute⟩
        obtain ⟨e, he, hlabelled⟩ := exists_mem_of_mapM hstats hs
        obtain ⟨_, hcompute', hpair⟩ := bind_eq_ok.mp hlabelled
        obtain rfl := Except.ok.inj (hcompute.symm.trans hcompute')
        obtain rfl := Except.ok.inj hpair
        exact he
    refine ⟨rfl, fun label v => (OrderedMap.find?_ofList_iff ?_).trans (hmem label v)⟩
    rintro ⟨label, v⟩ he ⟨label', v'⟩ he' hlabel
    obtain ⟨s, -, rfl, hcompute⟩ := (hmem label v).mp he
    obtain ⟨s', -, rfl, hcompute'⟩ := (hmem label' v').mp he'
    obtain rfl := label_injective hlabel
    exact Except.ok.inj (hcompute.symm.trans hcompute')
  · cases h

/-- What follows the preparation of a stored series runs if that succeeds. -/
theorem exec_prepared_bind_eq_ok {α : Type} {window : Window} {name : EntityName}
    {k : Series → Action α} {a : α} :
    exec ((do
      let s ← Action.getSeries name
      (Preparation.mk window false 1.0).apply s : Action Series) >>= k) ses = (.ok a, ses') ↔
    ∃ s, ses.store.prepared window name = .ok s ∧ exec (k s) ses = (.ok a, ses') := by
  rw [bind_assoc, Action.exec_getSeries_bind, Store.prepared]
  cases ses.store.getSeries name with
  | error fault => simp [bind, Except.bind]
  | ok s => exact exec_bind_outcome_eq_ok

/-- The same for a series that need not be there. -/
theorem exec_mapM_prepared_bind_eq_ok {α : Type} {window : Window} {name? : Option EntityName}
    {k : Option Series → Action α} {a : α} :
    exec (name?.mapM (fun name => (do
      let s ← Action.getSeries name
      (Preparation.mk window false 1.0).apply s : Action Series)) >>= k) ses = (.ok a, ses') ↔
    ∃ base, name?.mapM (ses.store.prepared window) = .ok base ∧
      exec (k base) ses = (.ok a, ses') := by
  cases name? with
  | none =>
    refine ⟨fun h => ⟨none, rfl, h⟩, ?_⟩
    rintro ⟨base, hbase, h⟩
    rwa [← Except.ok.inj hbase] at h
  | some name =>
    show exec ((_ >>= fun s => pure (some s)) >>= k) ses = _ ↔ _
    rw [bind_assoc, exec_prepared_bind_eq_ok]
    constructor
    · rintro ⟨s, hs, h⟩
      exact ⟨some s, bind_eq_ok.mpr ⟨s, hs, rfl⟩, h⟩
    · rintro ⟨base, hbase, h⟩
      obtain ⟨s, hs, hsome⟩ := bind_eq_ok.mp hbase
      obtain rfl := Except.ok.inj hsome
      exact ⟨s, hs, h⟩

/-- A run puts the table of the prepared series into the store. -/
theorem exec_run_eq_ok : exec c.run ses = (.ok (), ses') ↔
    ∃ sim obs base table st, ses.store.prepared c.window c.sim = .ok sim ∧
      ses.store.prepared c.window c.obs = .ok obs ∧
      c.base.mapM (ses.store.prepared c.window) = .ok base ∧
      c.table sim obs base = .ok table ∧ ses.store.insertTable c.name (.c table) = .ok st ∧
      { ses with store := st } = ses' := by
  rw [SeriesCompare.run]
  simp only [exec_prepared_bind_eq_ok, exec_mapM_prepared_bind_eq_ok, exec_bind_outcome_eq_ok,
    Action.exec_insertTable_eq_ok, exists_and_left]

/-- Whatever the store holds, if a comparison succeeds, each statistic in its table is that of the values
at the moments at which the prepared series all have one. The number of terms is at least the number of
these moments, and it is that number exactly if the simulated or the observed series has values at these
moments only. -/
theorem table_of_run (h : exec c.run ses = (.ok (), ses')) :
    ∃ sim obs base ts p table, ses.store.prepared c.window c.sim = .ok sim ∧
      ses.store.prepared c.window c.obs = .ok obs ∧
      c.base.mapM (ses.store.prepared c.window) = .ok base ∧
      Increasing ts ∧ (∀ t, t ∈ ts ↔ Common sim obs base t) ∧ PairedAt sim obs base ts p ∧
      p.sim.length = ts.length ∧ p.obs.length = ts.length ∧
      ses'.store.entity? .cTable c.name = some (.table (.c table)) ∧
      (∀ label v, table.stats.find? label = some v ↔
        ∃ s ∈ c.stats, s.label = label ∧ s.compute p c.exponent = .ok v) ∧
      table.numTerms = min sim.validCount obs.validCount ∧ ts.length ≤ table.numTerms ∧
      (table.numTerms = ts.length ↔
        (∀ t, (sim.valueAt? t).isSome → t ∈ ts) ∨ ∀ t, (obs.valueAt? t).isSome → t ∈ ts) := by
  obtain ⟨sim, obs, base, table, st, hsim, hobs, hbase, htable, hinsert, rfl⟩ := exec_run_eq_ok.mp h
  have hsims := Store.increasing_prepared hsim
  have hobss := Store.increasing_prepared hobs
  have hts : Increasing (moments sim obs base) :=
    List.Pairwise.sublist (moments_sublist sim obs base) (TimeSeries.increasing_valid hsims)
  obtain ⟨hnum, hstats⟩ := table_eq_ok htable
  have hcounted := min_validCount hsims hobss hts fun t => mem_moments hsims
  have hpaired : PairedAt sim obs base (moments sim obs base) (paired sim obs base) :=
    pairedAt_moments hsims
  refine ⟨sim, obs, base, _, _, table, hsim, hobs, hbase, hts, fun t => mem_moments hsims,
    hpaired, hpaired.lengths.1, hpaired.lengths.2, ?_, hstats, hnum, ?_⟩
  · exact (Store.entity?_insertTable hinsert _ _).trans (if_pos ⟨rfl, rfl⟩)
  · rwa [hnum]

/-- Values of consecutive days, from a day of January 1970 on. -/
def daily (first : ℕ) (values : List Double) : Series :=
  ⟨values.zipIdx.map fun e => (.ofDate ⟨first + e.2⟩ 0, some e.1)⟩

/-- Four simulated days, from the first of January on, and an observed series. -/
def simulatedWith (obs : Series) : Session where
  baseDir := "."
  files := .empty
  store := (Store.Call.join ⟨"OBS"⟩ obs).after
    ((Store.Call.join ⟨"SIM"⟩ (daily 0 [1, 2, 3, 4])).after .empty)

/-- A block that asks for the bias. -/
def biasBlock : Params := .ofPairs "SERIES_COMPARE" 1
  [("series_name_sim", .scalar "sim"), ("series_name_obs", .scalar "obs"),
    ("new_c_table_name", .scalar "fit"), ("bias", .scalar "yes")]

def biasCommand : SeriesCompare := ⟨⟨"SIM"⟩, ⟨"OBS"⟩, none, ⟨"FIT"⟩, [.bias], 1, .unbounded⟩

theorem ofParams_biasBlock : ofParams biasBlock .iso = .ok biasCommand := rfl

local instance : DecidableEq Double := Double.sameBits

/-- The comparison with `obs` succeeds, and both series are compared as they were stored. -/
structure Compares (obs : Series) : Prop where
  run : ∃ ses', exec biasCommand.run (simulatedWith obs) = (.ok (), ses')
  sim : (simulatedWith obs).store.prepared .unbounded ⟨"SIM"⟩ = .ok (daily 0 [1, 2, 3, 4])
  obs : (simulatedWith obs).store.prepared .unbounded ⟨"OBS"⟩ = .ok obs

theorem compares_of_points {obs : Series}
    (hrun : (exec biasCommand.run (simulatedWith obs)).1.toOption.map id = some ())
    (hsim : ((simulatedWith obs).store.prepared .unbounded ⟨"SIM"⟩).toOption.map TimeSeries.points =
      some (daily 0 [1, 2, 3, 4]).points)
    (hobs : ((simulatedWith obs).store.prepared .unbounded ⟨"OBS"⟩).toOption.map TimeSeries.points =
      some obs.points) : Compares obs := by
  obtain ⟨_, ses', hrun, -⟩ := ok_of_fst_toOption_map hrun
  obtain ⟨⟨_⟩, hsim, rfl⟩ := ok_of_toOption_map hsim
  obtain ⟨⟨_⟩, hobs, rfl⟩ := ok_of_toOption_map hobs
  exact ⟨⟨ses', hrun⟩, hsim, hobs⟩

theorem compares_inside : Compares (daily 1 [1, 2, 3]) := by
  apply compares_of_points <;> decide +kernel

theorem compares_overlapping : Compares (daily 2 [1, 2, 3, 4]) := by
  apply compares_of_points <;> decide +kernel

theorem table_of_inside : ∃ ses' sim obs base ts p table,
    ofParams biasBlock .iso = .ok biasCommand ∧
      exec biasCommand.run (simulatedWith (daily 1 [1, 2, 3])) = (.ok (), ses') ∧
      PairedAt sim obs base ts p ∧ ses'.store.entity? .cTable ⟨"FIT"⟩ = some (.table (.c table)) ∧
      p.sim.length = 3 ∧ table.numTerms = 3 := by
  obtain ⟨ses', hrun⟩ := compares_inside.run
  obtain ⟨sim, obs, base, ts, p, table, hsim, hobs, hbase, -, hcommon, hpaired, hlength, -, htable, -,
    hnum, -, hiff⟩ := table_of_run hrun
  have hincreasing := Store.increasing_prepared hobs
  obtain rfl := Except.ok.inj (compares_inside.sim.symm.trans hsim)
  obtain rfl := Except.ok.inj (compares_inside.obs.symm.trans hobs)
  obtain rfl : none = base := Except.ok.inj hbase
  have hinside : ∀ t ∈ (daily 1 [1, 2, 3]).valid.map Prod.fst,
      ((daily 0 [1, 2, 3, 4]).valueAt? t).isSome := by decide +kernel
  have hthree : table.numTerms = 3 := hnum.trans (by decide +kernel)
  refine ⟨ses', _, _, _, ts, p, table, ofParams_biasBlock, hrun, hpaired, htable, ?_, hthree⟩
  rw [hlength, ← hthree, eq_comm, hiff]
  exact .inr fun t ht =>
    (hcommon t).mpr ⟨hinside t ((TimeSeries.mem_valid_map_fst hincreasing).mpr ht), ht, nofun⟩

/-- Two of the four simulated days are observed, and there are four terms. -/
theorem terms_not_common : ∃ ses' sim obs table,
    ofParams biasBlock .iso = .ok biasCommand ∧
      exec biasCommand.run (simulatedWith (daily 2 [1, 2, 3, 4])) = (.ok (), ses') ∧
      (simulatedWith (daily 2 [1, 2, 3, 4])).store.prepared .unbounded ⟨"SIM"⟩ = .ok sim ∧
      (simulatedWith (daily 2 [1, 2, 3, 4])).store.prepared .unbounded ⟨"OBS"⟩ = .ok obs ∧
      ses'.store.entity? .cTable ⟨"FIT"⟩ = some (.table (.c table)) ∧ table.numTerms = 4 ∧
      ∀ ts : List Timestamp, ts.Nodup → (∀ t, t ∈ ts ↔ Common sim obs none t) → ts.length = 2 := by
  obtain ⟨ses', hrun⟩ := compares_overlapping.run
  obtain ⟨sim, obs, base, table, st, hsim, hobs, hbase, htable, hinsert, rfl⟩ := exec_run_eq_ok.mp hrun
  have hincreasing := Store.increasing_prepared hsim
  obtain rfl := Except.ok.inj (compares_overlapping.sim.symm.trans hsim)
  obtain rfl := Except.ok.inj (compares_overlapping.obs.symm.trans hobs)
  refine ⟨_, _, _, table, ofParams_biasBlock, hrun, hsim, hobs,
    (Store.entity?_insertTable hinsert _ _).trans (if_pos ⟨rfl, rfl⟩),
    (table_eq_ok htable).1.trans (by decide +kernel), fun ts hts hcommon => ?_⟩
  have hmoments : moments (daily 0 [1, 2, 3, 4]) (daily 2 [1, 2, 3, 4]) none =
      [.ofDate ⟨2⟩ 0, .ofDate ⟨3⟩ 0] := by decide +kernel
  have hperm : ts.Perm [.ofDate ⟨2⟩ 0, .ofDate ⟨3⟩ 0] := by
    refine (List.perm_ext_iff_of_nodup hts (by decide +kernel)).mpr fun t => ?_
    rw [hcommon, ← mem_moments hincreasing, hmoments]
  exact hperm.length_eq

end Command.SeriesCompare

end Hydroseries
