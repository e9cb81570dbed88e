import Hydroseries.Decimal.Shortest
import Hydroseries.Params
import Hydroseries.Series.Prepared
import Hydroseries.Session
import Hydroseries.Stat.Fit
import Hydroseries.Stat.Period

/-!
# Commands that summarize series

Statistics of a whole series, statistics of its periods, and the fit of one series to another.
-/

namespace Hydroseries.Command

/-! ### Preparation -/

/-- Reads how series are prepared. Logarithms and powers exclude each other, and `blocks` excludes
both. -/
def readPreparation (p : Params) (dates : DateFormat) (blocks : Bool) : Outcome Preparation := do
  let log ← p.flag "log"
  let power := (← p.number? Params.asDouble "power").getD 1.0
  if power ≤ 0.0 then throw (.invalid "power" (Decimal.plain power) "must be greater than zero")
  let powered := !(power == 1.0)
  if log && powered then throw (.refused "only one of LOG or POWER may be given")
  if blocks && (log || powered) then
    throw (.refused "LOG and POWER cannot be combined with MINMEAN_n or MAXMEAN_n")
  pure ⟨← p.window dates, log, power⟩

def withoutValues (name : EntityName) : Fault :=
  .refused ("series " ++ name.text ++ " has no values in the requested window")

/-! ### Statistics of a series -/

inductive BlockExtreme where
  | smallest
  | largest
  deriving DecidableEq, Repr

namespace BlockExtreme

/-- The beginning of the keyword that asks for an extreme, before the size of the blocks. -/
def keyword : BlockExtreme → String
  | smallest => "minmean_"
  | largest => "maxmean_"

def value? {α : Type} [Arith α] (e : BlockExtreme) (means : List α) : Option α :=
  match e with
  | smallest => Stat.min? means
  | largest => Stat.max? means

end BlockExtreme

structure SeriesStatistics where
  source : EntityName
  name : EntityName
  stats : List Statistic
  /-- The extremes with the sizes of their blocks. -/
  blocks : List (BlockExtreme × Nat)
  preparation : Preparation
  deriving Repr

namespace SeriesStatistics

/-- The requested sizes of blocks for an extreme. -/
def sizes (p : Params) (e : BlockExtreme) : Outcome (List Nat) := do
  let found ← (p.numbered e.keyword).mapM fun (size, _) => do
    let key := e.keyword ++ toString size
    if size = 0 then throw (.invalid key "0" "block size must be at least 1")
    let wanted ← p.flag key
    pure (if wanted then some size else none)
  pure (found.filterMap id)

def ofParams (p : Params) (dates : DateFormat) : Outcome SeriesStatistics := do
  let stats ← Statistic.all.filterM fun s => p.flag s.keyword
  let smallest ← sizes p .smallest
  let largest ← sizes p .largest
  let blocks := smallest.map (BlockExtreme.smallest, ·) ++ largest.map (BlockExtreme.largest, ·)
  if stats.isEmpty && blocks.isEmpty then
    throw (.refused "SERIES_STATISTICS requests no statistic")
  let source ← p.entity "series_name"
  let name ← p.entity "new_s_table_name"
  let preparation ← readPreparation p dates !blocks.isEmpty
  pure ⟨source, name, stats, blocks, preparation⟩

/-- The values of the requested statistics by label. -/
def values (c : SeriesStatistics) (s : Series) : Outcome (List (String × Double)) := do
  let plain ← c.stats.mapM fun stat =>
    match stat.value? s.validValues with
    | some v => .ok (stat.keyword, v)
    | none => .error (.refused (stat.keyword ++ " of " ++ c.source.text ++ " needs more values"))
  let extremes ← c.blocks.mapM fun (e, size) =>
    match e.value? (Stat.blockMeans s.values size) with
    | some v => .ok (e.keyword ++ toString size, v)
    | none => .error (withoutValues c.source)
  pure (plain ++ extremes)

def table (c : SeriesStatistics) (source : Series) : Outcome STable := do
  let s ← c.preparation.apply source
  match s.firstValid?, s.lastValid? with
  | some start, some finish =>
    let stats := OrderedMap.ofList (← c.values s)
    pure ⟨stats, c.source.text, start, finish, c.preparation.log, c.preparation.power⟩
  | _, _ => throw (withoutValues c.source)

def run (c : SeriesStatistics) : Action Unit := do
  let t ← c.table (← Action.getSeries c.source)
  Action.insertTable c.name (.s t)

end SeriesStatistics

/-! ### Statistics of periods -/

structure PeriodStatistics where
  source : EntityName
  name : EntityName
  statistic : Statistic
  period : Period
  stamp : PeriodStamp
  preparation : Preparation
  deriving Repr

namespace PeriodStatistics

/-- The last months of the types of years. -/
def yearEnds : List (String × Nat) := [("water_high", 9), ("water_low", 3), ("calendar", 12)]

def readPeriod (p : Params) : Outcome Period := do
  match ← p.choice "period" ["month_many", "month_one", "year"] with
  | "month_many" => pure .months
  | "month_one" => pure .pooledMonths
  | _ =>
    let kind := (← p.choice? "year_type" (yearEnds.map Prod.fst)).getD "water_high"
    pure (.years ((yearEnds.lookup kind).getD 12))

def ofParams (p : Params) (dates : DateFormat) : Outcome PeriodStatistics := do
  let period ← readPeriod p
  let stamp ← p.choice "time_abscissa" ["start", "middle", "end"]
  let stamp : PeriodStamp := match stamp with
    | "start" => .start
    | "middle" => .middle
    | _ => .finish
  let source ← p.entity "series_name"
  let name ← p.entity "new_series_name"
  let statistic ← Statistic.read (← p.text "statistic")
  let preparation ← readPreparation p dates false
  pure ⟨source, name, statistic, period, stamp, preparation⟩

def series (c : PeriodStatistics) (source : Series) : Outcome Series := do
  let s ← c.preparation.apply source
  if s.valid.isEmpty then throw (withoutValues c.source)
  TimeSeries.ofPoints (← c.period.statistics c.stamp c.statistic s.valid)

def run (c : PeriodStatistics) : Action Unit := do
  let new ← c.series (← Action.getSeries c.source)
  Action.joinSeries c.name new

end PeriodStatistics

/-! ### Fit -/

/-- Measures of the fit of one series to another. -/
structure SeriesCompare where
  sim : EntityName
  obs : EntityName
  base : Option EntityName
  name : EntityName
  stats : List FitStatistic
  exponent : Nat
  window : Window
  deriving Repr

namespace SeriesCompare

def ofParams (p : Params) (dates : DateFormat) : Outcome SeriesCompare := do
  let stats ← FitStatistic.all.filterM fun s => p.flag s.keyword
  if stats.isEmpty then throw (.refused "SERIES_COMPARE requests no comparison statistic")
  let sim ← p.entity "series_name_sim"
  let obs ← p.entity "series_name_obs"
  let base := p.entity? "series_name_base"
  let name ← p.entity "new_c_table_name"
  let exponent ← checkExponent ((← p.number? Params.asDouble "exponent").getD 1.0)
  let window ← p.window dates
  pure ⟨sim, obs, base, name, stats, exponent, window⟩

/-- The values of the simulated series, the observed one and the base at the moments at which all of
them have one. -/
def terms (sim obs : Series) (base : Option Series) : List (Double × Double × Option Double) :=
  sim.valid.filterMap fun (t, s) => do
    let o ← obs.valueAt? t
    match base with
    | none => some (s, o, none)
    | some b => (b.valueAt? t).map fun v => (s, o, some v)

def paired (sim obs : Series) (base : Option Series) : Paired Double :=
  let ts := terms sim obs base
  ⟨ts.map fun t => t.1, ts.map fun t => t.2.1, base.map fun _ => ts.filterMap fun t => t.2.2⟩

/-- The table of a comparison of prepared series. The number of terms is that of the shorter
series. -/
def table (c : SeriesCompare) (sim obs : Series) (base : Option Series) : Outcome CTable := do
  match sim.firstValid?, sim.lastValid? with
  | some start, some finish =>
    let p := paired sim obs base
    let stats ← c.stats.mapM fun s => do
      let v ← s.compute p c.exponent
      pure (s.label, v)
    pure ⟨OrderedMap.ofList stats, c.obs.text, c.sim.text, start, finish,
      min sim.validCount obs.validCount⟩
  | _, _ => throw (withoutValues c.sim)

def run (c : SeriesCompare) : Action Unit := do
  let prepared (name : EntityName) : Action Series := do
    let s ← Action.getSeries name
    (Preparation.mk c.window false 1.0).apply s
  let sim ← prepared c.sim
  let obs ← prepared c.obs
  let base ← c.base.mapM prepared
  Action.insertTable c.name (.c (← c.table sim obs base))

end SeriesCompare

end Hydroseries.Command
