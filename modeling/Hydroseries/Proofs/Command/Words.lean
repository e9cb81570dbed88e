import Hydroseries.Command.Flow
import Hydroseries.Proofs.Command.Uniform
import Hydroseries.Proofs.Series.Shape
import Hydroseries.Proofs.Stat.Event
import Hydroseries.Proofs.Store.Series

/-!
# Numbers of a block in machine words

A block may give any machine word as a number: how far values are moved, how wide windows and events are,
how many years a step has. The sums and products that a command forms with these numbers are words again
for all but extreme ones. If one of them is not, the command stops without a result; otherwise it joins
the series that it makes, or refuses its block (`words_of_blocks`).
-/

namespace Hydroseries

/-! ## Words that are read -/

theorem Text.lt_of_readNat? {bound : Nat} {s : String} {n : Nat} (h : readNat? bound s = some n) :
    n < bound := by
  simpa using (Option.filter_eq_some_iff.mp h).2

theorem Text.bounds_of_readInt? {bound : Nat} {s : String} {n : Int} (h : readInt? bound s = some n) :
    -(bound : Int) ≤ n ∧ n < bound := by
  obtain ⟨m, -, hm⟩ := Option.bind_eq_some_iff.mp h
  obtain ⟨hbounds, hvalue⟩ := Option.ite_none_right_eq_some.mp hm
  exact Option.some.inj hvalue ▸ hbounds

namespace Params

variable {α : Type} {p : Params} {r : Reading α} {key raw : String} {v : α}

theorem read?_of_readAs (h : readAs r key raw = .ok v) : r.read? (Text.trim raw) = some v := by
  unfold readAs at h
  split at h
  next hread => exact Except.ok.inj h ▸ hread
  next => cases h

theorem exists_read?_of_number (h : p.number r key = .ok v) : ∃ word, r.read? word = some v := by
  obtain ⟨raw, -, hraw⟩ := bind_eq_ok.mp h
  exact ⟨_, read?_of_readAs hraw⟩

theorem exists_read?_of_number? (h : p.number? r key = .ok (some v)) :
    ∃ word, r.read? word = some v := by
  unfold number? at h
  cases htext : p.text? key with
  | none =>
    rw [htext] at h
    cases h
  | some raw =>
    rw [htext] at h
    obtain ⟨_, hraw, hv⟩ := bind_eq_ok.mp h
    obtain rfl := Option.some.inj (Except.ok.inj hv)
    exact ⟨_, read?_of_readAs hraw⟩

end Params

namespace Command

open Stateful (exec exec_bind_outcome)

variable {ses : Session} {dates : DateFormat} {p : Params}

/-- The action adds a series like this under the name, or stops without a result: the latter if not all
numbers are words. -/
def JoinsIf (fits : Prop) (made : Series → Prop) (name : EntityName) (a : Action Unit)
    (ses : Session) : Prop :=
  (fits ∧ ∃ new, made new ∧ exec a ses = exec (Action.joinSeries name new) ses) ∨
    (¬ fits ∧ exec a ses = (.error .outOfRange, ses))

/-- A series that is made is joined. -/
theorem joinsIf_of_cases {fits : Prop} {made : Series → Prop} {x : Outcome Series}
    (h : (fits ∧ ∃ new, x = .ok new ∧ made new) ∨ (¬ fits ∧ x = .error .outOfRange))
    (name : EntityName) (ses : Session) :
    JoinsIf fits made name (do Action.joinSeries name (← x)) ses := by
  unfold JoinsIf
  rw [exec_bind_outcome]
  obtain ⟨hfits, new, rfl, hmade⟩ | ⟨hleaves, rfl⟩ := h
  · exact .inl ⟨hfits, new, hmade, rfl⟩
  · exact .inr ⟨hleaves, rfl⟩

/-! ## Moved values -/

theorem SeriesDisplace.lag_mem {c : SeriesDisplace} (h : ofParams p = .ok c) :
    -2 ^ 63 ≤ c.lag ∧ c.lag < 2 ^ 63 := by
  obtain ⟨_, -, h⟩ := bind_eq_ok.mp h
  obtain ⟨_, -, h⟩ := bind_eq_ok.mp h
  obtain ⟨lag, hlag, h⟩ := bind_eq_ok.mp h
  obtain rfl := Except.ok.inj h
  obtain ⟨_, hread⟩ := Params.exists_read?_of_number hlag
  exact Text.bounds_of_readInt? hread

/-- Values are moved along the index if all positions that they come from are signed words. -/
theorem SeriesDisplace.joins {c : SeriesDisplace} {s : Series} (hc : ofParams p = .ok c)
    (hs : ses.store.getSeries c.names.source = .ok s) :
    JoinsIf (TimeSeries.LagFits s.length c.lag)
      (fun new => TimeSeries.IsMoved s new c.fill c.lag) c.names.name c.run ses := by
  have hcases := joinsIf_of_cases
    (TimeSeries.displace_cases (Store.increasing_getSeries hs) c.fill (lag_mem hc).2) c.names.name ses
  unfold JoinsIf at hcases ⊢
  rw [run, Derived.run, Action.exec_getSeries_bind, hs]
  exact hcases

/-! ## Events -/

/-- What follows the reading of a window runs if the series has values there. -/
theorem exec_windowed_bind {α : Type} {name : EntityName} {stored : Series} (window : Window)
    (k : Series → Action α) (hs : ses.store.getSeries name = .ok stored) :
    exec (windowed name window >>= k) ses =
      if (stored.within window).trimmed.validCount = 0 then
        (.error (.refused ("series " ++ name.text ++ " has no values in the requested window")), ses)
      else exec (k (stored.within window).trimmed) ses := by
  rw [windowed, bind_assoc, Action.exec_getSeries_bind, hs]
  dsimp only
  split <;> rfl

namespace HydroEvents

/-- The numbers of positions that a block gives are words. -/
structure Words (c : HydroEvents) : Prop where
  riseLag : c.settings.riseLag < Event.positionBound
  fallLag : c.settings.fallLag < Event.positionBound
  window : c.settings.window < Event.positionBound

theorem words_of_ofParams {lags : Bool} {c : HydroEvents} (h : ofParams p dates lags = .ok c) :
    c.Words := by
  -- A block without lags says nothing of them, and they are zero.
  have hlag : ∀ key n, (if lags then p.number Params.asSize key else .ok 0 : Outcome Nat) = .ok n →
      n < Event.positionBound := by
    intro key n hn
    split at hn
    · obtain ⟨_, hread⟩ := Params.exists_read?_of_number hn
      exact Text.lt_of_readNat? hread
    · obtain rfl := Except.ok.inj hn
      decide
  obtain ⟨_, -, h⟩ := bind_eq_ok.mp h
  dsimp only at h
  split at h
  · cases h
  · obtain ⟨rise, hrise, h⟩ := bind_eq_ok.mp h
    obtain ⟨fall, hfall, h⟩ := bind_eq_ok.mp h
    obtain ⟨_, -, h⟩ := bind_eq_ok.mp h
    obtain ⟨_, -, h⟩ := bind_eq_ok.mp h
    obtain ⟨window, hwindow, h⟩ := bind_eq_ok.mp h
    obtain ⟨_, -, h⟩ := bind_eq_ok.mp h
    obtain rfl := Except.ok.inj h
    refine ⟨hlag _ _ hrise, hlag _ _ hfall, ?_⟩
    cases window with
    | none => exact (by decide : 1 < Event.positionBound)
    | some n =>
      obtain ⟨_, hread⟩ := Params.exists_read?_of_number? hwindow
      exact Text.lt_of_readNat? hread

/-- How a run ends whose window has this part of a series in it. -/
structure Ends (c : HydroEvents) (s : Series) (ses : Session) : Prop where
  refused : s.validCount = 0 → ∃ why, exec c.run ses = (.error (.refused why), ses)
  invalid : s.validCount ≠ 0 → c.settings.window = 0 →
    exec c.run ses = (.error (.invalid "window" "0" "must be at least 1"), ses)
  joins : s.validCount ≠ 0 → 1 ≤ c.settings.window →
    JoinsIf (Event.SumsFit s.values c.settings) (Event.NearPeaks s c.settings) c.name c.run ses

theorem ends {c : HydroEvents} {stored : Series} (hs : ses.store.getSeries c.source = .ok stored) :
    c.Ends (stored.within c.window).trimmed ses := by
  have hrun := exec_windowed_bind c.window (fun s => do
    Action.joinSeries c.name (← Event.extract s c.settings)) hs
  refine ⟨fun hnone => ⟨_, hrun.trans (if_pos hnone)⟩, fun hsome hzero => ?_, fun hsome hwindow => ?_⟩
  · rw [run, hrun, if_neg hsome, exec_bind_outcome, Event.extract, if_pos hzero]
    rfl
  · have hcases := joinsIf_of_cases
      (Event.extract_cases (stored.within c.window).trimmed hwindow) c.name ses
    unfold JoinsIf at hcases ⊢
    rwa [run, hrun, if_neg hsome]

end HydroEvents

/-! ## Steps of years -/

namespace NewSeriesUniform

/-- What a block says up to its step. -/
structure Says (p : Params) (dates : DateFormat) (unit : String) (n : Nat) : Prop where
  moments : ∃ start finish, p.moment "date_1" "time_1" dates = .ok start ∧
    p.moment "date_2" "time_2" dates = .ok finish ∧ start ≤ finish
  name : ∃ name, p.entity "new_series_name" = .ok name
  value : ∃ value, p.number Params.asDouble "new_series_value" = .ok value
  unit : p.text "time_unit" = .ok unit
  interval : p.number Params.asWord32 "time_interval" = .ok n

/-- How a block ends that says a step: the block is refused, or it is read and its series is joined. -/
def Ends (p : Params) (dates : DateFormat) (unit : String) (n : Nat) (ses : Session) : Prop :=
  (∃ key text why, ofParams p dates = .error (.invalid key text why)) ∨
    ∃ c new, ofParams p dates = .ok c ∧ c.step.Counts unit n ∧
      TimeSeries.uniform c.step c.start c.finish c.value = .ok new ∧
      exec c.run ses = exec (Action.joinSeries c.name new) ses

/-- The block is read as its step is. -/
theorem Says.ofParams_eq {unit : String} {n : Nat} (h : Says p dates unit n) :
    ∃ start finish name value, ofParams p dates =
      (UniformStep.read unit n).map fun step => ⟨name, value, step, start, finish⟩ := by
  obtain ⟨⟨start, finish, hstart, hfinish, hle⟩, ⟨name, hname⟩, ⟨value, hvalue⟩, hunit, hn⟩ := h
  refine ⟨start, finish, name, value, ?_⟩
  unfold ofParams
  rw [hstart, hfinish, hname, hvalue, hunit, hn]
  simp only [bind, Except.bind, if_neg (not_lt.mpr hle)]
  cases UniformStep.read unit n <;> rfl

theorem Says.ends {unit : String} {n : Nat} (h : Says p dates unit n) (ses : Session) :
    (UniformStep.YearsFit unit n ∧ Ends p dates unit n ses) ∨
      (¬ UniformStep.YearsFit unit n ∧ ofParams p dates = .error .outOfRange) := by
  -- Everything else has been read, so that only the step decides.
  obtain ⟨start, finish, name, value, hp⟩ := h.ofParams_eq
  obtain ⟨hfits, ⟨step, hstep⟩ | ⟨key, text, why, hstep⟩⟩ | ⟨hleaves, hstep⟩ :=
    UniformStep.read_cases unit n
  all_goals rw [hstep] at hp
  · have hcounts := UniformStep.counts_of_read hstep
    obtain ⟨count, hnew⟩ := TimeSeries.exists_uniform hcounts.proper start finish value
    refine .inl ⟨hfits, .inr ⟨_, _, hp, hcounts, hnew, ?_⟩⟩
    rw [run, exec_bind_outcome, hnew]
  · exact .inl ⟨hfits, .inl ⟨key, text, why, hp⟩⟩
  · exact .inr ⟨hleaves, hp⟩

end NewSeriesUniform

/-! ## All blocks -/

/-- The numbers that a block gives are words, and what is formed with them decides how the command ends.
If all positions that are computed are words, values are moved or events found, and the series is joined;
else there is no result. A step of years has no result if no word counts its months; every other step is
refused or makes a series. -/
theorem words_of_blocks (ses : Session) (dates : DateFormat) :
    (∀ p c s, SeriesDisplace.ofParams p = .ok c → ses.store.getSeries c.names.source = .ok s →
      (-2 ^ 63 ≤ c.lag ∧ c.lag < 2 ^ 63) ∧ JoinsIf (TimeSeries.LagFits s.length c.lag)
        (fun new => TimeSeries.IsMoved s new c.fill c.lag) c.names.name c.run ses) ∧
    (∀ p lags c s, HydroEvents.ofParams p dates lags = .ok c →
      ses.store.getSeries c.source = .ok s → c.Words ∧ c.Ends (s.within c.window).trimmed ses) ∧
    (∀ p unit n, NewSeriesUniform.Says p dates unit n → n < UniformStep.countBound ∧
      ((UniformStep.YearsFit unit n ∧ NewSeriesUniform.Ends p dates unit n ses) ∨
        (¬ UniformStep.YearsFit unit n ∧
          NewSeriesUniform.ofParams p dates = .error .outOfRange))) := by
  refine ⟨fun p c s hc hs => ?_, fun p lags c s hc hs => ?_, fun p unit n h => ?_⟩
  · exact ⟨SeriesDisplace.lag_mem hc, SeriesDisplace.joins hc hs⟩
  · exact ⟨HydroEvents.words_of_ofParams hc, HydroEvents.ends hs⟩
  · obtain ⟨_, hread⟩ := Params.exists_read?_of_number h.interval
    exact ⟨Text.lt_of_readNat? hread, h.ends ses⟩

section ThreeDays

/-- Three days with a rising flow. -/
def threeDays : Series := ⟨[(.ofDate ⟨0⟩ 0, some 1), (.ofDate ⟨1⟩ 0, some 2), (.ofDate ⟨2⟩ 0, some 3)]⟩

def threeDaysSession : Session where
  baseDir := "."
  files := .empty
  store := (Store.Call.join ⟨"Q"⟩ threeDays).after .empty

def displaceBlock (lag : String) : Params := .ofPairs "SERIES_DISPLACE" 1
  [("series_name", .scalar "q"), ("new_series_name", .scalar "moved"),
    ("lag_increment", .scalar lag), ("fill_value", .scalar "0")]

def eventsBlock (window : String) : Params := .ofPairs "HYDRO_EVENTS" 1
  [("series_name", .scalar "q"), ("new_series_name", .scalar "storms"), ("rise_lag", .scalar "1"),
    ("fall_lag", .scalar "1"), ("window", .scalar window)]

def yearsBlock (count : String) : Params := .ofPairs "NEW_SERIES_UNIFORM" 1
  [("new_series_name", .scalar "yearly"), ("new_series_value", .scalar "2"),
    ("time_unit", .scalar "years"), ("time_interval", .scalar count),
    ("date_1", .scalar "2020-01-01"), ("date_2", .scalar "2022-01-01")]

def displaceCommand (lag : Int) : SeriesDisplace := ⟨⟨⟨"Q"⟩, ⟨"MOVED"⟩⟩, lag, some 0⟩

def eventsCommand (window : Nat) : HydroEvents := ⟨⟨"Q"⟩, ⟨"STORMS"⟩, ⟨1, 1, window, 0.0⟩, .unbounded⟩

local instance : DecidableEq Double := Double.sameBits

theorem getSeries_threeDays : threeDaysSession.store.getSeries ⟨"Q"⟩ = .ok threeDays := by
  have hpoints : (threeDaysSession.store.getSeries ⟨"Q"⟩).toOption.map TimeSeries.points =
      some threeDays.points := by decide +kernel
  obtain ⟨⟨_⟩, hs, rfl⟩ := ok_of_toOption_map hpoints
  exact hs

theorem ofParams_displaceBlock_one :
    SeriesDisplace.ofParams (displaceBlock "1") = .ok (displaceCommand 1) := rfl

theorem ofParams_displaceBlock_least :
    SeriesDisplace.ofParams (displaceBlock "-9223372036854775808") =
      .ok (displaceCommand (-2 ^ 63)) := rfl

theorem ofParams_eventsBlock_one :
    HydroEvents.ofParams (eventsBlock "1") .iso true = .ok (eventsCommand 1) := rfl

theorem ofParams_eventsBlock_greatest :
    HydroEvents.ofParams (eventsBlock "18446744073709551615") .iso true =
      .ok (eventsCommand (2 ^ 64 - 1)) := rfl

theorem says_yearsBlock {count : String} {n : Nat}
    (h : (count, n) ∈ [("1", 1), ("357913942", 357913942)]) :
    NewSeriesUniform.Says (yearsBlock count) .iso "years" n := by
  simp only [List.mem_cons, Prod.mk.injEq, List.not_mem_nil, or_false] at h
  obtain ⟨rfl, rfl⟩ | ⟨rfl, rfl⟩ := h
  all_goals
    refine ⟨⟨.ofDate (.ofCivil ⟨2020, 1, 1⟩) 0, .ofDate (.ofCivil ⟨2022, 1, 1⟩) 0, ?_⟩, ⟨_, rfl⟩,
      ⟨2, ?_⟩, rfl, rfl⟩
    all_goals decide +kernel

theorem validCount_threeDays : (threeDays.within .unbounded).trimmed.validCount ≠ 0 := by
  decide +kernel

/-- Numbers of one leave no word. -/
theorem words_of_ones :
    (∃ new, TimeSeries.IsMoved threeDays new (some 0) 1 ∧
      exec (displaceCommand 1).run threeDaysSession =
        exec (Action.joinSeries ⟨"MOVED"⟩ new) threeDaysSession) ∧
    (∃ new, Event.NearPeaks (threeDays.within .unbounded).trimmed (eventsCommand 1).settings new ∧
      exec (eventsCommand 1).run threeDaysSession =
        exec (Action.joinSeries ⟨"STORMS"⟩ new) threeDaysSession) ∧
    NewSeriesUniform.Ends (yearsBlock "1") .iso "years" 1 threeDaysSession := by
  obtain ⟨hdisplace, hevents, hyears⟩ := words_of_blocks threeDaysSession .iso
  have hlag : TimeSeries.LagFits threeDays.length 1 :=
    (TimeSeries.lagFits_iff (by decide)).mpr (.inr (by decide))
  have hfits : Event.SumsFit (threeDays.within .unbounded).trimmed.values (eventsCommand 1).settings :=
    Event.sumsFit_of_length (by decide +kernel) (by decide +kernel)
  have hyear : NewSeriesUniform.Says (yearsBlock "1") .iso "years" 1 := says_yearsBlock (by decide)
  obtain ⟨-, ⟨-, hmoved⟩ | ⟨hleaves, -⟩⟩ :=
    hdisplace _ _ _ ofParams_displaceBlock_one getSeries_threeDays
  · obtain ⟨-, hends⟩ := hevents _ _ _ _ ofParams_eventsBlock_one getSeries_threeDays
    obtain ⟨-, hfound⟩ | ⟨hleaves, -⟩ := hends.joins validCount_threeDays (by decide)
    · obtain ⟨-, ⟨-, hseries⟩ | ⟨hleaves, -⟩⟩ := hyears _ _ _ hyear
      · exact ⟨hmoved, hfound, hseries⟩
      · exact absurd (fun _ => by decide) hleaves
    · exact absurd hfits hleaves
  · exact absurd hlag hleaves

/-- The least lag, the widest window and more years than have their months counted by a word: the first
two are read, and none of the three has a result. -/
theorem no_result_at_extremes :
    (SeriesDisplace.ofParams (displaceBlock "-9223372036854775808") =
        .ok (displaceCommand (-2 ^ 63)) ∧
      exec (displaceCommand (-2 ^ 63)).run threeDaysSession =
        (.error .outOfRange, threeDaysSession)) ∧
    (HydroEvents.ofParams (eventsBlock "18446744073709551615") .iso true =
        .ok (eventsCommand (2 ^ 64 - 1)) ∧
      exec (eventsCommand (2 ^ 64 - 1)).run threeDaysSession =
        (.error .outOfRange, threeDaysSession)) ∧
    NewSeriesUniform.ofParams (yearsBlock "357913942") .iso = .error .outOfRange := by
  have hyear : NewSeriesUniform.Says (yearsBlock "357913942") .iso "years" 357913942 :=
    says_yearsBlock (by decide)
  refine ⟨⟨ofParams_displaceBlock_least, ?_⟩, ⟨ofParams_eventsBlock_greatest, ?_⟩, ?_⟩
  · obtain ⟨hfits, -⟩ | ⟨-, hstop⟩ :=
      SeriesDisplace.joins ofParams_displaceBlock_least getSeries_threeDays
    · rw [TimeSeries.lagFits_iff (by decide)] at hfits
      exact absurd hfits (by decide)
    · exact hstop
  · obtain ⟨hfits, -⟩ | ⟨-, hstop⟩ :=
      (HydroEvents.ends (c := eventsCommand (2 ^ 64 - 1)) getSeries_threeDays).joins
        validCount_threeDays (by decide)
    · exact absurd (hfits.windows 0 1 rfl (by decide +kernel)) (by decide)
    · exact hstop
  · obtain ⟨hfits, -⟩ | ⟨-, hstop⟩ := hyear.ends threeDaysSession
    · exact absurd (hfits (by decide)) (by decide)
    · exact hstop

end ThreeDays

end Command

end Hydroseries
