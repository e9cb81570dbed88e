import Hydroseries.Proofs.Command.Adding
import Hydroseries.Proofs.Run.Execution
import Hydroseries.Proofs.Store.Copies

/-!
# What a failing command leaves in the store

Most commands make one entity of what they read, and adding it is their last step; others only write
files. They are all or nothing (`adds_run`, `keeps_run`). Giving another name is so because a copy that
succeeded can be followed by the erasure, and putting a series in the place of its source because the
erased name is free again and the series has values.

Three things are left behind by commands that fail: the series of a file that were added before one
that cannot be (`Leftover.added`), an erasure of entities of which one is listed twice
(`Leftover.erased`), and the erasure of an entity that was to be replaced by itself
(`Leftover.replaced`). These are all (`store_after_failure`).
-/

namespace Hydroseries.Command

open Action
open Stateful (exec)

/-! ## Entities in the place of others -/

variable {s s' : Session} {fault : Fault} {last : EntityName → Option Series}

theorem Renaming.store_after_move (h : Store.History s.store last) (c : Renaming)
    (hexec : exec c.move s = (.error fault, s')) (hfault : fault ≠ .outOfRange) :
    s'.store = s.store := by
  rw [Renaming.move, exec_onStore] at hexec
  obtain ⟨hresult, rfl⟩ := Prod.mk.inj hexec
  rcases h.rename_cases c.kind c.source c.target c.overwrite with
    ⟨-, ⟨hout, -⟩ | ⟨st', hok, -⟩⟩ | ⟨-, cause, st', hrefused, -, rfl⟩
  · rw [hout] at hresult
    exact absurd (Except.error.inj hresult).symm hfault
  · rw [hok] at hresult
    cases hresult
  · exact congrArg Prod.snd hrefused

/-- If a series cannot be put in the place of what was read, its grid leaves the calendar: the name
is free after the erasure, and there are as many values as before. -/
theorem replace_eq_error (h : Store.History s.store last) {name : EntityName} {source : Series}
    (hread : s.store.getSeries name = .ok source) {f : Double → Double}
    (hexec : exec (do
      Action.changeStore fun st => st.eraseSeries name
      Action.joinSeries name (source.mapValues f)) s = (.error fault, s')) :
    fault = .outOfRange := by
  obtain ⟨r, hrecord, -⟩ := bind_eq_ok.mp hread
  have hr := Store.record_eq_ok.mp hrecord
  obtain ⟨ps, hps⟩ := h.aligned.points?_of_record hr
  obtain rfl := Except.ok.inj ((h.aligned.getSeries hr hps).symm.trans hread)
  have hfree : (s.store.unfiled name r).series.find? name = none := by
    rw [Store.find?_series_unfiled, if_pos rfl]
  have hincreasing : Increasing ((r.cut ps).mapValues f).index := by
    rw [TimeSeries.index_mapValues]
    exact r.increasing_cut (h.aligned.increasing_points? hps)
  have hvalid : ((r.cut ps).mapValues f).valid ≠ [] := by
    rw [TimeSeries.valid_mapValues]
    exact fun hnil => (h.valid_cut hr hps).2 (List.map_eq_nil_iff.mp hnil)
  rw [Stateful.exec_bind, exec_changeStore, Store.eraseSeries_eq_ok.mpr ⟨r, hr, rfl⟩] at hexec
  simp only [Action.joinSeries, exec_changeStore] at hexec
  cases hjoin : (s.store.unfiled name r).joinSeries name ((r.cut ps).mapValues f) with
  | ok st' =>
    rw [hjoin] at hexec
    cases hexec
  | error cause =>
    rw [hjoin] at hexec
    rw [← Except.error.inj (Prod.mk.inj hexec).1]
    exact Store.joinSeries_eq_error hfree hincreasing hvalid hjoin

theorem SeriesBaseLevel.store_after_run (h : Store.History s.store last) (c : SeriesBaseLevel)
    (hexec : exec c.run s = (.error fault, s')) (hfault : fault ≠ .outOfRange) :
    s'.store = s.store := by
  rw [SeriesBaseLevel.run, exec_getSeries_bind] at hexec
  cases hbase : s.store.getSeries c.base with
  | error cause =>
    rw [hbase] at hexec
    exact congrArg Session.store (Prod.mk.inj hexec).2.symm
  | ok base =>
    rw [hbase] at hexec
    cases hlevel : base.valueAt? c.moment with
    | none =>
      simp only [hlevel] at hexec
      exact (keeps_throw _).adds.store s fault s' hexec
    | some level =>
      simp only [hlevel, exec_getSeries_bind] at hexec
      cases hread : s.store.getSeries c.names.source with
      | error cause =>
        rw [hread] at hexec
        exact congrArg Session.store (Prod.mk.inj hexec).2.symm
      | ok source =>
        rw [hread] at hexec
        simp only at hexec
        split at hexec
        · exact absurd (replace_eq_error h hread hexec) hfault
        · exact (adds_joinSeries _ _).store s fault s' hexec

/-! ## Loops -/

/-- Adds the part in the window of a wanted column. -/
def GetSeries.add (c : GetSeries) (path : String) (columns : DataTable) (st : Store)
    (pick : String × EntityName) : Outcome Store := do
  let label ← c.labelOf path columns pick.1
  st.joinSeries pick.2 (← DataFile.pick path columns label c.window)

/-- The columns of the file of a command. -/
def GetSeries.load (c : GetSeries) (s : Session) : Outcome DataTable := do
  c.table (s.resolve c.file) (← s.files.read (s.resolve c.file))

/-- A reading command adds the wanted columns in order, if its file can be read. -/
theorem GetSeries.exec_run (c : GetSeries) (s : Session) :
    exec c.run s = match c.load s with
      | .error fault => (.error fault, s)
      | .ok columns =>
        let added := changeAll (c.add (s.resolve c.file) columns) c.picks s.store
        (added.1, { s with store := added.2 }) := by
  rw [GetSeries.run, exec_resolve_bind, exec_readText_bind, GetSeries.load]
  cases s.files.read (s.resolve c.file) with
  | error fault => rfl
  | ok text =>
    simp only [Stateful.exec_bind_outcome]
    show _ = match c.table (s.resolve c.file) text with | .error fault => _ | .ok columns => _
    cases c.table (s.resolve c.file) text with
    | error fault => rfl
    | ok columns =>
      dsimp only
      rw [exec_forIn (c.add (s.resolve c.file) columns)]
      exact fun pick => Makes.outcome fun label => Makes.outcome fun new => makes_changeStore _ _

/-- A reading command fails before anything is added, or at a wanted column that cannot be added
after those before it were. -/
theorem GetSeries.run_eq_error (c : GetSeries) (hexec : exec c.run s = (.error fault, s')) :
    s'.store = s.store ∨
    ∃ text columns done next rest, s.files.read (s.resolve c.file) = .ok text ∧
      c.table (s.resolve c.file) text = .ok columns ∧ c.picks = done ++ next :: rest ∧
      done.foldlM (c.add (s.resolve c.file) columns) s.store = .ok s'.store ∧
      c.add (s.resolve c.file) columns s'.store next = .error fault := by
  rw [GetSeries.exec_run] at hexec
  cases hload : c.load s with
  | error cause =>
    rw [hload] at hexec
    exact .inl (congrArg Session.store (Prod.mk.inj hexec).2.symm)
  | ok columns =>
    rw [hload] at hexec
    obtain ⟨hresult, rfl⟩ := Prod.mk.inj hexec
    obtain ⟨text, htext, hcolumns⟩ := bind_eq_ok.mp hload
    obtain ⟨done, next, rest, hpicks, hdone, hnext⟩ := changeAll_eq_error (Prod.ext hresult rfl)
    exact .inr ⟨text, columns, done, next, rest, htext, hcolumns, hpicks, hdone, hnext⟩

theorem EraseEntities.run_eq_error (c : EraseEntities) (hexec : exec c.run s = (.error fault, s')) :
    s'.store = s.store ∨
    (∀ t ∈ c.targets, s.store.contains t.1 t.2 = true) ∧
    ∃ done next rest, c.targets = done ++ next :: rest ∧
      done.foldlM (fun st t => st.erase t.1 t.2) s.store = .ok s'.store ∧
      s'.store.erase next.1 next.2 = .error fault := by
  unfold EraseEntities.run at hexec
  rw [Stateful.exec_get] at hexec
  cases hmissing : c.targets.find? fun t => !s.store.contains t.1 t.2 with
  | some t =>
    rw [hmissing] at hexec
    exact .inl (congrArg Session.store (Prod.mk.inj hexec).2.symm)
  | none =>
    simp only [hmissing] at hexec
    rw [exec_forIn fun st t => st.erase t.1 t.2] at hexec
    · obtain ⟨hresult, rfl⟩ := Prod.mk.inj hexec
      refine .inr ⟨fun t ht => ?_, changeAll_eq_error (Prod.ext hresult rfl)⟩
      simpa using List.find?_eq_none.mp hmissing t ht
    · exact fun t => makes_changeStore _ _

/-! ## What is left behind -/

/-- A command that fails leaves a changed store. -/
inductive Leftover (s : Session) : Command → Fault → Store → Prop
  /-- Some wanted columns of a file were added before one that cannot be. -/
  | added {c : GetSeries} {text : String} {columns : DataTable} {fault : Fault}
      {done rest : List (String × EntityName)} {next : String × EntityName} {st : Store} :
      s.files.read (s.resolve c.file) = .ok text → c.table (s.resolve c.file) text = .ok columns →
      c.picks = done ++ next :: rest → done ≠ [] →
      done.foldlM (c.add (s.resolve c.file) columns) s.store = .ok st →
      c.add (s.resolve c.file) columns st next = .error fault → Leftover s (.getSeries c) fault st
  /-- All entities are there, but one is listed twice and so was erased when its turn came again. -/
  | erased {c : EraseEntities} {done rest : List (EntityKind × EntityName)} {kind : EntityKind}
      {name : EntityName} {st : Store} :
      c.targets = done ++ (kind, name) :: rest → (kind, name) ∈ done →
      (∀ t ∈ c.targets, s.store.contains t.1 t.2 = true) →
      done.foldlM (fun st t => st.erase t.1 t.2) s.store = .ok st →
      Leftover s (.eraseEntities c) (.missingEntity kind name.text) st
  /-- An entity that was to be replaced by itself was erased. -/
  | replaced {c : Renaming} {st : Store} :
      s.store.ReplacesItself c.kind c.source c.target c.overwrite →
      s.store.erase c.kind c.target = .ok st →
      Leftover s (.copy c) (.missingEntity c.kind c.source.text) st

/-- After erasures a store contains what was not erased. -/
theorem contains_of_erasures {targets : List (EntityKind × EntityName)} {st st' : Store}
    (h : targets.foldlM (fun st t => st.erase t.1 t.2) st = .ok st') (kind : EntityKind)
    (name : EntityName) :
    st'.contains kind name = true ↔ st.contains kind name = true ∧ (kind, name) ∉ targets := by
  induction targets generalizing st with
  | nil =>
    obtain rfl := Except.ok.inj h
    simp
  | cons t targets ih =>
    rw [List.foldlM_cons] at h
    obtain ⟨st₁, herase, hrest⟩ := bind_eq_ok.mp h
    rw [ih hrest, Store.contains_erase herase]
    simp only [List.mem_cons, not_or, Prod.ext_iff]
    by_cases ht : kind = t.1 ∧ name = t.2 <;> simp [ht]

/-- After additions a store contains the new names and those from before. -/
theorem GetSeries.contains_of_additions {c : GetSeries} {path : String} {columns : DataTable}
    {picks : List (String × EntityName)} {st st' : Store}
    (h : picks.foldlM (c.add path columns) st = .ok st') (name : EntityName) :
    st'.contains .series name = true ↔
      name ∈ picks.map Prod.snd ∨ st.contains .series name = true := by
  induction picks generalizing st with
  | nil =>
    obtain rfl := Except.ok.inj h
    simp
  | cons pick picks ih =>
    rw [List.foldlM_cons] at h
    obtain ⟨st₁, hadd, hrest⟩ := bind_eq_ok.mp h
    obtain ⟨label, -, hadd⟩ := bind_eq_ok.mp hadd
    obtain ⟨new, -, hjoin⟩ := bind_eq_ok.mp hadd
    rw [ih hrest, (Store.contains_joinSeries hjoin).2]
    simp [or_left_comm, or_assoc]

theorem Leftover.ne {c : Command} {st : Store} (h : Leftover s c fault st) : st ≠ s.store := by
  rintro rfl
  cases h with
  | @added c text columns _ done rest next _ htext hcolumns hpicks hsome hdone hnext =>
    obtain ⟨pick, others, rfl⟩ := List.exists_cons_of_ne_nil hsome
    have htaken := (c.contains_of_additions hdone pick.2).mpr (.inl (by simp))
    rw [List.foldlM_cons] at hdone
    obtain ⟨st₁, hadd, -⟩ := bind_eq_ok.mp hdone
    obtain ⟨label, -, hadd⟩ := bind_eq_ok.mp hadd
    obtain ⟨new, -, hjoin⟩ := bind_eq_ok.mp hadd
    rw [(Store.contains_joinSeries hjoin).1] at htaken
    cases htaken
  | @erased c done rest kind name _ htargets hrepeated hall hdone =>
    have hfound : s.store.contains kind name = true :=
      hall (kind, name) (htargets ▸ List.mem_append_left _ hrepeated)
    exact ((contains_of_erasures hdone kind name).mp hfound).2 hrepeated
  | @replaced c _ hself herase =>
    have hgone := Store.contains_erase herase c.kind c.source
    rw [if_pos ⟨rfl, hself.1⟩, hself.2.2] at hgone
    cases hgone

/-- A command is all or nothing, or it reads a text file, erases, copies, gives another name, or
sets a base level. -/
theorem allOrNothing_or (c : Command) :
    AllOrNothing c.run ∨ (∃ g, c = .getSeries g) ∨ (∃ e, c = .eraseEntities e) ∨
      (∃ r, c = .copy r) ∨ (∃ r, c = .move r) ∨ ∃ b, c = .seriesBaseLevel b := by
  cases c with
  | getSeries c => exact .inr (.inl ⟨c, rfl⟩)
  | eraseEntities c => exact .inr (.inr (.inl ⟨c, rfl⟩))
  | copy c => exact .inr (.inr (.inr (.inl ⟨c, rfl⟩)))
  | move c => exact .inr (.inr (.inr (.inr (.inl ⟨c, rfl⟩))))
  | seriesBaseLevel c => exact .inr (.inr (.inr (.inr (.inr ⟨c, rfl⟩))))
  | settings dates => exact .inl (Keeps.allOrNothing fun _ => rfl)
  | reduceTimeSpan c | seriesClean c | seriesDifference c | seriesDisplace c =>
    exact .inl (adds_derived _ _).store
  | listOutput c => exact .inl c.keepsStore_run.allOrNothing
  | plot c => exact .inl c.keeps_run.store.allOrNothing
  | writePestFiles b => exact .inl (WritePestFiles.keeps_run b).store.allOrNothing
  | getBinarySeries c | newSeriesUniform c | newTimeBase c | seriesEquation c | vTableToSeries c
  | seriesStatistics c | periodStatistics c | seriesCompare c | digitalFilter c | hydroEvents c
  | usgsHysep c | flowDuration c | exceedanceTime c | hydrologicIndices c | volumeCalculation c =>
    exact .inl c.adds_run.store

/-- Whatever calls have led to the store of a session, and whatever a command asks for: if it fails
the store is as it was, in all kinds of entities, except for what `Leftover` lists. Only a grid that
leaves the calendar is passed over. -/
theorem store_after_failure (h : Store.History s.store last) (c : Command)
    (hexec : exec c.run s = (.error fault, s')) (hfault : fault ≠ .outOfRange) :
    s'.store ≠ s.store ↔ Leftover s c fault s'.store := by
  refine ⟨fun hne => ?_, Leftover.ne⟩
  rcases allOrNothing_or c with
    hall | ⟨c, rfl⟩ | ⟨c, rfl⟩ | ⟨c, rfl⟩ | ⟨c, rfl⟩ | ⟨c, rfl⟩
  · exact absurd (hall s fault s' hexec) hne
  · obtain ⟨text, columns, done, next, rest, htext, hcolumns, hpicks, hdone, hnext⟩ :=
      (GetSeries.run_eq_error c hexec).resolve_left hne
    refine .added htext hcolumns hpicks (fun hnil => hne ?_) hdone hnext
    subst hnil
    exact (Except.ok.inj hdone).symm
  · obtain ⟨hall, done, ⟨kind, name⟩, rest, htargets, hdone, hnext⟩ :=
      (EraseEntities.run_eq_error c hexec).resolve_left hne
    have hthere : s.store.contains kind name = true := hall (kind, name) (by simp [htargets])
    rcases Store.erase_cases s'.store kind name with ⟨-, st, hok⟩ | ⟨hgone, hmissing⟩
    · rw [hok] at hnext
      cases hnext
    · rw [hmissing] at hnext
      obtain rfl := Except.error.inj hnext
      refine .erased htargets ?_ hall hdone
      by_contra hnot
      rw [(contains_of_erasures hdone kind name).mpr ⟨hthere, hnot⟩] at hgone
      cases hgone
  · rw [show Command.run (.copy c) = c.copy from rfl, Renaming.copy, exec_onStore] at hexec
    obtain ⟨hresult, rfl⟩ := Prod.mk.inj hexec
    rcases h.copy_cases c.kind c.source c.target c.overwrite with
      ⟨-, ⟨hout, -⟩ | ⟨st, hok, -⟩⟩ | ⟨-, cause, st, hrefused, -, hsame⟩
    · rw [hout] at hresult
      exact absurd (Except.error.inj hresult).symm hfault
    · rw [hok] at hresult
      cases hresult
    · rw [hrefused] at hne
      have hself := not_not.mp fun hnot => hne (hsame.mpr hnot)
      obtain ⟨st', herase, hrun⟩ := Store.exec_copy_self hself
      rw [hrun] at hresult ⊢
      obtain rfl := Except.error.inj hresult
      exact .replaced hself herase
  · exact absurd (Renaming.store_after_move h c hexec hfault) hne
  · exact absurd (SeriesBaseLevel.store_after_run h c hexec hfault) hne

/-- A session in which a series of midnights was read. -/
def stageSession : Session := { Run.newSession with store := Store.midnights.after .empty }

/-- A block that lists one series twice. -/
def eraseTwice : EraseEntities := ⟨[(.series, ⟨"STAGE"⟩), (.series, ⟨"STAGE"⟩)]⟩

theorem store_after_failure_erase_twice :
    let after := (exec (Command.eraseEntities eraseTwice).run stageSession).2
    Leftover stageSession (.eraseEntities eraseTwice) (.missingEntity .series "STAGE")
      after.store := by
  intro after
  have hresult : (exec (Command.eraseEntities eraseTwice).run stageSession).1 =
    .error (.missingEntity .series "STAGE") := by decide +kernel
  have hbefore : stageSession.store.contains .series ⟨"STAGE"⟩ = true := by decide +kernel
  have hafter : after.store.contains .series ⟨"STAGE"⟩ = false := by decide +kernel
  have hne : after.store ≠ stageSession.store := by
    intro hsame
    rw [hsame, hbefore] at hafter
    cases hafter
  exact (store_after_failure Store.history_midnights (.eraseEntities eraseTwice)
    (Prod.ext hresult rfl) nofun).mp hne

/-- A block that lists a series twice is read, and it fails with the series gone. -/
theorem series_gone_after_failure :
    let p := Params.ofPairs "ERASE_ENTITY" 1 [("series_name", .list ["stage", "stage"])]
    Store.History stageSession.store
        (Store.lastJoined (fun _ => none) (Store.midnights.joined .empty).toList) ∧
      (exec (Command.perform p) stageSession).1 = .error (.missingEntity .series "STAGE") ∧
      stageSession.store.contains .series ⟨"STAGE"⟩ = true ∧
      (exec (Command.perform p) stageSession).2.store.contains .series ⟨"STAGE"⟩ = false :=
  ⟨Store.history_midnights, by decide +kernel⟩

end Hydroseries.Command
