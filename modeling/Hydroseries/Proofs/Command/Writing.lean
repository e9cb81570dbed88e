import Hydroseries.Proofs.Command.Adding

/-!
# Commands that write

What is written by a report command and by a command for the files of a calibration, if they succeed.
The files of a calibration are written from the last report: the instructions first, then the control
file, which may be put in their place.
-/

namespace Hydroseries.Command

open Action
open Stateful (exec exec_get exec_bind_eq_ok exec_bind_outcome exec_mapM_outcome)

variable {s s' : Session}

theorem exec_resolve {file path : String} :
    exec (Action.resolve file) s = (.ok path, s') ↔ s.resolve file = path ∧ s = s' := by
  show (Except.ok _, s) = _ ↔ _
  rw [Prod.mk.injEq, Except.ok.injEq]

theorem exec_writeText {path text : String} {u : Unit} :
    exec (Action.writeText path text) s = (.ok u, s') ↔
      ∃ files, s.files.write path text = .ok files ∧ { s with files } = s' := by
  rw [Action.writeText, exec_get, exec_bind_outcome]
  cases s.files.write path text with
  | error fault => simp
  | ok files =>
    show (Except.ok (), _) = _ ↔ _
    simp

/-- A file can be written at a place that is no directory, whatever its text. -/
theorem exists_write {t : FileTree} {name : String}
    (h : (t.locate name).toOption.any (fun place => !t.isDirectory place) = true) (text : String) :
    ∃ files, t.write name text = .ok files := by
  cases hplace : t.locate name with
  | error cause =>
    rw [hplace] at h
    cases h
  | ok place =>
    rw [hplace] at h
    have hdirectory : t.isDirectory place = false := by simpa [Except.toOption] using h
    refine ⟨{ t with files := t.files.insert place text.toUTF8 }, ?_⟩
    rw [FileTree.write, hplace]
    show (if t.isDirectory place then _ else _ : Except FileFault FileTree).mapError _ = _
    rw [if_neg (by simp [hdirectory])]
    rfl

/-- A report is written if it can be laid out, and it becomes the last one. -/
theorem ListOutput.run_eq_ok {c : ListOutput} : c.run.perform s = (.ok (), s') ↔
    ∃ listing files, c.layOut s = .ok listing ∧ s.files.write listing.file listing.text = .ok files ∧
      { s with listing := some listing, files } = s' := by
  change exec c.run s = _ ↔ _
  rw [ListOutput.run, exec_get, exec_bind_outcome]
  cases c.layOut s with
  | error fault => simp
  | ok listing =>
    simp only [exec_bind_eq_ok, exec_writeText]
    constructor
    · rintro ⟨_, _, ⟨files, hwrite, rfl⟩, hmodify⟩
      exact ⟨listing, files, rfl, hwrite, congrArg Prod.snd hmodify⟩
    · rintro ⟨_, files, hlisting, hwrite, rfl⟩
      obtain rfl := Except.ok.inj hlisting
      exact ⟨(), _, ⟨files, hwrite, rfl⟩, rfl⟩

namespace WritePestFiles

theorem session_of_assemble {b : Pest.FilesBlock} {listing : Report.Listing} {a : Pest.Assembled}
    (h : exec (assemble b listing) s = (.ok a, s')) : s' = s :=
  (congrArg Prod.snd h).symm.trans (keeps_assemble id b listing s)

/-- The files are written if there is a report and what goes into them can be assembled. -/
theorem run_eq_ok {b : Pest.FilesBlock} : (run b).perform s = (.ok (), s') ↔
    ∃ listing a files files', s.listing = some listing ∧
      (assemble b listing).perform s = (.ok a, s) ∧
      s.files.write (s.resolve b.instructionFile) listing.instructions = .ok files ∧
      files.write (s.resolve b.controlFile) (b.controlText a listing.file) = .ok files' ∧
      { s with files := files' } = s' := by
  change exec (run b) s = _ ↔ _
  rw [run, exec_get]
  cases hlisting : s.listing with
  | none =>
    show (Except.error _, s) = _ ↔ _
    simp
  | some listing =>
    simp only [exec_bind_eq_ok, exec_writeText, exec_resolve]
    constructor
    · rintro ⟨a, s₁, ha, _, _, ⟨rfl, rfl⟩, _, _, ⟨files, hwrite, rfl⟩, _, _, ⟨rfl, rfl⟩, files',
        hwrite', rfl⟩
      obtain rfl := session_of_assemble ha
      exact ⟨listing, a, files, files', rfl, ha, hwrite, hwrite', by rw [hlisting]⟩
    · rintro ⟨_, a, files, files', hsome, ha, hwrite, hwrite', rfl⟩
      obtain rfl := Option.some.inj hsome
      exact ⟨a, s, ha, _, _, ⟨rfl, rfl⟩, (), _, ⟨files, hwrite, rfl⟩, _, _, ⟨rfl, rfl⟩, files',
        hwrite', by rw [hlisting]⟩

/-- What goes into the control file are the groups and the parameters of the two files, the lines of
the pairs, one pair after the other, and what the block says. -/
theorem parts_of_assemble {b : Pest.FilesBlock} {listing : Report.Listing} {a : Pest.Assembled}
    (h : exec (assemble b listing) s = (.ok a, s')) :
    ∃ groupPath groupText path text lines,
      Pest.ParameterGroups.read groupPath groupText = .ok a.groups ∧
      Pest.ParameterData.read path text a.groups = .ok a.parameters ∧
      b.pairs.mapM (fun w => w.observationLines s.store listing) = .ok lines ∧
      a = ⟨a.groups, a.parameters, b.observationGroups, lines.flatten, b.templates.length⟩ := by
  obtain rfl := session_of_assemble h
  simp only [assemble, exec_bind_eq_ok] at h
  obtain ⟨_, _, -, groupPath, _, -, groupText, _, -, groups, _, hgroups, path, _, -, text, _, -,
    parameters, _, hparameters, _, _, hget, lines, _, hlines, hpure⟩ := h
  rw [exec_mapM_outcome] at hlines
  -- From where the store is looked at on, nothing changes any more.
  obtain ⟨hok, rfl⟩ := Prod.mk.inj hlines
  obtain ⟨ha, rfl⟩ := Prod.mk.inj hpure
  obtain ⟨hstore, rfl⟩ := Prod.mk.inj hget
  obtain rfl := Except.ok.inj hstore
  obtain rfl := Except.ok.inj ha
  exact ⟨groupPath, groupText, path, text, lines, (Prod.mk.inj hgroups).1,
    (Prod.mk.inj hparameters).1, hok, rfl⟩

/-- The observation data are the lines of the pairs, one pair after the other. -/
theorem observations_of_assemble {b : Pest.FilesBlock} {listing : Report.Listing}
    {a : Pest.Assembled} (h : exec (assemble b listing) s = (.ok a, s')) :
    ∃ lines, b.pairs.mapM (fun w => w.observationLines s.store listing) = .ok lines ∧
      a.observations = lines.flatten := by
  obtain ⟨_, _, _, _, lines, -, -, hlines, ha⟩ := parts_of_assemble h
  exact ⟨lines, hlines, congrArg Pest.Assembled.observations ha⟩

end WritePestFiles

/-! ## Sessions with a report -/

/-- A report command that fails leaves the last report. -/
theorem ListOutput.listing_after_failure {c : ListOutput} {fault : Fault}
    (h : c.run.perform s = (.error fault, s')) : s'.listing = s.listing := by
  change exec c.run s = _ at h
  rw [ListOutput.run, exec_get, exec_bind_outcome] at h
  cases hlisting : c.layOut s with
  | error cause =>
    rw [hlisting] at h
    exact congrArg Session.listing (Prod.mk.inj h).2.symm
  | ok listing =>
    rw [hlisting] at h
    simp only [Stateful.exec_bind] at h
    have hkeep : (exec (Action.writeText listing.file listing.text) s).2.listing = s.listing :=
      (keeps_writeText _ _).listing s
    generalize exec (Action.writeText listing.file listing.text) s = written at h hkeep
    obtain ⟨cause | _, s₁⟩ := written
    · obtain ⟨-, rfl⟩ := Prod.mk.inj h
      exact hkeep
    · cases h

/-- What commands, and the directories of control files, make of a session without a report. -/
inductive Reached : Session → Prop
  | start {s : Session} : s.listing = none → Reached s
  | directory {s : Session} (dir : String) : Reached s → Reached { s with baseDir := dir }
  | run {s : Session} (c : Command) : Reached s → Reached (c.run.perform s).2

/-- The last report was laid out in a session before. -/
theorem Reached.exists_layOut {listing : Report.Listing} (h : Reached s)
    (hlisting : s.listing = some listing) :
    ∃ (c : ListOutput) (s₀ : Session), c.layOut s₀ = .ok listing := by
  induction h generalizing listing with
  | start hnone =>
    rw [hnone] at hlisting
    cases hlisting
  | directory dir _ ih => exact ih hlisting
  | @run s c _ ih =>
    by_cases hc : ∃ l, c = .listOutput l
    · obtain ⟨l, rfl⟩ := hc
      rcases hrun : (Command.listOutput l).run.perform s with ⟨fault | _, s'⟩
      · rw [hrun] at hlisting
        exact ih ((ListOutput.listing_after_failure hrun).symm.trans hlisting)
      · obtain ⟨laidOut, files, hlayout, -, rfl⟩ := ListOutput.run_eq_ok.mp hrun
        rw [hrun] at hlisting
        obtain rfl := Option.some.inj hlisting
        exact ⟨l, s, hlayout⟩
    · have hkeep := keeps_listing c (fun l hl => hc ⟨l, hl⟩) s
      exact ih (hkeep.symm.trans hlisting)

end Hydroseries.Command
