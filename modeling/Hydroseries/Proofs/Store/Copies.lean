import Hydroseries.Proofs.Store.Entity
import Hydroseries.Proofs.Store.Refiling

/-!
# Copies and new names

A series is copied by joining what is read of it, so the copy is as good as the record of the series
describes what is read. If it does, the copy is held as the original is, and nothing else changes.
If it does not, because other series of the code have put gaps in or a frequency is inferred anew,
the copy has the values but another record or other gaps (`Received`).

A copy that replaces an entity by itself erases it and fails. Other copies, and all new names, are
given wholly or not at all (`copy_and_rename_of_history`).
-/

namespace Hydroseries.Store

open Stateful (exec)

variable {st st' : Store} {kind : EntityKind} {name source target : EntityName}
  {last : EntityName → Option Series} {names : List EntityName} {js : List (EntityName × Series)}
  {r : SeriesRecord} {s regular : Series} {ps : List (Timestamp × Option Double)}

/-! ## Receiving what was held elsewhere -/

/-- If a series is held, its record describes what is read of it. -/
def Described (held : Option Entity) : Prop :=
  ∀ r s, held = some (.series r s) → r.Describes s

/-- The same table, or series with the same record and the same values. -/
inductive Alike : Entity → Entity → Prop
  | series {r : SeriesRecord} {s s' : Series} : s'.valid = s.valid →
      Alike (.series r s) (.series r s')
  | table (t : Table) : Alike (.table t) (.table t)

/-- What was held elsewhere is now held under a kind and a name, besides what the others hold. -/
structure Received (held : Option Entity) (others : EntityKind → EntityName → Option Entity)
    (st' : Store) (kind : EntityKind) (name : EntityName) : Prop where
  /-- It is held as it was just if its record describes it. -/
  same : st'.entity? kind name = held ↔ Described held
  /-- Then nothing else is touched. -/
  untouched : Described held → ∀ k n, ¬ (k = kind ∧ n = name) → st'.entity? k n = others k n
  /-- In any case nothing but gaps changes elsewhere. -/
  elsewhere : ∀ k n, ¬ (k = kind ∧ n = name) → Option.Rel Alike (others k n) (st'.entity? k n)
  /-- In any case no value of whole seconds is lost. -/
  values : ∀ r s, held = some (.series r s) →
    (∀ t ∈ s.index, t.nanosecond = 0 ∧ t.date.inCalendar = true) →
    ∃ r' s', st'.entity? kind name = some (.series r' s') ∧ s'.valid = s.valid

/-- Only what others hold elsewhere matters. -/
theorem Received.congr {held : Option Entity}
    {others others' : EntityKind → EntityName → Option Entity}
    (h : Received held others st' kind name)
    (hothers : ∀ k n, ¬ (k = kind ∧ n = name) → others k n = others' k n) :
    Received held others' st' kind name where
  same := h.same
  untouched hdesc k n hkn := (h.untouched hdesc k n hkn).trans (hothers k n hkn)
  elsewhere k n hkn := hothers k n hkn ▸ h.elsewhere k n hkn
  values := h.values

theorem Alike.refl (e : Entity) : Alike e e := by
  cases e with
  | series r s => exact .series rfl
  | table t => exact .table t

theorem alike_of_eq {o o' : Option Entity} (h : o' = o) : Option.Rel Alike o o' := by
  subst h
  cases o' with
  | none => exact .none
  | some e => exact .some (.refl e)

/-- Changes of other series change nothing of a series but gaps. -/
theorem History.alike_of_changes (h : History st last) (hchain : Changes names st js st')
    (hname : name ∉ names) :
    Option.Rel Alike (st.entity? .series name) (st'.entity? .series name) := by
  cases hr : st.series.find? name with
  | none => simp [entity?, hchain.find?_series hname, hr]
  | some r =>
    obtain ⟨s, -, hk⟩ := h.tracks name r hr
    obtain ⟨regular, a, hregular, ha, hvalid⟩ := hk.getSeries h.aligned
    obtain ⟨regular', a', hregular', ha', hvalid'⟩ :=
      (hk.of_changes h.aligned hchain hname).getSeries (aligned_of_changes hchain h.aligned)
    obtain rfl := Except.ok.inj (hregular.symm.trans hregular')
    have hr' := (hchain.find?_series hname).trans hr
    rw [entity?_series.mpr ⟨hr, ha⟩, entity?_series.mpr ⟨hr', ha'⟩]
    exact .some (.series (hvalid'.trans hvalid.symm))

/-- Filing a series touches no table. -/
theorem entity?_filed_of_ne {k : EntityKind} (hk : k ≠ .series) (n : EntityName) :
    (st.filed name r regular).entity? k n = st.entity? k n := by
  cases k with
  | series => exact absurd rfl hk
  | cTable | sTable | vTable | eTable | gTable => rfl

/-- A series that its record describes is held under both names after it was filed again. -/
theorem History.entity?_filed (h : History st last) (hr : st.series.find? source = some r)
    (hps : st.points? r.frequency.code source = some ps) (hdesc : r.Describes (r.cut ps))
    (hfree : st.series.find? target = none) (hfiling : Filing (r.cut ps) r regular)
    (k : EntityKind) (n : EntityName) :
    (st.filed target r regular).entity? k n =
      if k = .series ∧ n = target then some (.series r (r.cut ps)) else st.entity? k n := by
  have hread := r.increasing_cut (h.aligned.increasing_points? hps)
  have hregular := hfiling.increasing hread
  obtain ⟨regular', hfiling', hsub, hvalid⟩ := h.filing_of_describes hr hps hdesc
  obtain rfl := Except.ok.inj (hfiling.regular.symm.trans hfiling'.regular)
  have hpoints := h.aligned.points?_filed_copy hps hregular hsub hvalid target
  by_cases hk : k = .series
  · subst hk
    by_cases hn : n = target
    · subst hn
      rw [if_pos ⟨rfl, rfl⟩, entity?_series]
      have hrecord : (st.filed n r regular).series.find? n = some r := by
        rw [find?_series_filed, if_pos rfl]
      refine ⟨hrecord, (h.aligned.filed hfree hread hfiling).getSeries hrecord ?_⟩
      rw [hpoints, if_pos ⟨rfl, rfl⟩]
    · have hrecord : (st.filed target r regular).series.find? n = st.series.find? n := by
        rw [find?_series_filed, if_neg hn]
      have hsame : (st.filed target r regular).getSeries n = st.getSeries n := by
        refine getSeries_congr hrecord fun q _ => ?_
        rw [hpoints, if_neg fun hc => hn hc.2]
      rw [if_neg fun hc => hn hc.2, entity?, entity?, hrecord, hsame]
  · rw [if_neg fun hc => hk hc.1, entity?_filed_of_ne hk]

/-- A series that was read is received under a free name, unless its grid leaves the calendar. -/
theorem History.duplicate_series (h : History st last)
    (hsource : st.entity? .series source = some (.series r s))
    (hfree : st.series.find? target = none) :
    (st.duplicate .series source target = .error .outOfRange ∧ ¬ r.Describes s) ∨
    ∃ st', st.duplicate .series source target = .ok st' ∧
      Received (st.entity? .series source) st.entity? st' .series target := by
  obtain ⟨hr, hs⟩ := entity?_series.mp hsource
  obtain ⟨ps, hps⟩ := h.aligned.points?_of_record hr
  obtain rfl := Except.ok.inj ((h.aligned.getSeries hr hps).symm.trans hs)
  have hread := r.increasing_cut (h.aligned.increasing_points? hps)
  have hduplicate : st.duplicate .series source target = st.joinSeries target (r.cut ps) := by
    show st.getSeries source >>= st.joinSeries target = _
    rw [hs]
    rfl
  rw [hduplicate]
  cases hjoin : st.joinSeries target (r.cut ps) with
  | error fault =>
    refine .inl ⟨?_, fun hdesc => ?_⟩
    · rw [joinSeries_eq_error hfree hread (h.valid_cut hr hps).2 hjoin]
    · obtain ⟨regular, hfiling, -⟩ := h.filing_of_describes hr hps hdesc
      rw [joinSeries_eq_ok.mpr ⟨hfree, r, regular, hfiling, rfl⟩] at hjoin
      cases hjoin
  | ok st' =>
    refine .inr ⟨st', rfl, ?_⟩
    have hchain : Changes [target] st [(target, r.cut ps)] st' :=
      Changes.refl.join (List.mem_singleton.mpr rfl) hread hjoin
    have hkept := keeps_of_join h.aligned hread hjoin
    obtain ⟨-, q, regular, hfiling, rfl⟩ := joinSeries_eq_ok.mp hjoin
    -- The record is made of what was read.
    have hrecord : r.Describes (r.cut ps) → q = r := by
      intro hdesc
      have hdesc' := SeriesRecord.Describes.of_filing hread hfiling
      obtain ⟨f, first, last⟩ := q
      obtain ⟨f', first', last'⟩ := r
      obtain rfl : f = f' := hdesc'.frequency.trans hdesc.frequency.symm
      obtain rfl : first = first' := Option.some.inj (hdesc'.start.symm.trans hdesc.start)
      obtain rfl : last = last' := Option.some.inj (hdesc'.finish.symm.trans hdesc.finish)
      rfl
    rw [hsource]
    constructor
    case same =>
      constructor
      · intro hsame r' s' hheld
        obtain ⟨rfl, rfl⟩ := Entity.series.inj (Option.some.inj hheld)
        obtain ⟨hq, -⟩ := entity?_series.mp hsame
        rw [find?_series_filed, if_pos rfl, Option.some.injEq] at hq
        subst hq
        exact .of_filing hread hfiling
      · intro hdesc
        obtain rfl := hrecord (hdesc r _ rfl)
        rw [h.entity?_filed hr hps (hdesc q _ rfl) hfree hfiling, if_pos ⟨rfl, rfl⟩]
    case untouched =>
      intro hdesc k n hkn
      obtain rfl := hrecord (hdesc r _ rfl)
      rw [h.entity?_filed hr hps (hdesc q _ rfl) hfree hfiling, if_neg hkn]
    case elsewhere =>
      intro k n hkn
      by_cases hk : k = .series
      · subst hk
        exact h.alike_of_changes hchain fun hmem => hkn ⟨rfl, List.mem_singleton.mp hmem⟩
      · exact alike_of_eq (entity?_filed_of_ne hk n)
    case values =>
      intro r' s' hheld hwhole
      obtain ⟨rfl, rfl⟩ := Entity.series.inj (Option.some.inj hheld)
      obtain ⟨regular', a, hregular', ha, hvalid⟩ :=
        hkept.getSeries (h.aligned.filed hfree hread hfiling)
      refine ⟨q, a, entity?_series.mpr ⟨?_, ha⟩, ?_⟩
      · rw [find?_series_filed, if_pos rfl]
      · rw [hvalid, TimeSeries.valid_regularized (TimeSeries.increasing_trimmed hread)
          (fun t ht => (hwhole t (TimeSeries.mem_index_of_mem_trimmed ht)).1)
          (fun t ht => (hwhole t (TimeSeries.mem_index_of_mem_trimmed ht)).2) hregular',
          TimeSeries.valid_trimmed hread]

/-- A table is received as it is. -/
theorem received_table {t : Table} (hinsert : st.insertTable name t = .ok st') :
    Received (some (.table t)) st.entity? st' t.kind name := by
  have hentity := entity?_insertTable hinsert
  constructor
  case same =>
    rw [hentity, if_pos ⟨rfl, rfl⟩]
    refine iff_of_true rfl fun r s hheld => ?_
    cases hheld
  case untouched =>
    intro _ k n hkn
    rw [hentity, if_neg hkn]
  case elsewhere =>
    intro k n hkn
    exact alike_of_eq (by rw [hentity, if_neg hkn])
  case values =>
    intro r s hheld
    cases hheld

/-- An entity is received under a free name, unless it is a series whose grid leaves the calendar. -/
theorem History.duplicate_cases (h : History st last) (hsource : st.contains kind source = true)
    (hfree : st.contains kind target = false) :
    (st.duplicate kind source target = .error .outOfRange ∧
      ¬ Described (st.entity? kind source)) ∨
    ∃ st', st.duplicate kind source target = .ok st' ∧
      Received (st.entity? kind source) st.entity? st' kind target := by
  by_cases hkind : kind = .series
  · subst hkind
    rw [contains, OrderedMap.contains_eq, Option.isSome_eq_false_iff, Option.isNone_iff_eq_none]
      at hfree
    rw [contains, OrderedMap.contains_eq] at hsource
    obtain ⟨r, hr⟩ := Option.isSome_iff_exists.mp hsource
    obtain ⟨ps, hps⟩ := h.aligned.points?_of_record hr
    have hentity := entity?_series.mpr ⟨hr, h.aligned.getSeries hr hps⟩
    rcases h.duplicate_series hentity hfree with ⟨hfault, hnot⟩ | hok
    · exact .inl ⟨hfault, fun hdesc => hnot (hdesc r _ hentity)⟩
    · exact .inr hok
  · rcases duplicate_table_cases hkind st source target with ⟨hnone, -⟩ | ⟨t, rfl, hheld, heq⟩
    · rw [hsource] at hnone
      cases hnone
    · rcases insertTable_cases st target t with ⟨-, st', hok⟩ | ⟨htaken, -⟩
      · rw [heq, hheld]
        exact .inr ⟨st', hok, received_table hok⟩
      · rw [hfree] at htaken
        cases htaken

/-! ## Copying -/

/-- There is something to copy, it is not its own target, and a target is replaced only if asked. -/
structure Copyable (st : Store) (kind : EntityKind) (source target : EntityName)
    (overwrite : Bool) : Prop where
  found : st.contains kind source = true
  distinct : source ≠ target
  free : st.contains kind target = true → overwrite = true

/-- An entity is to be replaced by itself. -/
def ReplacesItself (st : Store) (kind : EntityKind) (source target : EntityName)
    (overwrite : Bool) : Prop :=
  source = target ∧ overwrite = true ∧ st.contains kind source = true

theorem duplicate_missing (h : st.contains kind source = false) :
    st.duplicate kind source target = .error (.missingEntity kind source.text) := by
  by_cases hkind : kind = .series
  · subst hkind
    rw [contains, OrderedMap.contains_eq, Option.isSome_eq_false_iff, Option.isNone_iff_eq_none] at h
    show st.getSeries source >>= st.joinSeries target = _
    rw [getSeries, record, h]
    rfl
  · rcases duplicate_table_cases hkind st source target with ⟨-, heq⟩ | ⟨t, rfl, hheld, -⟩
    · exact heq
    · cases t <;> simp_all [entity?, contains, OrderedMap.contains_eq, Table.kind]

theorem History.duplicate_taken (h : History st last) (hsource : st.contains kind source = true)
    (htaken : st.contains kind target = true) :
    st.duplicate kind source target = .error (.duplicateEntity kind target.text) := by
  by_cases hkind : kind = .series
  · subst hkind
    rw [contains, OrderedMap.contains_eq] at hsource
    obtain ⟨r, hr⟩ := Option.isSome_iff_exists.mp hsource
    obtain ⟨ps, hps⟩ := h.aligned.points?_of_record hr
    show st.getSeries source >>= st.joinSeries target = _
    rw [h.aligned.getSeries hr hps]
    show st.joinSeries target (r.cut ps) = _
    rw [joinSeries, if_pos (show st.series.contains target = true from htaken)]
    rfl
  · rcases duplicate_table_cases hkind st source target with ⟨hnone, -⟩ | ⟨t, rfl, -, heq⟩
    · rw [hsource] at hnone
      cases hnone
    · rcases insertTable_cases st target t with ⟨hfree, -⟩ | ⟨-, hfault⟩
      · rw [htaken] at hfree
        cases hfree
      · rw [heq, hfault]

/-- What is to be replaced by itself is erased and then not found. -/
theorem exec_copy_self (h : st.ReplacesItself kind source target overwrite) :
    ∃ st', st.erase kind target = .ok st' ∧
      exec (copy kind source target overwrite) st =
        (.error (.missingEntity kind source.text), st') := by
  obtain ⟨rfl, rfl, hfound⟩ := h
  rcases erase_cases st kind source with ⟨-, st', herase⟩ | ⟨hnone, -⟩
  · refine ⟨st', herase, ?_⟩
    have hgone : st'.contains kind source = false := by
      rw [contains_erase herase, if_pos ⟨rfl, rfl⟩]
    rw [exec_copy, hfound, herase]
    show exec (Update.make (·.duplicate kind source source)) st' = _
    rw [exec_make, duplicate_missing hgone]
  · rw [hfound] at hnone
    cases hnone

/-- Copies are made, or leave the calendar, just if they can be made. Other copies fail and change
nothing, unless an entity is to be replaced by itself. -/
theorem History.copy_cases (h : History st last) (kind : EntityKind)
    (source target : EntityName) (overwrite : Bool) :
    (st.Copyable kind source target overwrite ∧
      ((exec (copy kind source target overwrite) st).1 = .error .outOfRange ∧
        ¬ Described (st.entity? kind source) ∨
      ∃ st', exec (copy kind source target overwrite) st = (.ok (), st') ∧
        Received (st.entity? kind source) st.entity? st' kind target)) ∨
    (¬ st.Copyable kind source target overwrite ∧ ∃ fault st',
      exec (copy kind source target overwrite) st = (.error fault, st') ∧ fault ≠ .outOfRange ∧
      (st' = st ↔ ¬ st.ReplacesItself kind source target overwrite)) := by
  by_cases hself : st.ReplacesItself kind source target overwrite
  · obtain ⟨st', herase, hexec⟩ := exec_copy_self hself
    refine .inr ⟨fun hc => hc.distinct hself.1, _, st', hexec, nofun, ?_⟩
    refine iff_of_false (fun hsame => ?_) fun hnot => hnot hself
    have hgone := contains_erase herase kind source
    rw [if_pos ⟨rfl, hself.1⟩, hsame, hself.2.2] at hgone
    cases hgone
  rw [exec_copy]
  cases hsource : st.contains kind source with
  | false =>
    refine .inr ⟨fun hc => ?_, _, st, rfl, nofun, iff_of_true rfl hself⟩
    rw [hc.found] at hsource
    cases hsource
  | true =>
  rw [if_pos rfl]
  by_cases hreplace : overwrite = true ∧ st.contains kind target = true
  · -- The target is erased first.
    have hne : source ≠ target := fun heq => hself ⟨heq, hreplace.1, hsource⟩
    rw [hreplace.1, hreplace.2, if_pos (by rfl)]
    rcases erase_cases st kind target with ⟨-, st₁, herase⟩ | ⟨hnone, -⟩
    · have h₁ : History st₁ last := h.erase herase
      rw [herase]
      show _ ∨ _
      simp only [exec_make]
      have hfound : st₁.contains kind source = true := by
        rw [contains_erase herase, if_neg fun hc => hne hc.2, hsource]
      have hfree : st₁.contains kind target = false := by
        rw [contains_erase herase, if_pos ⟨rfl, rfl⟩]
      have hheld : st₁.entity? kind source = st.entity? kind source := by
        rw [entity?_erase herase, if_neg fun hc => hne hc.2]
      refine .inl ⟨⟨hsource, hne, fun _ => rfl⟩, ?_⟩
      rcases h₁.duplicate_cases hfound hfree with ⟨hfault, hnot⟩ | ⟨st', hok, hreceived⟩
      · exact .inl ⟨by rw [hfault], hheld ▸ hnot⟩
      · refine .inr ⟨st', by rw [hok], ?_⟩
        rw [hheld] at hreceived
        refine hreceived.congr fun k n hkn => ?_
        rw [entity?_erase herase, if_neg hkn]
    · rw [hreplace.2] at hnone
      cases hnone
  · rw [if_neg (by simpa using hreplace), exec_make]
    cases htarget : st.contains kind target with
    | true =>
      have hkeep : overwrite = false := by simpa [htarget] using hreplace
      rw [h.duplicate_taken hsource htarget]
      refine .inr ⟨fun hc => ?_, _, st, rfl, nofun, iff_of_true rfl hself⟩
      have hoverwrite := hc.free htarget
      rw [hkeep] at hoverwrite
      cases hoverwrite
    | false =>
      have hne : source ≠ target := by
        rintro rfl
        rw [hsource] at htarget
        cases htarget
      refine .inl ⟨⟨hsource, hne, fun hc => by rw [htarget] at hc; cases hc⟩, ?_⟩
      rcases h.duplicate_cases hsource htarget with ⟨hfault, hnot⟩ | ⟨st', hok, hreceived⟩
      · exact .inl ⟨by rw [hfault], hnot⟩
      · exact .inr ⟨st', by rw [hok], hreceived⟩

/-! ## Giving another name -/

/-- An entity that was received is held by itself once the original is erased. -/
theorem Received.erase {held : Option Entity} {st₂ : Store}
    (h : Received held st.entity? st' kind target) (hne : source ≠ target)
    (herase : st'.erase kind source = .ok st₂) :
    Received held (fun k n => if k = kind ∧ n = source then none else st.entity? k n) st₂ kind
      target := by
  have hentity := entity?_erase herase
  have htarget : st₂.entity? kind target = st'.entity? kind target := by
    rw [hentity, if_neg fun hc => hne hc.2.symm]
  constructor
  case same => rw [htarget, h.same]
  case untouched =>
    intro hdesc k n hkn
    rw [hentity, h.untouched hdesc k n hkn]
  case elsewhere =>
    intro k n hkn
    rw [hentity]
    by_cases hsource : k = kind ∧ n = source
    · rw [if_pos hsource, if_pos hsource]
      exact .none
    · rw [if_neg hsource, if_neg hsource]
      exact h.elsewhere k n hkn
  case values =>
    rw [htarget]
    exact h.values

theorem Received.contains_source {held : Option Entity} (hst : st.Aligned) (hst' : st'.Aligned)
    (h : Received held st.entity? st' kind target) (hne : source ≠ target)
    (hsource : st.contains kind source = true) : st'.contains kind source = true := by
  rw [← hst.isSome_entity?] at hsource
  rw [← hst'.isSome_entity?]
  have hrel := h.elsewhere kind source fun hc => hne hc.2
  obtain ⟨e, he⟩ := Option.isSome_iff_exists.mp hsource
  rw [he] at hrel
  cases hafter : st'.entity? kind source with
  | none =>
    rw [hafter] at hrel
    cases hrel
  | some e' => rfl

/-- A new name is given, or the calendar is left, just if a copy could be made or the name is the old
one. Otherwise nothing changes. -/
theorem History.rename_cases (h : History st last) (kind : EntityKind)
    (source target : EntityName) (overwrite : Bool) :
    ((st.contains kind source = true ∧
        (source = target ∨ (st.contains kind target = true → overwrite = true))) ∧
      ((exec (rename kind source target overwrite) st).1 = .error .outOfRange ∧
        ¬ Described (st.entity? kind source) ∨
      ∃ st', exec (rename kind source target overwrite) st = (.ok (), st') ∧
        if source = target then st' = st else Received (st.entity? kind source)
          (fun k n => if k = kind ∧ n = source then none else st.entity? k n) st' kind target)) ∨
    (¬ (st.contains kind source = true ∧
        (source = target ∨ (st.contains kind target = true → overwrite = true))) ∧
      ∃ fault st', exec (rename kind source target overwrite) st = (.error fault, st') ∧
        fault ≠ .outOfRange ∧ st' = st) := by
  by_cases hne : source = target
  · subst hne
    have hsame := exec_rename_self kind source overwrite st
    cases hsource : st.contains kind source with
    | false =>
      refine .inr ⟨nofun, .missingEntity kind source.text, st, ?_, nofun, rfl⟩
      rw [rename, if_pos rfl, Stateful.exec_get, hsource]
      rfl
    | true =>
      refine .inl ⟨⟨rfl, .inl rfl⟩, .inr ⟨st, ?_, by rw [if_pos rfl]⟩⟩
      rw [rename, if_pos rfl, Stateful.exec_get, hsource]
      rfl
  · rw [exec_rename hne]
    rcases h.copy_cases kind source target overwrite with
      ⟨hc, ⟨hfault, hnot⟩ | ⟨st₁, hok, hreceived⟩⟩ | ⟨hnot, fault, st₁, hfault, hkind, hsame⟩
    · refine .inl ⟨⟨hc.found, .inr hc.free⟩, .inl ⟨?_, hnot⟩⟩
      generalize exec (copy kind source target overwrite) st = run at hfault ⊢
      obtain ⟨result, st₁⟩ := run
      obtain rfl : result = .error .outOfRange := hfault
      rfl
    · -- The original is still there, so it can be erased.
      have h₁ : st₁.Aligned := by
        have hcall := (h.call (.copy kind source target overwrite) trivial).aligned
        rwa [Call.after, Call.update, hok] at hcall
      have hfound := hreceived.contains_source h.aligned h₁ hne hc.found
      rcases erase_cases st₁ kind source with ⟨-, st₂, herase⟩ | ⟨hnone, -⟩
      · refine .inl ⟨⟨hc.found, .inr hc.free⟩, .inr ⟨st₂, ?_, ?_⟩⟩
        · rw [hok]
          show exec (Update.make (·.erase kind source)) st₁ = _
          rw [exec_make, herase]
        · rw [if_neg hne]
          exact hreceived.erase hne herase
      · rw [hfound] at hnone
        cases hnone
    · refine .inr ⟨fun hc => hnot ⟨hc.1, hne, hc.2.resolve_left hne⟩, fault, st₁, by rw [hfault],
        hkind, hsame.mpr fun hself => hne hself.1⟩

/-- What follows for the result and the store of a call that ends in one of three ways. -/
theorem ends_of_cases {possible described : Prop} {made refused : Store → Prop}
    {run : Outcome Unit × Store}
    (h : (possible ∧ (run.1 = .error .outOfRange ∧ ¬ described ∨
        ∃ st', run = (.ok (), st') ∧ made st')) ∨
      (¬ possible ∧ ∃ fault st', run = (.error fault, st') ∧ fault ≠ .outOfRange ∧ refused st')) :
    ((run.1 = .ok () ∨ run.1 = .error .outOfRange) ↔ possible) ∧
    (run.1 = .ok () → made run.2) ∧ (run.1 = .error .outOfRange → ¬ described) ∧
    ∀ fault, run.1 = .error fault → fault ≠ .outOfRange → refused run.2 := by
  obtain ⟨result, st'⟩ := run
  rcases h with ⟨hp, ⟨rfl, hnot⟩ | ⟨st₁, heq, hmade⟩⟩ | ⟨hnot, fault, st₁, heq, hkind, hrefused⟩
  · refine ⟨iff_of_true (.inr rfl) hp, nofun, fun _ => hnot, fun fault hfault hne => ?_⟩
    exact absurd (Except.error.inj hfault).symm hne
  · cases heq
    exact ⟨iff_of_true (.inl rfl) hp, fun _ => hmade, nofun, nofun⟩
  · cases heq
    refine ⟨iff_of_false ?_ hnot, nofun, ?_, fun _ _ _ => hrefused⟩
    · rintro (hok | hout)
      · cases hok
      · exact hkind (Except.error.inj hout)
    · exact fun hout => absurd (Except.error.inj hout) hkind

/-- How copies and new names end, whatever calls were made before.

A copy succeeds, or a grid of it leaves the calendar, just if there is a source, another target, and
leave to replace what has the name of the target. Then the target is held as the source was and
nothing else is touched just if the record of the source describes what is read of it; the calendar
is not left then. A copy that fails changes nothing, unless an entity was to be replaced by itself.

A new name is given as by a copy, after which the old one is gone, and nothing changes if it is the
old one. If it cannot be given nothing changes. -/
theorem copy_and_rename_of_history (h : History st last) (kind : EntityKind)
    (source target : EntityName) (overwrite : Bool) :
    let copy := Call.copy kind source target overwrite
    let rename := Call.rename kind source target overwrite
    let held := st.entity? kind source
    ((copy.result st = .ok () ∨ copy.result st = .error .outOfRange) ↔
      st.Copyable kind source target overwrite) ∧
    (copy.result st = .ok () → Received held st.entity? (copy.after st) kind target) ∧
    (copy.result st = .error .outOfRange → ¬ Described held) ∧
    (∀ fault, copy.result st = .error fault → fault ≠ .outOfRange →
      (copy.after st = st ↔ ¬ st.ReplacesItself kind source target overwrite)) ∧
    ((rename.result st = .ok () ∨ rename.result st = .error .outOfRange) ↔
      st.contains kind source = true ∧
        (source = target ∨ (st.contains kind target = true → overwrite = true))) ∧
    (rename.result st = .ok () → if source = target then rename.after st = st else
      Received held (fun k n => if k = kind ∧ n = source then none else st.entity? k n)
        (rename.after st) kind target) ∧
    (rename.result st = .error .outOfRange → ¬ Described held) ∧
    (∀ fault, rename.result st = .error fault → fault ≠ .outOfRange → rename.after st = st) := by
  obtain ⟨hpossible, hmade, hout, hrefused⟩ :=
    ends_of_cases (h.copy_cases kind source target overwrite)
  exact ⟨hpossible, hmade, hout, hrefused, ends_of_cases (h.rename_cases kind source target overwrite)⟩

/-- The record of the series of midnights describes what is read of it. -/
theorem described_midnights : Described ((midnights.after empty).entity? .series ⟨"STAGE"⟩) := by
  intro r s hheld
  obtain ⟨hr, hs⟩ := entity?_series.mp hheld
  have hrecord : (midnights.after empty).series.find? ⟨"STAGE"⟩ =
    some ⟨.fixed 86400, .ofDate ⟨0⟩ 0, .ofDate ⟨2⟩ 0⟩ := by decide +kernel
  have hread : ((midnights.after empty).getSeries ⟨"STAGE"⟩).toOption.map
      (fun s => (s.trimmed.frequency, s.firstValid?, s.lastValid?)) =
    some (.fixed 86400, some (.ofDate ⟨0⟩ 0), some (.ofDate ⟨2⟩ 0)) := by decide +kernel
  rw [hs] at hread
  obtain ⟨hfrequency, hstart, hfinish⟩ := by simpa [Except.toOption] using hread
  obtain rfl := Option.some.inj (hr.symm.trans hrecord)
  exact ⟨hfrequency.symm, hstart, hfinish⟩

theorem copy_and_rename_of_midnights :
    let st := midnights.after empty
    let copy := Call.copy .series ⟨"STAGE"⟩ ⟨"FLOW"⟩ false
    let self := Call.copy .series ⟨"STAGE"⟩ ⟨"STAGE"⟩ true
    (copy.result st = .ok () ∧
      (copy.after st).entity? .series ⟨"FLOW"⟩ = st.entity? .series ⟨"STAGE"⟩) ∧
    (self.result st = .error (.missingEntity .series "STAGE") ∧ self.after st ≠ st) := by
  intro st copy self
  have hcopy : copy.result st = .ok () := by decide +kernel
  have hself : self.result st = .error (.missingEntity .series "STAGE") := by decide +kernel
  obtain ⟨-, hreceived, -⟩ :=
    copy_and_rename_of_history history_midnights .series ⟨"STAGE"⟩ ⟨"FLOW"⟩ false
  obtain ⟨-, -, -, hrefused, -⟩ :=
    copy_and_rename_of_history history_midnights .series ⟨"STAGE"⟩ ⟨"STAGE"⟩ true
  refine ⟨⟨hcopy, (hreceived hcopy).same.mpr described_midnights⟩, hself, fun hsame => ?_⟩
  exact (hrefused _ hself nofun).mp hsame ⟨rfl, rfl, by decide +kernel⟩

/-- Replacing a series by itself is refused, and the series is gone; giving it its own name is not
refused, and nothing changes. A copy of daily values that are read with gaps at noon is recorded as
half-daily. -/
theorem copies_unlike_the_source :
    let st := midnights.after empty
    let self := Call.copy .series ⟨"STAGE"⟩ ⟨"STAGE"⟩ true
    let rename := Call.rename .series ⟨"STAGE"⟩ ⟨"STAGE"⟩ true
    let both := noons.after st
    let copy := Call.copy .series ⟨"STAGE"⟩ ⟨"LEVEL"⟩ false
    History st (lastJoined (fun _ => none) (midnights.joined empty).toList) ∧
      self.result st = .error (.missingEntity .series "STAGE") ∧
      st.contains .series ⟨"STAGE"⟩ = true ∧ (self.after st).contains .series ⟨"STAGE"⟩ = false ∧
      rename.result st = .ok () ∧ (rename.after st).contains .series ⟨"STAGE"⟩ = true ∧
      copy.result both = .ok () ∧
      both.series.find? ⟨"STAGE"⟩ = some ⟨.fixed 86400, .ofDate ⟨0⟩ 0, .ofDate ⟨2⟩ 0⟩ ∧
      (copy.after both).series.find? ⟨"LEVEL"⟩ =
        some ⟨.fixed 43200, .ofDate ⟨0⟩ 0, .ofDate ⟨2⟩ 0⟩ :=
  ⟨history_midnights, by decide +kernel⟩

end Hydroseries.Store
