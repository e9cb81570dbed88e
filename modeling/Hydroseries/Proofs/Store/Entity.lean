import Hydroseries.Proofs.Store.History

/-!
# What is held under a kind and a name

A store is observed through `entity?`: the table under a name, or the record of a series together
with what is read of it. The single operations are described by what they change of this, at the
name that they are given and at all others.
-/

namespace Hydroseries.Store

/-- A series with what is recorded of it, or a table. -/
inductive Entity where
  | series (r : SeriesRecord) (s : Series)
  | table (t : Table)

/-- The kind under which a table is held. -/
def Table.kind : Table → EntityKind
  | .c _ => .cTable
  | .s _ => .sTable
  | .v _ => .vTable
  | .e _ => .eTable
  | .g _ => .gTable

/-- What is held under a kind and a name. -/
def entity? (st : Store) : EntityKind → EntityName → Option Entity
  | .series, name =>
    (st.series.find? name).bind fun r => (st.getSeries name).toOption.map (Entity.series r)
  | .cTable, name => (st.cTables.find? name).map fun t => .table (.c t)
  | .sTable, name => (st.sTables.find? name).map fun t => .table (.s t)
  | .vTable, name => (st.vTables.find? name).map fun t => .table (.v t)
  | .eTable, name => (st.eTables.find? name).map fun t => .table (.e t)
  | .gTable, name => (st.gTables.find? name).map fun t => .table (.g t)

variable {st st' : Store} {kind : EntityKind} {name : EntityName}
  {last : EntityName → Option Series}

theorem entity?_series {r : SeriesRecord} {s : Series} :
    st.entity? .series name = some (.series r s) ↔
      st.series.find? name = some r ∧ st.getSeries name = .ok s := by
  rw [entity?]
  cases hs : st.getSeries name <;> cases hr : st.series.find? name <;> simp [Except.toOption]

/-- In an aligned store every name in use holds something. -/
theorem Aligned.isSome_entity? (h : st.Aligned) (kind : EntityKind) (name : EntityName) :
    (st.entity? kind name).isSome = st.contains kind name := by
  cases kind with
  | series =>
    rw [contains, OrderedMap.contains_eq]
    cases hr : st.series.find? name with
    | none => rw [entity?, hr]; rfl
    | some r =>
      obtain ⟨ps, hps⟩ := h.points?_of_record hr
      rw [entity?_series.mpr ⟨hr, h.getSeries hr hps⟩]
      rfl
  | cTable | sTable | vTable | eTable | gTable =>
    rw [contains, OrderedMap.contains_eq, entity?, Option.isSome_map]

/-! ## Erasing -/

/-- What is there is erased; what is not there is missing. -/
theorem erase_cases (st : Store) (kind : EntityKind) (name : EntityName) :
    (st.contains kind name = true ∧ ∃ st', st.erase kind name = .ok st') ∨
    (st.contains kind name = false ∧
      st.erase kind name = .error (.missingEntity kind name.text)) := by
  cases kind with
  | series =>
    rw [contains, OrderedMap.contains_eq]
    cases hr : st.series.find? name with
    | none => exact .inr ⟨rfl, by rw [erase, eraseSeries, record, hr]; rfl⟩
    | some r => exact .inl ⟨rfl, _, eraseSeries_eq_ok.mpr ⟨r, hr, rfl⟩⟩
  | cTable | sTable | vTable | eTable | gTable =>
    simp only [contains, erase, eraseNamed]
    split
    next hfound => exact .inl ⟨hfound, _, rfl⟩
    next hfree => exact .inr ⟨Bool.eq_false_iff.mpr hfree, rfl⟩

/-- Erasing takes away what is held under the name, and nothing else. -/
theorem entity?_erase (h : st.erase kind name = .ok st') (k : EntityKind) (n : EntityName) :
    st'.entity? k n = if k = kind ∧ n = name then none else st.entity? k n := by
  cases kind with
  | series =>
    obtain ⟨r, -, rfl⟩ := eraseSeries_eq_ok.mp h
    cases k with
    | series =>
      by_cases hn : n = name
      · simp [entity?, find?_series_unfiled, hn]
      · simp only [entity?, find?_series_unfiled, getSeries_unfiled r hn, hn, and_false, if_false]
    | cTable | sTable | vTable | eTable | gTable => simp [entity?, unfiled]
  | cTable | sTable | vTable | eTable | gTable =>
    obtain ⟨m, hm, hst⟩ := bind_eq_ok.mp h
    rw [eraseNamed] at hm
    split at hm
    · rw [← Except.ok.inj hst, ← Except.ok.inj hm]
      cases k <;> by_cases hn : n = name <;> simp [entity?, OrderedMap.find?_erase, hn] <;> rfl
    · cases hm

/-- Erasing frees the name, and no other. -/
theorem contains_erase (h : st.erase kind name = .ok st') (k : EntityKind) (n : EntityName) :
    st'.contains k n = if k = kind ∧ n = name then false else st.contains k n := by
  cases kind with
  | series =>
    obtain ⟨r, -, rfl⟩ := eraseSeries_eq_ok.mp h
    cases k with
    | series =>
      by_cases hn : n = name <;> simp [contains, OrderedMap.contains_eq, find?_series_unfiled, hn]
    | cTable | sTable | vTable | eTable | gTable => simp [contains, unfiled]
  | cTable | sTable | vTable | eTable | gTable =>
    obtain ⟨m, hm, hst⟩ := bind_eq_ok.mp h
    rw [eraseNamed] at hm
    split at hm
    · rw [← Except.ok.inj hst, ← Except.ok.inj hm]
      cases k <;> by_cases hn : n = name <;>
        simp [contains, OrderedMap.contains_eq, OrderedMap.find?_erase, hn]
    · cases hm

/-- Erasing is a call of the history that joins nothing. -/
theorem History.erase (h : History st last) (herase : st.erase kind name = .ok st') :
    History st' last := by
  have hafter : (Call.erase kind name).after st = st' := by
    rw [Call.after, Call.update, exec_make, herase]
  have hcall := h.call (.erase kind name) trivial
  rwa [Call.joined_eq_none rfl, hafter] at hcall

/-- Joining takes the name, which was free, and no other. -/
theorem contains_joinSeries {s : Series} (h : st.joinSeries name s = .ok st') :
    st.contains .series name = false ∧
      ∀ n, st'.contains .series n = (decide (n = name) || st.contains .series n) := by
  obtain ⟨hfree, r, regular, -, rfl⟩ := joinSeries_eq_ok.mp h
  constructor
  · rw [contains, OrderedMap.contains_eq, hfree]
    rfl
  · intro n
    by_cases hn : n = name <;> simp [contains, OrderedMap.contains_eq, find?_series_filed, hn]

/-! ## Tables -/

/-- A table is added under a free name only. -/
theorem insertTable_cases (st : Store) (name : EntityName) (t : Table) :
    (st.contains t.kind name = false ∧ ∃ st', st.insertTable name t = .ok st') ∨
    (st.contains t.kind name = true ∧
      st.insertTable name t = .error (.duplicateEntity t.kind name.text)) := by
  cases t with
  | c t | s t | v t | e t | g t =>
    simp only [Table.kind, contains, insertTable, insertNew]
    split
    next hfound => exact .inr ⟨hfound, rfl⟩
    next hfree => exact .inl ⟨Bool.eq_false_iff.mpr hfree, _, rfl⟩

/-- Adding a table changes what is held under its name, and nothing else. -/
theorem entity?_insertTable {t : Table} (h : st.insertTable name t = .ok st') (k : EntityKind)
    (n : EntityName) :
    st'.entity? k n = if k = t.kind ∧ n = name then some (.table t) else st.entity? k n := by
  cases t with
  | c t | s t | v t | e t | g t =>
    obtain ⟨m, hm, hst⟩ := bind_eq_ok.mp h
    rw [insertNew] at hm
    split at hm
    · cases hm
    · rw [← Except.ok.inj hst, ← Except.ok.inj hm]
      cases k <;> by_cases hn : n = name <;>
        simp [entity?, Table.kind, OrderedMap.find?_insert, hn] <;> rfl

/-- A table is added again as it is found. -/
theorem duplicate_table_cases (hkind : kind ≠ .series) (st : Store) (source target : EntityName) :
    (st.contains kind source = false ∧
      st.duplicate kind source target = .error (.missingEntity kind source.text)) ∨
    ∃ t : Table, t.kind = kind ∧ st.entity? kind source = some (.table t) ∧
      st.duplicate kind source target = st.insertTable target t := by
  cases kind with
  | series => exact absurd rfl hkind
  | cTable | sTable | vTable | eTable | gTable =>
    simp only [contains, duplicate, lookup, entity?, OrderedMap.contains_eq]
    split
    next t hfind =>
      rw [hfind]
      exact .inr ⟨_, by rfl, rfl, rfl⟩
    next hfind =>
      rw [hfind]
      exact .inl ⟨rfl, rfl⟩

end Hydroseries.Store
