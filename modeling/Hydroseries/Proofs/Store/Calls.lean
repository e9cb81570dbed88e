import Hydroseries.Proofs.Stateful
import Hydroseries.Proofs.Store.Series

/-!
# Calls of the store, as chains of single changes

A call is one of the operations through which a store is changed from outside. Whether it succeeds
or stops halfway, what it does to the series is a chain of single changes, each of which erases one
series or joins one (`changes_of_call`). Everything that holds of all stores is proved along such
chains.
-/

namespace Hydroseries.Store

open Stateful (exec exec_get exec_bind)

variable {st st' : Store}

/-! ## Running an update -/

/-- A single change is made wholly or not at all. -/
theorem exec_make (change : Store → Outcome Store) (st : Store) :
    exec (Update.make change) st = match change st with
      | .ok st' => (.ok (), st')
      | .error fault => (.error fault, st) := by
  show exec (match change st with | .ok st' => set st' | .error fault => throw fault) st = _
  cases change st <;> rfl

/-- A copy erases what has the new name if asked to, and then adds what it finds. -/
theorem exec_copy (kind : EntityKind) (source target : EntityName) (overwrite : Bool) (st : Store) :
    exec (copy kind source target overwrite) st =
      if st.contains kind source then
        if overwrite && st.contains kind target then
          match st.erase kind target with
          | .ok st' => exec (Update.make (·.duplicate kind source target)) st'
          | .error fault => (.error fault, st)
        else exec (Update.make (·.duplicate kind source target)) st
      else (.error (.missingEntity kind source.text), st) := by
  unfold copy
  rw [exec_get]
  cases st.contains kind source with
  | false => rfl
  | true =>
    cases overwrite && st.contains kind target with
    | false => rfl
    | true =>
      show exec (Update.make (·.erase kind target) >>= fun _ => _) st = _
      rw [exec_bind, exec_make]
      cases st.erase kind target <;> rfl

/-- Another name is given by a copy, after which the old name is erased. -/
theorem exec_rename {source target : EntityName} (hne : source ≠ target) (kind : EntityKind)
    (overwrite : Bool) (st : Store) :
    exec (rename kind source target overwrite) st =
      match exec (copy kind source target overwrite) st with
      | (.ok _, st') => exec (Update.make (·.erase kind source)) st'
      | (.error fault, st') => (.error fault, st') := by
  unfold rename
  rw [if_neg hne, exec_bind]
  obtain ⟨_ | _, _⟩ := exec (copy kind source target overwrite) st <;> rfl

/-- Giving an entity the name that it has changes nothing. -/
theorem exec_rename_self (kind : EntityKind) (name : EntityName) (overwrite : Bool) (st : Store) :
    (exec (rename kind name name overwrite) st).2 = st := by
  unfold rename
  rw [if_pos rfl, exec_get]
  cases st.contains kind name <;> rfl

/-! ## Calls -/

/-- The operations that change a store, with their arguments. -/
inductive Call where
  | join (name : EntityName) (s : Series)
  | insert (name : EntityName) (t : Table)
  | erase (kind : EntityKind) (name : EntityName)
  | copy (kind : EntityKind) (source target : EntityName) (overwrite : Bool)
  | rename (kind : EntityKind) (source target : EntityName) (overwrite : Bool)

namespace Call

/-- The operation that a call runs. -/
def update : Call → Update Unit
  | join name s => Update.make (·.joinSeries name s)
  | insert name t => Update.make (·.insertTable name t)
  | erase kind name => Update.make (·.erase kind name)
  | copy kind source target overwrite => Store.copy kind source target overwrite
  | rename kind source target overwrite => Store.rename kind source target overwrite

/-- Whether a call succeeds. -/
def result (c : Call) (st : Store) : Outcome Unit := (exec c.update st).1

/-- The store after a call, which may have failed. -/
def after (c : Call) (st : Store) : Store := (exec c.update st).2

/-- Only series whose times increase can be made, so only they are joined. -/
def WellFormed : Call → Prop
  | join _ s => Increasing s.index
  | _ => True

/-- The names of series that a call is about. -/
def names : Call → List EntityName
  | join name _ => [name]
  | erase .series name => [name]
  | copy .series source target _ => [source, target]
  | rename .series source target _ => [source, target]
  | _ => []

/-- The series that a call joins if it succeeds, and the name that it gets. -/
def joins : Call → Store → Option (EntityName × Series)
  | join name s, _ => some (name, s)
  | copy .series source target _, st => (st.getSeries source).toOption.map (target, ·)
  | rename .series source target _, st =>
    if source = target then none else (st.getSeries source).toOption.map (target, ·)
  | _, _ => none

/-- The series that a call joined, none if it failed. -/
def joined (c : Call) (st : Store) : Option (EntityName × Series) :=
  match c.result st with
  | .ok () => c.joins st
  | .error _ => none

end Call

/-! ## Chains of changes -/

/-- The series of two stores are the same. -/
structure SameSeries (st st' : Store) : Prop where
  frames : st'.frames = st.frames
  series : st'.series = st.series

/-- One store comes from another by changes of single series with the given names; the series that
are joined on the way are listed. -/
inductive Changes (names : List EntityName) (st : Store) :
    List (EntityName × Series) → Store → Prop
  | refl : Changes names st [] st
  | tables {js} {st₁ st₂ : Store} : Changes names st js st₁ → SameSeries st₁ st₂ →
      Changes names st js st₂
  | erase {js} {st₁ st₂ : Store} {name} : Changes names st js st₁ → name ∈ names →
      st₁.eraseSeries name = .ok st₂ → Changes names st js st₂
  | join {js} {st₁ st₂ : Store} {name s} : Changes names st js st₁ → name ∈ names →
      Increasing s.index → st₁.joinSeries name s = .ok st₂ →
      Changes names st (js ++ [(name, s)]) st₂

theorem Changes.mono {names names' : List EntityName} {js : List (EntityName × Series)}
    (h : Changes names st js st') (hsub : names ⊆ names') : Changes names' st js st' := by
  induction h with
  | refl => exact .refl
  | tables _ hsame ih => exact ih.tables hsame
  | erase _ hmem herase ih => exact ih.erase (hsub hmem) herase
  | join _ hmem hs hjoin ih => exact ih.join (hsub hmem) hs hjoin

/-- Records of other names stay as they are. -/
theorem Changes.find?_series {names : List EntityName} {js : List (EntityName × Series)}
    (h : Changes names st js st') {name : EntityName} (hname : name ∉ names) :
    st'.series.find? name = st.series.find? name := by
  induction h with
  | refl => rfl
  | tables _ hsame ih => rw [hsame.series, ih]
  | erase _ hmem herase ih =>
    obtain ⟨r, -, rfl⟩ := eraseSeries_eq_ok.mp herase
    rw [find?_series_unfiled, if_neg (ne_of_mem_of_not_mem hmem hname).symm, ih]
  | join _ hmem _ hjoin ih =>
    obtain ⟨-, r, regular, -, rfl⟩ := joinSeries_eq_ok.mp hjoin
    rw [find?_series_filed, if_neg (ne_of_mem_of_not_mem hmem hname).symm, ih]

/-! ## Calls are chains -/

theorem sameSeries_insertTable {name : EntityName} {t : Table}
    (h : st.insertTable name t = .ok st') : SameSeries st st' := by
  cases t with
  | c t | s t | v t | e t | g t =>
    obtain ⟨m, -, hm⟩ := bind_eq_ok.mp h
    rw [← Except.ok.inj hm]
    exact ⟨rfl, rfl⟩

/-- Erasing a table leaves all series. -/
theorem sameSeries_erase {kind : EntityKind} {name : EntityName} (hkind : kind ≠ .series)
    (h : st.erase kind name = .ok st') : SameSeries st st' := by
  cases kind with
  | series => exact absurd rfl hkind
  | cTable | sTable | vTable | eTable | gTable =>
    obtain ⟨m, -, hm⟩ := bind_eq_ok.mp h
    rw [← Except.ok.inj hm]
    exact ⟨rfl, rfl⟩

/-- Adding a table again leaves all series. -/
theorem sameSeries_duplicate {kind : EntityKind} {source target : EntityName}
    (hkind : kind ≠ .series) (h : st.duplicate kind source target = .ok st') :
    SameSeries st st' := by
  cases kind with
  | series => exact absurd rfl hkind
  | cTable | sTable | vTable | eTable | gTable =>
    obtain ⟨t, -, ht⟩ := bind_eq_ok.mp h
    exact sameSeries_insertTable ht

theorem Changes.make {names : List EntityName} {js : List (EntityName × Series)} {st₁ : Store}
    (h : Changes names st js st₁) {change : Store → Outcome Store}
    (hchange : ∀ st₂, change st₁ = .ok st₂ → SameSeries st₁ st₂) :
    Changes names st js (exec (Update.make change) st₁).2 := by
  rw [exec_make]
  cases hst : change st₁ with
  | ok st₂ => exact h.tables (hchange st₂ hst)
  | error fault => exact h

/-- Copying a table leaves all series. -/
theorem changes_copy_table {kind : EntityKind} (hkind : kind ≠ .series)
    (source target : EntityName) (overwrite : Bool) (st : Store) :
    Changes [] st [] (exec (copy kind source target overwrite) st).2 := by
  rw [exec_copy]
  split
  · split
    · cases herase : st.erase kind target with
      | ok st₁ =>
        exact (Changes.refl.tables (sameSeries_erase hkind herase)).make
          fun _ => sameSeries_duplicate hkind
      | error fault => exact .refl
    · exact Changes.refl.make fun _ => sameSeries_duplicate hkind
  · exact .refl

/-- A copy of a series joins what is read of it, or fails after at most an erasure. -/
theorem changes_copy_series (source target : EntityName) (overwrite : Bool) (st : Store) :
    (∃ fault st', exec (copy .series source target overwrite) st = (.error fault, st') ∧
      Changes [target] st [] st') ∨
    ∃ s st', exec (copy .series source target overwrite) st = (.ok (), st') ∧
      st.getSeries source = .ok s ∧ Changes [target] st [(target, s)] st' := by
  -- What happens once the target is free, or was never looked at.
  have hduplicate : ∀ st₁, Changes [target] st [] st₁ →
      (∀ s, st₁.getSeries source = .ok s → st.getSeries source = .ok s) →
      (∃ fault st', exec (Update.make (·.duplicate .series source target)) st₁ =
        (.error fault, st') ∧ Changes [target] st [] st') ∨
      ∃ s st', exec (Update.make (·.duplicate .series source target)) st₁ = (.ok (), st') ∧
        st.getSeries source = .ok s ∧ Changes [target] st [(target, s)] st' := by
    intro st₁ h hread
    rw [exec_make]
    cases hdup : st₁.duplicate .series source target with
    | error fault => exact .inl ⟨fault, st₁, rfl, h⟩
    | ok st₂ =>
      obtain ⟨s, hs, hjoin⟩ := bind_eq_ok.mp hdup
      exact .inr ⟨s, st₂, rfl, hread s hs,
        h.join (List.mem_singleton.mpr rfl) (increasing_getSeries hs) hjoin⟩
  rw [exec_copy]
  split
  · split
    · cases herase : st.erase .series target with
      | error fault => exact .inl ⟨fault, st, rfl, .refl⟩
      | ok st₁ =>
        refine hduplicate st₁ (Changes.refl.erase (List.mem_singleton.mpr rfl) herase) ?_
        intro s hs
        obtain ⟨r, hr, rfl⟩ := eraseSeries_eq_ok.mp herase
        by_cases hne : source = target
        · -- The source itself was erased, so nothing is read.
          subst hne
          rw [getSeries, record, find?_series_unfiled, if_pos rfl] at hs
          cases hs
        · rwa [getSeries_unfiled r hne] at hs
    · exact hduplicate st .refl fun _ => id
  · exact .inl ⟨_, st, rfl, .refl⟩

/-- Renaming a table leaves all series. -/
theorem changes_rename_table {kind : EntityKind} (hkind : kind ≠ .series)
    {source target : EntityName} (hne : source ≠ target) (overwrite : Bool) (st : Store) :
    Changes [] st [] (exec (rename kind source target overwrite) st).2 := by
  have hcopy := changes_copy_table hkind source target overwrite st
  rw [exec_rename hne]
  match hexec : exec (copy kind source target overwrite) st with
  | (.ok (), st₁) =>
    rw [hexec] at hcopy
    exact hcopy.make fun _ => sameSeries_erase hkind
  | (.error fault, st₁) =>
    rw [hexec] at hcopy
    exact hcopy

/-- Renaming a series is copying it and erasing the original, which cannot fail any more. -/
theorem changes_rename_series {source target : EntityName} (hne : source ≠ target)
    (overwrite : Bool) (st : Store) :
    (∃ fault st', exec (rename .series source target overwrite) st = (.error fault, st') ∧
      Changes [source, target] st [] st') ∨
    ∃ s st', exec (rename .series source target overwrite) st = (.ok (), st') ∧
      st.getSeries source = .ok s ∧ Changes [source, target] st [(target, s)] st' := by
  have hsub : [target] ⊆ [source, target] := List.subset_cons_self _ _
  rw [exec_rename hne]
  rcases changes_copy_series source target overwrite st with
    ⟨fault, st₁, hexec, h⟩ | ⟨s, st₁, hexec, hread, h⟩
  · rw [hexec]
    exact .inl ⟨fault, st₁, rfl, h.mono hsub⟩
  · rw [hexec]
    -- The copy has not touched the record of the source.
    obtain ⟨r, hr, -⟩ := bind_eq_ok.mp hread
    have hr₁ := h.find?_series fun hmem => hne (List.mem_singleton.mp hmem)
    rw [record_eq_ok.mp hr] at hr₁
    have herase : st₁.eraseSeries source = .ok (st₁.unfiled source r) :=
      eraseSeries_eq_ok.mpr ⟨r, hr₁, rfl⟩
    refine .inr ⟨s, st₁.unfiled source r, ?_, hread, (h.mono hsub).erase List.mem_cons_self herase⟩
    show exec (Update.make (·.erase .series source)) st₁ = _
    rw [exec_make, show st₁.erase .series source = .ok (st₁.unfiled source r) from herase]

theorem Call.joined_eq_none {c : Call} (h : c.joins st = none) : c.joined st = none := by
  unfold Call.joined
  cases c.result st with
  | ok => exact h
  | error => rfl

/-- Every call, whether it fails or not, is a chain of changes to the series that it names. -/
theorem changes_of_call {c : Call} (hc : c.WellFormed) (st : Store) :
    Changes c.names st (c.joined st).toList (c.after st) := by
  cases c with
  | join name s =>
    unfold Call.joined Call.result Call.after Call.update
    rw [exec_make]
    cases hjoin : st.joinSeries name s with
    | ok st' => exact Changes.refl.join (List.mem_singleton.mpr rfl) hc hjoin
    | error fault => exact .refl
  | insert name t =>
    rw [Call.joined_eq_none rfl]
    exact Changes.refl.make fun _ => sameSeries_insertTable
  | erase kind name =>
    rw [Call.joined_eq_none rfl]
    by_cases hkind : kind = .series
    · subst hkind
      unfold Call.after Call.update
      rw [exec_make]
      cases herase : st.erase .series name with
      | ok st' => exact Changes.refl.erase (List.mem_singleton.mpr rfl) herase
      | error fault => exact .refl
    · exact (Changes.refl.make fun _ => sameSeries_erase hkind).mono (List.nil_subset _)
  | copy kind source target overwrite =>
    by_cases hkind : kind = .series
    · subst hkind
      have hsub : [target] ⊆ [source, target] := List.subset_cons_self _ _
      unfold Call.joined Call.result Call.after Call.update
      rcases changes_copy_series source target overwrite st with
        ⟨fault, st', hexec, h⟩ | ⟨s, st', hexec, hread, h⟩
      · rw [hexec]
        exact h.mono hsub
      · simp only [hexec, Call.joins, hread]
        exact h.mono hsub
    · rw [Call.joined_eq_none (by cases kind <;> first | rfl | exact absurd rfl hkind)]
      exact (changes_copy_table hkind source target overwrite st).mono (List.nil_subset _)
  | rename kind source target overwrite =>
    by_cases hne : source = target
    · subst hne
      rw [Call.joined_eq_none (by cases kind <;> simp [Call.joins]), Call.after, Call.update,
        exec_rename_self]
      exact .refl
    by_cases hkind : kind = .series
    · subst hkind
      unfold Call.joined Call.result Call.after Call.update
      rcases changes_rename_series hne overwrite st with
        ⟨fault, st', hexec, h⟩ | ⟨s, st', hexec, hread, h⟩
      · rw [hexec]
        exact h
      · simp only [hexec, Call.joins, hread, if_neg hne]
        exact h
    · rw [Call.joined_eq_none (by cases kind <;> first | rfl | exact absurd rfl hkind)]
      exact (changes_rename_table hkind hne overwrite st).mono (List.nil_subset _)

end Hydroseries.Store
