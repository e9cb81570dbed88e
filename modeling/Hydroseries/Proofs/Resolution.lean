import Hydroseries.Proofs.Params
import Hydroseries.Proofs.Run.Planning
import Mathlib.Data.List.Nodup

/-!
# Keywords against their declarations

Which keywords a command declares and which value a keyword has are said here by the descriptor and
the entries of a block alone. The check of a block refuses what is not declared and otherwise leaves
exactly these values (`resolve_of_entries`).
-/

namespace Hydroseries

open Control (Invocation Value)

namespace Catalog

variable {d : Descriptor} {k : String}

/-- A number behind a fixed beginning. -/
def IsNumbered (start k : String) : Prop :=
  ∃ number : List Char, k.toList = start.toList ++ number ∧ number ≠ [] ∧
    ∀ c ∈ number, '0' ≤ c ∧ c ≤ '9'

/-- The keyword is needed, may be given, or is a fixed beginning with a number. -/
def Declares (d : Descriptor) (k : String) : Prop :=
  k ∈ d.required ∨ (∃ o ∈ d.optional, o.name = k) ∨ ∃ start ∈ d.patterns, IsNumbered start k

theorem matchesPattern_eq_true :
    d.matchesPattern k = true ↔ ∃ start ∈ d.patterns, IsNumbered start k := by
  simp only [Descriptor.matchesPattern, List.any_eq_true, Bool.and_eq_true, Bool.not_eq_true',
    List.isEmpty_eq_false_iff, List.all_eq_true, decide_eq_true_eq, List.isPrefixOf_iff_prefix]
  refine exists_congr fun start => and_congr_right fun _ => ?_
  constructor
  · rintro ⟨⟨⟨number, hk⟩, hne⟩, hdigits⟩
    rw [← hk, ← String.length_toList, List.drop_left] at hne hdigits
    exact ⟨number, hk.symm, hne, hdigits⟩
  · rintro ⟨number, hk, hne, hdigits⟩
    rw [hk, ← String.length_toList, List.drop_left]
    exact ⟨⟨List.prefix_append _ _, hne⟩, hdigits⟩

theorem accepts_eq_true : d.accepts k = true ↔ Declares d k := by
  rw [Descriptor.accepts, Bool.or_eq_true, Bool.or_eq_true, matchesPattern_eq_true, or_assoc]
  simp [Declares, Descriptor.requires, Descriptor.optional?]

instance (d : Descriptor) (k : String) : Decidable (Declares d k) :=
  decidable_of_iff _ accepts_eq_true

theorem optional_distinct :
    (commands.all fun d => decide (d.optional.map OptionalKeyword.name).Nodup) = true := by
  decide +kernel

/-- A command has one preset at most for a keyword. -/
theorem preset_unique (hd : d ∈ commands) {o o' : OptionalKeyword} (ho : o ∈ d.optional)
    (ho' : o' ∈ d.optional) (hname : o.name = o'.name) : o = o' := by
  have hnodup := List.all_eq_true.mp optional_distinct d hd
  rw [decide_eq_true_eq] at hnodup
  exact List.inj_on_of_nodup_map hnodup ho ho' hname

end Catalog

namespace Params

variable {d : Catalog.Descriptor} {i : Invocation} {k : String} {v : Value}

/-- The needed keywords that no line of the block gives, in the order of the descriptor. -/
def absent (d : Catalog.Descriptor) (i : Invocation) : List String :=
  d.required.filter fun k => decide (k ≠ "context" ∧ k ∉ i.entries.map Prod.fst)

/-- The keywords that lines of the block give and the command does not declare, each one at its first
line. -/
def foreign (d : Catalog.Descriptor) (i : Invocation) : List String :=
  (i.entries.map Prod.fst).eraseDups.filter fun k => decide (¬ Catalog.Declares d k)

/-- What a keyword is worth to a command: the value of its first line, or the preset if no line gives
it; a blank value is worth nothing. -/
inductive Worth (d : Catalog.Descriptor) (i : Invocation) (k : String) (v : Value) : Prop
  | given {before after : List (String × Value)} : i.entries = before ++ (k, v) :: after →
      k ∉ before.map Prod.fst → v.isBlank = false → Worth d i k v
  | preset {o : Catalog.OptionalKeyword} : k ∉ i.entries.map Prod.fst → o ∈ d.optional →
      o.name = k → o.preset = some v → v.isBlank = false → Worth d i k v

theorem missing_eq_absent (d : Catalog.Descriptor) (i : Invocation) :
    missing d i.keywords = absent d i := by
  refine List.filter_congr fun k _ => ?_
  rw [Invocation.keywords, Bool.eq_iff_iff]
  simp [List.contains_eq_mem, List.mem_eraseDups]

theorem unexpected_eq_foreign (d : Catalog.Descriptor) (i : Invocation) :
    unexpected d i.keywords = foreign d i := by
  refine List.filter_congr fun k _ => ?_
  rw [Bool.eq_iff_iff, decide_eq_true_eq, ← Catalog.accepts_eq_true, Bool.not_eq_true',
    Bool.not_eq_true]

theorem find?_eq_some_iff : i.find? k = some v ↔
    ∃ before after, i.entries = before ++ (k, v) :: after ∧ k ∉ before.map Prod.fst := by
  rw [Invocation.find?, List.lookup_eq_some_iff]
  refine exists_congr fun before => exists_congr fun after => and_congr_right fun _ => ?_
  simp only [bne_iff_ne, List.mem_map, not_exists, not_and]
  exact forall_congr' fun e => imp_congr_right fun _ => ne_comm

theorem find?_eq_none_iff : i.find? k = none ↔ k ∉ i.entries.map Prod.fst := by
  rw [Invocation.find?, List.lookup_eq_none_iff]
  simp only [bne_iff_ne, List.mem_map, not_exists, not_and]
  exact forall_congr' fun e => imp_congr_right fun _ => ne_comm

theorem mem_presets : (k, v) ∈ presets d ↔ ∃ o ∈ d.optional, o.name = k ∧ o.preset = some v := by
  simp only [presets, List.mem_filterMap, Option.map_eq_some_iff, Prod.mk.injEq]
  refine exists_congr fun o => and_congr_right fun _ => ?_
  constructor
  · rintro ⟨v', hv, hk, rfl⟩
    exact ⟨hk, hv⟩
  · rintro ⟨hk, hv⟩
    exact ⟨v, hv, hk, rfl⟩

/-- A command has one preset value at most for a keyword. -/
theorem eq_of_mem_presets (hd : d ∈ Catalog.commands) (hv : (k, v) ∈ presets d) :
    ∀ e ∈ presets d, e.1 = k → e.2 = v := by
  rintro ⟨k, w⟩ hw rfl
  obtain ⟨o, ho, hname, hv⟩ := mem_presets.mp hv
  obtain ⟨o', ho', hname', hw⟩ := mem_presets.mp hw
  obtain rfl := Catalog.preset_unique hd ho ho' (hname.trans hname'.symm)
  exact Option.some.inj (hw.symm.trans hv)

/-- Among the presets of a command, a keyword is bound to its own preset. -/
theorem find?_presets (hd : d ∈ Catalog.commands) :
    (OrderedMap.ofList (presets d)).find? k = some v ↔
      ∃ o ∈ d.optional, o.name = k ∧ o.preset = some v := by
  rw [← mem_presets, OrderedMap.ofList]
  by_cases hk : k ∈ (presets d).map Prod.fst
  · obtain ⟨⟨k, w⟩, hw, rfl⟩ := List.mem_map.mp hk
    rw [OrderedMap.find?_foldl_insert (eq_of_mem_presets hd hw), if_pos hk]
    constructor
    · intro h
      exact Option.some.inj h ▸ hw
    · intro hv
      exact congrArg some (eq_of_mem_presets hd hv _ hw rfl)
  · have hnever : ∀ e ∈ presets d, e.1 = k → e.2 = v := fun e he hkey =>
      absurd (List.mem_map.mpr ⟨e, he, hkey⟩) hk
    rw [OrderedMap.find?_foldl_insert hnever, if_neg hk]
    constructor
    · intro h
      cases h
    · intro hv
      exact absurd (List.mem_map.mpr ⟨_, hv, rfl⟩) hk

/-- Checked keywords are bound to what they are worth. -/
theorem find?_eq_some_iff_worth {p : Params} (hd : d ∈ Catalog.commands)
    (h : resolve d i = .ok p) (hcontext : k ≠ "context") :
    p.find? k = some v ↔ Worth d i k v := by
  rw [find?_of_resolve_or_preset hd h hcontext, Option.filter_eq_some_iff, Bool.not_eq_true',
    Option.or_eq_some_iff, find?_presets hd, find?_eq_some_iff, find?_eq_none_iff]
  constructor
  · rintro ⟨⟨before, after, hentries, hbefore⟩ | ⟨hnot, o, ho, hname, hv⟩, hblank⟩
    · exact .given hentries hbefore hblank
    · exact .preset hnot ho hname hv hblank
  · intro hworth
    cases hworth with
    | given hentries hbefore hblank => exact ⟨.inl ⟨_, _, hentries, hbefore⟩, hblank⟩
    | preset hnot ho hname hv hblank => exact ⟨.inr ⟨hnot, _, ho, hname, hv⟩, hblank⟩

/-- A block with absent keywords is refused for them, one with foreign keywords for these, and in any
other block each keyword but the context is bound to what it is worth. -/
theorem resolve_of_entries (hd : d ∈ Catalog.commands) (i : Invocation) :
    (absent d i ≠ [] → resolve d i =
      .error (.missingKeywords d.name i.startLine ((absent d i).map Text.upper))) ∧
    (absent d i = [] → foreign d i ≠ [] → resolve d i =
      .error (.unexpectedKeywords d.name i.startLine ((foreign d i).map Text.upper))) ∧
    (absent d i = [] → foreign d i = [] → ∃ p, resolve d i = .ok p ∧
      p.command = d.name ∧ p.line = i.startLine ∧
      ∀ k, k ≠ "context" → ∀ v, p.find? k = some v ↔ Worth d i k v) := by
  rw [← missing_eq_absent, ← unexpected_eq_foreign]
  rcases Run.resolve_cases d i with ⟨hmissing, h⟩ | ⟨hnone, hextra, h⟩ | ⟨hnone, hno, values, h⟩
  · exact ⟨fun _ => h, fun hnone => absurd hnone hmissing, fun hnone => absurd hnone hmissing⟩
  · exact ⟨fun hmissing => absurd hnone hmissing, fun _ _ => h, fun _ hno => absurd hno hextra⟩
  · exact ⟨fun hmissing => absurd hnone hmissing, fun _ hextra => absurd hno hextra,
      fun _ _ => ⟨_, h, rfl, rfl, fun k hk v => find?_eq_some_iff_worth hd h hk⟩⟩

/-- A block of statistics by period with two lines for the statistic and a blank one for the
logarithm. -/
def yearlyTotals : Invocation where
  command := "PERIOD_STATISTICS"
  startLine := 3
  entries := [("context", .scalar "all"), ("series_name", .scalar "flow"),
    ("new_series_name", .scalar "total"), ("statistic", .scalar "sum"), ("period", .scalar "year"),
    ("statistic", .scalar "mean"), ("time_abscissa", .scalar "start"), ("log", .scalar "")]

theorem resolve_of_yearlyTotals : Catalog.periodStatistics ∈ Catalog.commands ∧
    ∃ p, resolve Catalog.periodStatistics yearlyTotals = .ok p ∧
      p.find? "statistic" = some (.scalar "sum") ∧ p.find? "power" = some (.scalar "1") ∧
      p.find? "log" = none := by
  have hd : Catalog.periodStatistics ∈ Catalog.commands := by decide +kernel
  obtain ⟨-, -, hok⟩ := resolve_of_entries hd yearlyTotals
  obtain ⟨p, hp, -, -, hworth⟩ := hok (by decide +kernel) (by decide +kernel)
  refine ⟨hd, p, hp, (hworth _ (by decide) _).mpr ?_, (hworth _ (by decide) _).mpr ?_, ?_⟩
  · have hfirst : yearlyTotals.entries = yearlyTotals.entries.take 3 ++
        ("statistic", .scalar "sum") :: yearlyTotals.entries.drop 4 := rfl
    exact .given hfirst (by decide) (by decide +kernel)
  · have hpreset : Catalog.OptionalKeyword.withPreset "power" "1" ∈
        Catalog.periodStatistics.optional := by decide
    exact .preset (by decide) hpreset rfl rfl (by decide +kernel)
  · refine Option.eq_none_iff_forall_ne_some.mpr fun v hv => ?_
    cases (hworth _ (by decide) _).mp hv with
    | given hentries hbefore hblank =>
      have hv : yearlyTotals.find? "log" = some v :=
        find?_eq_some_iff.mpr ⟨_, _, hentries, hbefore⟩
      obtain rfl := Option.some.inj hv
      exact absurd hblank (by decide +kernel)
    | preset hnot => exact absurd (by decide) hnot

end Params

end Hydroseries
