import Hydroseries.Proofs.Command.Failure
import Hydroseries.Proofs.Command.Position
import Hydroseries.Proofs.Control.Slice
import Hydroseries.Proofs.Params

/-!
# Reading several columns at once or one by one

A block that lists several columns of a file is read as the list of what its slices are read as,
each of which picks one column (`GetSeries.ofParams_slice`). So it picks the columns that its slices
pick one after the other.
-/

namespace Hydroseries

open Control (Filled Invocation Value)

/-! ## Slices of parameters -/

namespace Params

variable {d d' : Catalog.Descriptor} {m r : Invocation} {p q : Params} {several : List String}
  {n position : Nat} {key : String}

/-- `q` has the value at a position of each of the keywords that `p` has `n` words of, and the texts
of the other keywords are the same. The context is no keyword of parameters. -/
structure Slice (several : List String) (n position : Nat) (p q : Params) : Prop where
  text? : ∀ key ∉ several, key ≠ "context" → q.text? key = p.text? key
  listed : ∀ key ∈ several, ∃ words w, p.entries key = [Text.join " " words] ∧
    words.length = n ∧ (∀ w ∈ words, Text.IsWord w.toList) ∧ words[position]? = some w ∧
    q.entries key = [w]

theorem resolve_eq_ok_iff : (∃ p, resolve d m = .ok p) ↔
    (∀ key ∈ d.required, key ≠ "context" → key ∈ m.keywords) ∧
      ∀ key ∈ m.keywords, d.accepts key = true := by
  have hmissing : missing d m.keywords = [] ↔
      ∀ key ∈ d.required, key ≠ "context" → key ∈ m.keywords := by
    simp [missing, List.filter_eq_nil_iff]
  have hunexpected : unexpected d m.keywords = [] ↔ ∀ key ∈ m.keywords, d.accepts key = true := by
    simp [unexpected, List.filter_eq_nil_iff]
  rw [← hmissing, ← hunexpected]
  rcases Run.resolve_cases d m with ⟨hsome, hresolve⟩ | ⟨hnone, hextra, hresolve⟩ |
    ⟨hnone, hextra, values, hresolve⟩
  · simp [hresolve, hsome]
  · simp [hresolve, hextra]
  · simp [hresolve, hnone, hextra]

/-- Blocks with the same keywords are taken by commands that take the same keywords. -/
theorem resolve_congr (hrequired : d'.required = d.required) (hoptional : d'.optional = d.optional)
    (hpatterns : d'.patterns = d.patterns)
    (hkeys : ∀ key, (r.find? key).isSome = (m.find? key).isSome) :
    (∃ q, resolve d' r = .ok q) ↔ ∃ p, resolve d m = .ok p := by
  have haccepts : d'.accepts = d.accepts := by
    funext key
    simp only [Catalog.Descriptor.accepts, Catalog.Descriptor.requires,
      Catalog.Descriptor.optional?, Catalog.Descriptor.matchesPattern, hrequired, hoptional,
      hpatterns]
  have hmem : ∀ key, key ∈ r.keywords ↔ key ∈ m.keywords := fun key => by
    rw [Invocation.mem_keywords, Invocation.mem_keywords, hkeys]
  simp only [resolve_eq_ok_iff, hrequired, haccepts, hmem]

theorem find?_of_filled {v : Value} (hd : d ∈ Catalog.commands) (hp : resolve d m = .ok p)
    (hm : Filled m) (hcontext : key ≠ "context") (hv : m.find? key = some v) :
    p.find? key = some v := by
  rw [find?_of_resolve_or_preset hd hp hcontext, hv, Option.some_or, Option.filter_some,
    hm key v hv]
  rfl

/-- A slice of a block is read as a slice of its parameters. -/
theorem slice_of_resolve (hd : d ∈ Catalog.commands) (hd' : d' ∈ Catalog.commands)
    (hoptional : d'.optional = d.optional) (h : Control.Slice several n position m r)
    (hm : Filled m) (hr : Filled r) (hcontext : "context" ∉ several) (hp : resolve d m = .ok p)
    (hq : resolve d' r = .ok q) : Slice several n position p q := by
  have hpresets : presets d' = presets d := by rw [presets, presets, hoptional]
  constructor
  · intro key hkey hcontext
    have hfirst := h.first? key hkey
    have hsome := h.isSome hm hr key
    cases hv : m.find? key with
    | none =>
      rw [hv, Option.isSome_none, Option.isSome_eq_false_iff, Option.isNone_iff_eq_none] at hsome
      rw [text?, text?, find?_of_resolve_or_preset hd hp hcontext,
        find?_of_resolve_or_preset hd' hq hcontext, hv, hsome, hpresets]
    | some v =>
      rw [hv, Option.isSome_some] at hsome
      obtain ⟨w, hw⟩ := Option.isSome_iff_exists.mp hsome
      rw [hv, hw] at hfirst
      rw [text?, text?, find?_of_filled hd hp hm hcontext hv, find?_of_filled hd' hq hr hcontext hw]
      exact hfirst
  · intro key hkey
    have hne : key ≠ "context" := ne_of_mem_of_not_mem hkey hcontext
    obtain ⟨words, w, hwords, hlength, hall, hw, hr'⟩ := h.listed key hkey
    refine ⟨words, w, ?_, hlength, hall, hw, ?_⟩
    · rw [entries, find?_of_filled hd hp hm hne hwords]
      rfl
    · rw [entries, find?_of_filled hd' hq hr hne hr']
      rfl

theorem tokens_eq_flatMap (p : Params) (key : String) :
    p.tokens key = (p.entries key).flatMap Text.words := by
  unfold tokens entries
  cases p.find? key <;> rfl

/-- The words of a listed keyword, and the one of them that a slice has. -/
theorem Slice.tokens (h : Slice several n position p q) (key : String) (hkey : key ∈ several) :
    ∃ w, (p.tokens key).length = n ∧ p.entries key = [Text.join " " (p.tokens key)] ∧
      (p.tokens key)[position]? = some w ∧ q.entries key = [w] ∧ q.tokens key = [w] := by
  obtain ⟨words, w, hp, hlength, hall, hw, hq⟩ := h.listed key hkey
  have hword : Text.words w = [w] := by
    have hone := Text.words_join (List.forall_mem_singleton.mpr (hall w (List.mem_of_getElem? hw)))
    simpa [Text.join] using hone
  have htokens : p.tokens key = words := by
    rw [tokens_eq_flatMap, hp, List.flatMap_singleton, Text.words_join hall]
  rw [tokens_eq_flatMap q, hq, htokens]
  exact ⟨w, hlength, hp, hw, rfl, by simpa using hword⟩

theorem toOption_text (p : Params) (key : String) : (p.text key).toOption = p.text? key := by
  unfold text
  cases p.text? key <;> rfl

end Params

/-! ## Slices of reading commands -/

namespace Command.GetSeries

deriving instance DecidableEq for TextFormat, GetSeries

variable {p q : Params} {several : List String} {n position : Nat} {dates : DateFormat}

/-- The formats of which several columns can be read at once, with the keywords that list them. -/
def columnKeywords : List (String × List String) :=
  [("SSF", ["site"]), ("PLOTGEN", ["label"]), ("STATVAR", ["variable_name", "location_id"]),
   ("GSFLOW_GAGE", ["data_type"])]

/-- The command that reads several columns at once. -/
def severalReader (format : String) : String := "GET_MUL_SERIES_" ++ format

/-- The command that reads one column. -/
def columnReader (format : String) : String := "GET_SERIES_" ++ format

/-- Both commands read the same format, and take the same keywords. -/
theorem readers_of_columnKeywords : ∀ e ∈ columnKeywords, ∃ d ∈ Catalog.commands,
    ∃ d' ∈ Catalog.commands, Catalog.find? (severalReader e.1) = some d ∧
      Catalog.find? (columnReader e.1) = some d' ∧ d.name = severalReader e.1 ∧
      d'.name = columnReader e.1 ∧ d'.required = d.required ∧ d'.optional = d.optional ∧
      d'.patterns = d.patterns := by
  decide +kernel

theorem formatName_of_columnKeywords : ∀ e ∈ columnKeywords,
    formatName (severalReader e.1) = e.1 ∧ formatName (columnReader e.1) = e.1 ∧
      textReaders.contains (severalReader e.1) = true ∧
      textReaders.contains (columnReader e.1) = true := by
  decide

/-- As many labels as names are paired one by one. -/
theorem paired_slice {labels : List String} {label : String}
    (h : Params.Slice several n position p q) (hnames : "new_series_name" ∈ several)
    (hlength : labels.length = n) (hlabel : labels[position]? = some label) :
    ∃ picks pick, paired p labels = .ok picks ∧ picks.length = n ∧
      picks[position]? = some pick ∧ paired q [label] = .ok [pick] := by
  obtain ⟨name, hcount, -, hname, -, hq⟩ := h.tokens _ hnames
  have hentities : (p.entities "new_series_name").length = n := by
    rw [Params.entities, List.length_map, hcount]
  have hone : q.entities "new_series_name" = [.ofSpelling name] := by
    rw [Params.entities, hq, List.map_singleton]
  refine ⟨labels.zip (p.entities "new_series_name"), (label, .ofSpelling name), ?_, ?_, ?_, ?_⟩
  · exact if_pos (hlength.trans hentities.symm)
  · rw [List.length_zip, hlength, hentities, Nat.min_self]
  · rw [List.getElem?_zip_eq_some, Params.entities, List.getElem?_map, hname]
    exact ⟨hlabel, rfl⟩
  · rw [paired, hone]
    rfl

/-- `y` is there if `x` is, and is the one of `n` picks of `x` at a position. -/
structure Picks (n position : Nat) (x y : Outcome (TextFormat × List (String × EntityName))) :
    Prop where
  toOption : y.toOption = x.toOption.bind fun columns =>
    columns.2[position]?.map fun pick => (columns.1, [pick])
  length : ∀ columns, x = .ok columns → columns.2.length = n

theorem Picks.bind {α : Type} {x y : Outcome α}
    {f g : α → Outcome (TextFormat × List (String × EntityName))} (h : y.toOption = x.toOption)
    (hf : ∀ a, Picks n position (f a) (g a)) : Picks n position (x >>= f) (y >>= g) := by
  cases x with
  | error fault =>
    cases y with
    | error fault' => exact ⟨rfl, nofun⟩
    | ok b => cases h
  | ok a =>
    cases y with
    | error fault' => cases h
    | ok b =>
      obtain rfl := Option.some.inj h
      exact hf b

theorem picks_throw (fault fault' : Fault) : Picks n position (throw fault) (throw fault') :=
  ⟨rfl, nofun⟩

theorem picks_paired {labels : List String} {label : String} (format : TextFormat)
    (h : Params.Slice several n position p q) (hnames : "new_series_name" ∈ several)
    (hlength : labels.length = n) (hlabel : labels[position]? = some label) :
    Picks n position (paired p labels >>= fun picks => pure (format, picks))
      (paired q [label] >>= fun picks => pure (format, picks)) := by
  obtain ⟨picks, pick, hp, hcount, hpick, hq⟩ := paired_slice h hnames hlength hlabel
  rw [hp, hq]
  constructor
  · show some (format, [pick]) = picks[position]?.map _
    rw [hpick]
    rfl
  · intro columns hcolumns
    obtain rfl := Except.ok.inj hcolumns
    exact hcount

theorem statVarLabels_eq_ok
    (h : (p.tokens "variable_name").length = (p.tokens "location_id").length) :
    statVarLabels p = .ok ((p.tokens "variable_name").zipWith (fun v l => v ++ "_" ++ l)
      (p.tokens "location_id")) :=
  if_pos h

/-- A line of labels of curves is one label, as these may hold blanks. -/
theorem formatAndPicks_slice {labels : List String}
    (hformat : (formatName p.command, labels) ∈ columnKeywords)
    (hsame : formatName q.command = formatName p.command)
    (h : Params.Slice ("new_series_name" :: labels) n position p q)
    (hcurve : formatName p.command = "PLOTGEN" → n = 1) (dates : DateFormat) :
    Picks n position (formatAndPicks p dates) (formatAndPicks q dates) := by
  have hnames : "new_series_name" ∈ "new_series_name" :: labels := List.mem_cons_self
  unfold formatAndPicks
  rw [hsame]
  simp only [columnKeywords, List.mem_cons, Prod.mk.injEq, List.not_mem_nil, or_false] at hformat
  rcases hformat with ⟨hname, rfl⟩ | ⟨hname, rfl⟩ | ⟨hname, rfl⟩ | ⟨hname, rfl⟩
  · obtain ⟨site, hcount, -, hsite, -, hq⟩ := h.tokens "site" (by simp)
    rw [hname, hq]
    exact picks_paired _ h hnames hcount hsite
  · obtain rfl := hcurve hname
    obtain ⟨label, hcount, hp, hlabel, hq, -⟩ := h.tokens "label" (by simp)
    obtain ⟨only, honly⟩ := List.length_eq_one_iff.mp hcount
    have hjoined : Text.join " " [only] = only := by simp [Text.join]
    rw [honly] at hlabel
    rw [hname, hp, hq, honly, hjoined]
    exact picks_paired _ h hnames rfl hlabel
  · obtain ⟨name, hcount, -, hvariable, -, hq⟩ := h.tokens "variable_name" (by simp)
    obtain ⟨place, hcount', -, hplace, -, hq'⟩ := h.tokens "location_id" (by simp)
    have hlabels := statVarLabels_eq_ok (hcount.trans hcount'.symm)
    have hlabel := statVarLabels_eq_ok (p := q) (by rw [hq, hq']; rfl)
    rw [hq, hq'] at hlabel
    rw [hname, hlabels, hlabel]
    apply picks_paired _ h hnames
    · rw [List.length_zipWith, hcount, hcount', Nat.min_self]
    · rw [List.getElem?_zipWith, hvariable, hplace]
  · obtain ⟨kind, hcount, -, hkind, -, hq⟩ := h.tokens "data_type" (by simp)
    have htext : ∀ key ∈ ["time_units_per_day", "model_reference_date", "model_reference_time"],
        q.text? key = p.text? key := by
      intro key hkey
      simp only [List.mem_cons, List.not_mem_nil, or_false] at hkey
      rcases hkey with rfl | rfl | rfl
      all_goals exact h.text? _ (by decide) (by decide)
    have hunits : (q.number Params.asWord32 "time_units_per_day").toOption =
        (p.number Params.asWord32 "time_units_per_day").toOption := by
      simp only [Params.number, toOption_bind, Params.toOption_text]
      rw [htext _ (by simp)]
    have hreference : (reference q dates).toOption = (reference p dates).toOption := by
      simp only [reference, Params.moment, toOption_bind, Params.toOption_text]
      rw [htext _ (by simp), htext "model_reference_time" (by simp)]
    rw [hname]
    apply Picks.bind hunits
    intro units
    dsimp only
    split
    · exact picks_throw _ _
    · apply Picks.bind hreference
      intro start
      rw [hq]
      apply picks_paired _ h hnames
      · rw [List.length_map, hcount]
      · rw [List.getElem?_map, hkind]
        rfl

theorem ofParams_textReader (h : textReaders.contains p.command = true) (dates : DateFormat) :
    Command.ofParams p dates = (ofParams p dates).map .getSeries :=
  if_pos h

theorem ofParams_slice {labels : List String}
    (hformat : (formatName p.command, labels) ∈ columnKeywords)
    (hsame : formatName q.command = formatName p.command)
    (h : Params.Slice ("new_series_name" :: labels) n position p q)
    (hcurve : formatName p.command = "PLOTGEN" → n = 1) (dates : DateFormat) :
    (ofParams q dates).toOption = (ofParams p dates).toOption.bind (fun c =>
      c.picks[position]?.map fun pick => { c with picks := [pick] }) ∧
    ∀ c, ofParams p dates = .ok c → c.picks.length = n := by
  have hothers : ∀ e ∈ columnKeywords, ∀ key ∈ ["date_1", "time_1", "date_2", "time_2", "file"],
      key ∉ "new_series_name" :: e.2 ∧ key ≠ "context" := by decide
  have htext : ∀ key ∈ ["date_1", "time_1", "date_2", "time_2", "file"],
      q.text? key = p.text? key := fun key hkey =>
    h.text? key (hothers _ hformat key hkey).1 (hothers _ hformat key hkey).2
  have hwindow : q.window dates = p.window dates := by
    rw [Params.window, Params.window, htext "date_1" (by simp), htext "time_1" (by simp),
      htext "date_2" (by simp), htext "time_2" (by simp)]
  obtain ⟨hpicks, hlength⟩ := formatAndPicks_slice hformat hsame h hcurve dates
  constructor
  · simp only [ofParams, toOption_bind, Params.toOption_text, hwindow, hpicks,
      htext "file" (by simp)]
    cases (p.window dates).toOption with
    | none => rfl
    | some window =>
    cases (formatAndPicks p dates).toOption with
    | none => rfl
    | some columns =>
    cases p.text? "file" with
    | none => cases hpick : columns.2[position]? <;> simp [hpick]
    | some file =>
      cases hpick : columns.2[position]? <;> simp [hpick, Except.toOption, pure, Except.pure]
  · intro c hc
    obtain ⟨window, -, hc⟩ := bind_eq_ok.mp hc
    obtain ⟨columns, hcolumns, hc⟩ := bind_eq_ok.mp hc
    obtain ⟨file, -, hc⟩ := bind_eq_ok.mp hc
    obtain rfl := Except.ok.inj hc
    exact hlength columns hcolumns

/-- A line of labels of curves is one label, so it cannot be paired with several names. -/
theorem ofParams_curves {labels : List String} (hp : p.command = severalReader "PLOTGEN")
    (h : Params.Slice ("new_series_name" :: "label" :: labels) n position p q) (hn : n ≠ 1)
    (dates : DateFormat) : ∃ fault, Command.ofParams p dates = .error fault := by
  obtain ⟨-, hnames, -⟩ := h.tokens "new_series_name" (by simp)
  obtain ⟨-, -, hlabel, -⟩ := h.tokens "label" (by simp)
  have hpaired : ∃ fault, paired p (p.entries "label") = .error fault := by
    rw [paired, Params.entities, List.length_map, hnames, hlabel]
    exact ⟨_, if_neg (Ne.symm hn)⟩
  obtain ⟨fault, hfault⟩ := hpaired
  have hread : formatAndPicks p dates = .error fault := by
    have hname : formatName (severalReader "PLOTGEN") = "PLOTGEN" := by decide
    rw [formatAndPicks, hp, hname]
    show (do pure (TextFormat.plotgen, ← paired p (p.entries "label"))) = _
    rw [hfault]
    rfl
  rw [ofParams_textReader (by rw [hp]; decide), ofParams, hread]
  cases p.window dates with
  | error fault' => exact ⟨fault', rfl⟩
  | ok window => exact ⟨fault, rfl⟩

/-- If a block cannot be read, its slices cannot be either. Otherwise it picks `n` columns, and its
slice at a position the one at that position. -/
theorem readers_slice {format : String} {labels : List String}
    (hformat : (format, labels) ∈ columnKeywords) (hp : p.command = severalReader format)
    (hq : q.command = columnReader format)
    (h : Params.Slice ("new_series_name" :: labels) n position p q)
    (hcurve : format = "PLOTGEN" → n = 1) (dates : DateFormat) :
    (∃ fault fault', Command.ofParams p dates = .error fault ∧
      Command.ofParams q dates = .error fault') ∨
    ∃ c, Command.ofParams p dates = .ok (.getSeries c) ∧ c.picks.length = n ∧
      ∀ pick, c.picks[position]? = some pick →
        Command.ofParams q dates = .ok (.getSeries { c with picks := [pick] }) := by
  obtain ⟨hname, hname', htext, htext'⟩ := formatName_of_columnKeywords _ hformat
  rw [← hp] at hname htext
  rw [← hq] at hname' htext'
  obtain ⟨hoption, hlength⟩ := ofParams_slice (hname.symm ▸ hformat)
    (hname'.trans hname.symm) h (hname.symm ▸ hcurve) dates
  rw [ofParams_textReader htext, ofParams_textReader htext']
  cases hc : ofParams p dates with
  | error fault =>
    rw [hc] at hoption
    cases hc' : ofParams q dates with
    | error fault' => exact .inl ⟨fault, fault', rfl, rfl⟩
    | ok c' =>
      rw [hc'] at hoption
      cases hoption
  | ok c =>
    refine .inr ⟨c, rfl, hlength c hc, fun pick hpick => ?_⟩
    rw [hc] at hoption
    have hsome : (ofParams q dates).toOption = some { c with picks := [pick] } := by
      rw [hoption, Except.toOption, Option.bind_some, hpick]
      rfl
    cases hc' : ofParams q dates with
    | error fault' =>
      rw [hc'] at hsome
      cases hsome
    | ok c' =>
      rw [hc'] at hsome
      rw [Option.some.inj hsome]
      rfl

end Command.GetSeries

end Hydroseries
