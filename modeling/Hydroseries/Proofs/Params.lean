import Hydroseries.Control.Unroll
import Hydroseries.Params
import Hydroseries.Proofs.Text.Case
import Mathlib.Data.List.Induction

/-!
# Keywords and their texts

What a command reads under a keyword is what the lines of its block say under it: a value that is
given comes out of the checks as it is (`find?_of_resolve`), and the texts of a keyword whose lines
are collected are the texts of these lines in their order (`entries_of_collected`).
-/

namespace Hydroseries

open Control (Value Line Invocation)

/-! ## Texts in lower case -/

namespace Text

/-- The bytes of the text are those of plain characters. Unlike its characters they need not be decoded
to be looked at. -/
def hasPlainBytes (s : String) : Bool :=
  s.toByteArray.data.toList.all fun b => IsPlain (Char.ofNat b.toNat)

theorem isPlain_of_bytes {c : Char}
    (h : ∀ b ∈ String.utf8EncodeChar c, IsPlain (Char.ofNat b.toNat)) : IsPlain c := by
  have hbyte : ∀ n < 256, IsPlain (Char.ofNat (UInt8.ofNat n).toNat) → n < 0x80 := by
    rintro n hn ⟨hascii, -⟩
    rwa [UInt8.toNat_ofNat_of_lt' hn, toNat_ofNat (.inl (by omega))] at hascii
  rw [String.utf8EncodeChar.eq_1] at h
  split at h
  next hone =>
    have hplain := h _ List.mem_cons_self
    rw [UInt8.toNat_ofNat_of_lt' (Nat.lt_of_le_of_lt hone (by decide))] at hplain
    exact Char.ofNat_toNat c ▸ hplain
  -- The first of several bytes is not in ASCII.
  · split at h
    · have hfirst := hbyte _ (by omega) (h _ List.mem_cons_self)
      omega
    · split at h
      all_goals
        have hfirst := hbyte _ (by omega) (h _ List.mem_cons_self)
        omega

theorem isPlain_of_hasPlainBytes {s : String} (h : hasPlainBytes s = true) :
    ∀ c ∈ s.toList, IsPlain c := by
  intro c hc
  refine isPlain_of_bytes fun b hb => ?_
  have hmem : b ∈ s.toByteArray.data.toList := by
    rw [← String.utf8Encode_toList, List.utf8Encode, List.toList_data_toByteArray]
    exact List.mem_flatMap.mpr ⟨c, hc, hb⟩
  simpa using List.all_eq_true.mp h b hmem

end Text

namespace Catalog

theorem keywords_plain : (commands.all fun d =>
    (d.required ++ d.optional.map OptionalKeyword.name ++ d.patterns).all Text.hasPlainBytes) =
      true := by
  decide +kernel

theorem digits_plain : ∀ n < 0x3A, 0x30 ≤ n → Text.IsPlain (Char.ofNat n) := by decide

/-- A keyword that a command takes is in lower case. -/
theorem lower_of_accepts {d : Descriptor} (hd : d ∈ commands) {k : String}
    (h : d.accepts k = true) : Text.lower k = k := by
  have hplain := List.all_eq_true.mp keywords_plain d hd
  simp only [List.all_append, List.all_map, Bool.and_eq_true, List.all_eq_true, Function.comp_apply]
    at hplain
  obtain ⟨⟨hrequired, hoptional⟩, hpatterns⟩ := hplain
  refine Text.lower_of_plain fun c hc => ?_
  simp only [Descriptor.accepts, Bool.or_eq_true] at h
  rcases h with (h | h) | h
  · exact Text.isPlain_of_hasPlainBytes (hrequired k (by simpa [Descriptor.requires] using h)) c hc
  · obtain ⟨o, ho⟩ := Option.isSome_iff_exists.mp h
    have hname : o.name = k := by simpa using List.find?_some ho
    exact Text.isPlain_of_hasPlainBytes (hoptional o (List.mem_of_find?_eq_some ho)) c (hname ▸ hc)
  · obtain ⟨start, hstart, h⟩ := List.any_eq_true.mp h
    simp only [Bool.and_eq_true, List.all_eq_true, decide_eq_true_eq] at h
    obtain ⟨⟨hbegins, -⟩, hdigits⟩ := h
    obtain ⟨rest, hrest⟩ := List.isPrefixOf_iff_prefix.mp hbegins
    rw [← hrest] at hc hdigits
    rcases List.mem_append.mp hc with hc | hc
    · exact Text.isPlain_of_hasPlainBytes (hpatterns start hstart) c hc
    · rw [← String.length_toList, List.drop_left] at hdigits
      obtain ⟨hlow, hhigh⟩ := hdigits c hc
      have hplain := digits_plain c.toNat (Nat.lt_succ_of_le hhigh) hlow
      rwa [Char.ofNat_toNat] at hplain

end Catalog

/-! ## Values of a block -/

namespace Control.Invocation

variable {i : Invocation} {key : String}

theorem mem_keywords : key ∈ i.keywords ↔ (i.find? key).isSome = true := by
  rw [keywords, List.mem_eraseDups, find?, List.mem_map]
  constructor
  · rintro ⟨e, he, rfl⟩
    by_contra hnone
    rw [Option.not_isSome_iff_eq_none, List.lookup_eq_none_iff] at hnone
    simpa using hnone e he
  · intro hsome
    obtain ⟨v, hv⟩ := Option.isSome_iff_exists.mp hsome
    obtain ⟨before, after, hentries, -⟩ := List.lookup_eq_some_iff.mp hv
    exact ⟨(key, v), by simp [hentries], rfl⟩

theorem mem_keywords_of_find? {v : Value} (h : i.find? key = some v) : key ∈ i.keywords := by
  rw [mem_keywords, h]
  rfl

end Control.Invocation

namespace Params

variable {d : Catalog.Descriptor} {i : Invocation} {p : Params} {key : String}

/-- Checked keywords are all taken by the command. -/
theorem accepts_of_resolve (h : resolve d i = .ok p) : ∀ k ∈ i.keywords, d.accepts k = true := by
  intro k hk
  have hnone : unexpected d i.keywords = [] := by
    unfold resolve at h
    split at h
    next hunexpected => exact hunexpected
    · cases h
    · cases h
  simpa using List.filter_eq_nil_iff.mp hnone k hk

theorem mem_given {v : Value} (hlower : ∀ k ∈ i.keywords, Text.lower k = k) :
    (key, v) ∈ given i ↔ key ≠ "context" ∧ i.find? key = some v := by
  rw [given, List.mem_filterMap]
  constructor
  · rintro ⟨k, hk, hv⟩
    obtain ⟨hk, hcontext⟩ := List.mem_filter.mp hk
    obtain ⟨v', hv', heq⟩ := Option.map_eq_some_iff.mp hv
    rw [hlower k hk] at heq
    obtain ⟨rfl, rfl⟩ := Prod.mk.inj heq
    exact ⟨by simpa using hcontext, hv'⟩
  · rintro ⟨hcontext, hv⟩
    have hk := Control.Invocation.mem_keywords_of_find? hv
    exact ⟨key, List.mem_filter.mpr ⟨hk, by simpa using hcontext⟩, by rw [hv, hlower key hk]; rfl⟩

/-- A value is the one that is given, or else the preset, unless it is blank. -/
theorem find?_of_resolve_or_preset (hd : d ∈ Catalog.commands) (h : resolve d i = .ok p)
    (hcontext : key ≠ "context") :
    p.find? key = ((i.find? key).or ((OrderedMap.ofList (presets d)).find? key)).filter
      fun v => !v.isBlank := by
  have hlower : ∀ k ∈ i.keywords, Text.lower k = k := fun k hk =>
    Catalog.lower_of_accepts hd (accepts_of_resolve h k hk)
  have hvalues : p.values =
      (OrderedMap.ofList (presets d ++ given i)).filter fun v => !v.isBlank := by
    unfold resolve at h
    split at h
    · rw [← Except.ok.inj h]
    · cases h
    · cases h
  have hgiven : ∀ e ∈ given i, e.1 = key → i.find? key = some e.2 := by
    rintro ⟨k, v⟩ he rfl
    exact ((mem_given hlower).mp he).2
  rw [find?, hvalues, OrderedMap.find?_filter (OrderedMap.nodup_ofList _), OrderedMap.ofList,
    List.foldl_append]
  congr 1
  cases hfind : i.find? key with
  | none =>
    have hnot : key ∉ (given i).map Prod.fst := by
      intro hmem
      obtain ⟨e, he, hkey⟩ := List.mem_map.mp hmem
      rw [hgiven e he hkey] at hfind
      cases hfind
    have hnever : ∀ e ∈ given i, e.1 = key → e.2 = .scalar "" := fun e he hkey =>
      absurd (List.mem_map.mpr ⟨e, he, hkey⟩) hnot
    rw [OrderedMap.find?_foldl_insert hnever, if_neg hnot]
    rfl
  | some v =>
    have hmem : key ∈ (given i).map Prod.fst :=
      List.mem_map.mpr ⟨(key, v), (mem_given hlower).mpr ⟨hcontext, hfind⟩, rfl⟩
    have hvalue : ∀ e ∈ given i, e.1 = key → e.2 = v := fun e he hkey =>
      Option.some.inj ((hgiven e he hkey).symm.trans hfind)
    rw [OrderedMap.find?_foldl_insert hvalue, if_pos hmem]
    rfl

/-- A value without preset is the one that is given, unless that is blank. -/
theorem find?_of_resolve (hd : d ∈ Catalog.commands) (h : resolve d i = .ok p)
    (hcontext : key ≠ "context") (hpreset : key ∉ (presets d).map Prod.fst) :
    p.find? key = (i.find? key).filter fun v => !v.isBlank := by
  have hnever : ∀ e ∈ presets d, e.1 = key → e.2 = .scalar "" := fun e he hkey =>
    absurd (List.mem_map.mpr ⟨e, he, hkey⟩) hpreset
  have hnone : (OrderedMap.ofList (presets d)).find? key = none := by
    rw [OrderedMap.ofList, OrderedMap.find?_foldl_insert hnever, if_neg hpreset]
    rfl
  rw [find?_of_resolve_or_preset hd h hcontext, hnone, Option.or_none]

end Params

/-! ## Collected lines -/

namespace Control

/-- The texts that stand under a keyword, in the order of the lines. -/
def textsAt (key : String) (lines : List Line) : List String :=
  (lines.filter fun l => l.keyword = key).map Line.joined

variable {key : String} {lines : List Line}

@[simp] theorem textsAt_nil (key : String) : textsAt key [] = [] := rfl

theorem textsAt_cons (key : String) (l : Line) (lines : List Line) :
    textsAt key (l :: lines) =
      if l.keyword = key then l.joined :: textsAt key lines else textsAt key lines := by
  rw [textsAt, List.filter_cons]
  by_cases h : l.keyword = key <;> simp [h, textsAt]

theorem textsAt_append (key : String) (front rest : List Line) :
    textsAt key (front ++ rest) = textsAt key front ++ textsAt key rest := by
  rw [textsAt, List.filter_append, List.map_append]
  rfl

/-- The value of a keyword that has these texts. -/
def collected? (texts : List String) : Option Value :=
  if texts.isEmpty then none else some (.list texts)

/-- Changing the values of one keyword changes what is found under it. -/
theorem lookup_map_value (entries : List (String × Value)) (f : Value → Value) (k key : String) :
    (entries.map fun e => if e.1 = k then (e.1, f e.2) else e).lookup key =
      if key = k then (entries.lookup key).map f else entries.lookup key := by
  induction entries with
  | nil => simp
  | cons e entries ih =>
    obtain ⟨k', v⟩ := e
    rw [List.map_cons, apply_ite (List.lookup key <| · :: _)]
    simp only [List.lookup_cons, ih]
    by_cases hkey : key = k'
    · subst hkey
      by_cases hk : key = k <;> simp [hk]
    · have hne : (key == k') = false := beq_eq_false_iff_ne.mpr hkey
      simp only [hne]
      split <;> rfl

/-- The first line of a keyword adds it, and later ones add their texts. -/
theorem lookup_collectLine (entries : List (String × Value)) (l : Line) (key : String) :
    (collectLine entries l).lookup key = if key = l.keyword
      then some (.list (((entries.lookup key).map Value.entries).getD [] ++ [l.joined]))
      else entries.lookup key := by
  unfold collectLine
  split
  next hany =>
    rw [lookup_map_value entries (fun v => .list (v.entries ++ [l.joined]))]
    split
    next hkey =>
      subst hkey
      cases hfind : entries.lookup l.keyword with
      | none =>
        obtain ⟨e, he, hkey⟩ := List.any_eq_true.mp hany
        have hother := List.lookup_eq_none_iff.mp hfind e he
        simp_all
      | some v => rfl
    · rfl
  next hany =>
    rw [List.lookup_append, List.lookup_cons]
    by_cases hkey : key = l.keyword
    · subst hkey
      have hnone : entries.lookup l.keyword = none := by
        refine List.lookup_eq_none_iff.mpr fun e he => bne_iff_ne.mpr fun heq => hany ?_
        exact List.any_eq_true.mpr ⟨e, he, by simp [heq]⟩
      simp [hnone]
    · have hne : (key == l.keyword) = false := beq_eq_false_iff_ne.mpr hkey
      simp [hne, hkey]

/-- Under each keyword its texts are collected in the order of the lines. -/
theorem lookup_collected (lines : List Line) (key : String) :
    (lines.foldl collectLine []).lookup key = collected? (textsAt key lines) := by
  induction lines using List.reverseRecOn with
  | nil => rfl
  | append_singleton lines l ih =>
    rw [List.foldl_append, List.foldl_cons, List.foldl_nil, lookup_collectLine, ih, textsAt_append,
      textsAt_cons]
    by_cases h : key = l.keyword
    · rw [if_pos h, if_pos h.symm]
      cases textsAt key lines <;> rfl
    · rw [if_neg h, if_neg (Ne.symm h), textsAt_nil, List.append_nil]

end Control

namespace Params

/-- What a command reads under a keyword whose lines are collected are the texts of these lines, if no
line is blank. -/
theorem entries_of_collected {d : Catalog.Descriptor} {i : Invocation} {p : Params}
    {lines : List Line} {key : String} (hd : d ∈ Catalog.commands) (h : resolve d i = .ok p)
    (hentries : i.entries = lines.foldl Control.collectLine []) (hcontext : key ≠ "context")
    (hpreset : key ∉ (presets d).map Prod.fst)
    (hlines : ∀ l ∈ lines, Text.isAllBlank l.joined = false) :
    p.entries key = Control.textsAt key lines := by
  rw [entries, find?_of_resolve hd h hcontext hpreset, Invocation.find?, hentries,
    Control.lookup_collected, Control.collected?]
  cases htexts : Control.textsAt key lines with
  | nil => rfl
  | cons text texts =>
    have hmem : text ∈ Control.textsAt key lines := htexts ▸ List.mem_cons_self
    obtain ⟨l, hl, rfl⟩ := List.mem_map.mp hmem
    have hblank := hlines l (List.mem_filter.mp hl).1
    have hsome : (Value.list (l.joined :: texts)).isBlank = false := by
      rw [Value.isBlank, Value.entries, List.all_cons, hblank, Bool.false_and]
    rw [List.isEmpty_cons, if_neg Bool.false_ne_true, Option.filter_some, hsome]
    rfl

/-- The numbered keywords of a block are those that go on with a word of the machine. -/
theorem mem_numbered {p : Params} {start : String} {n : ℕ} {v : Value} :
    (n, v) ∈ p.numbered start ↔
      ∃ number : String, (start ++ number, v) ∈ p.values.entries ∧
        Text.readWord64? number = some n := by
  rw [numbered, List.mem_mergeSort, List.mem_filterMap]
  constructor
  · rintro ⟨⟨k, w⟩, hk, h⟩
    dsimp only at h
    split at h
    next hprefix =>
      obtain ⟨m, hm, hpair⟩ := Option.map_eq_some_iff.mp h
      obtain ⟨rfl, rfl⟩ := Prod.mk.inj hpair
      obtain ⟨rest, hrest⟩ := List.isPrefixOf_iff_prefix.mp hprefix
      rw [← hrest, ← String.length_toList, List.drop_left] at hm
      refine ⟨String.ofList rest, ?_, hm⟩
      rwa [show start ++ String.ofList rest = k from String.toList_inj.mp (by simpa using hrest)]
    next => cases h
  · rintro ⟨number, hentry, hn⟩
    refine ⟨_, hentry, ?_⟩
    dsimp only
    rw [String.toList_append, if_pos (List.isPrefixOf_iff_prefix.mpr (List.prefix_append _ _)),
      ← String.length_toList, List.drop_left, String.ofList_toList, hn]
    rfl

/-- A flag that is set is a keyword of the block. -/
theorem mem_of_flag {p : Params} {k : String} (h : p.flag k = .ok true) :
    ∃ v, (k, v) ∈ p.values.entries := by
  unfold flag at h
  cases htext : p.text? k with
  | none =>
    rw [htext] at h
    cases h
  | some raw =>
    obtain ⟨v, hv, -⟩ := Option.bind_eq_some_iff.mp htext
    exact ⟨v, OrderedMap.mem_of_find? hv⟩

end Params

end Hydroseries
