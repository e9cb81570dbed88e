import Hydroseries.Text.Case
import Mathlib.Data.List.Basic

/-!
# Capitals of capitals

Texts that are put into capitals twice. A few characters outside ASCII have capitals in ASCII, but
none of them is a capital itself. So if the capitals of a capitalized text are in ASCII, they are
the text itself (`upper_upper`).

Text in lower case that is put into capitals and back is the same again if its capitals are in ASCII
and no character of it is one of these few (`lower_upper`).
-/

namespace Hydroseries.Text

/-- The characters outside ASCII whose capitals are in ASCII: dotless i, long s, sharp s, and the
ligatures of f and of s. -/
def asciiSources : List Nat :=
  [0x131, 0x17F, 0xDF, 0xFB00, 0xFB01, 0xFB02, 0xFB03, 0xFB04, 0xFB05, 0xFB06]

/-! ## What the tables say -/

/-- The code points that a run maps to, outside ASCII: all of them are characters, and none has its
capitals in ASCII. -/
def isWideRun (run : Nat × Nat × Nat × Int) : Bool :=
  let low := (run.1 : Int) + run.2.2.2
  let high := (run.2.1 : Int) + run.2.2.2
  (0x80 ≤ low && high < 0xD800 || 0xE000 ≤ low && high < 0x110000) &&
    asciiSources.all fun (n : Nat) => n < low || high < n

theorem upperRuns_wide : ∀ run ∈ upperRuns,
    run = (0x131, 0x131, 1, -232) ∨ run = (0x17F, 0x17F, 1, -300) ∨ isWideRun run = true := by
  decide +kernel

theorem upperExpansions_ascii : ∀ e ∈ upperExpansions,
    e.1 ∈ asciiSources ∨ ∃ n ∈ e.2, 0x80 ≤ n ∧ n < 0xD800 := by
  decide +kernel

theorem upperExpansions_capitals : ∀ e ∈ upperExpansions, ∀ n ∈ e.2,
    n < 0xD800 ∧ n ∉ asciiSources ∧ (n < 0x80 → (Char.ofNat n).toUpper = Char.ofNat n) := by
  decide +kernel

theorem asciiSources_mapped : ∀ n ∈ asciiSources,
    (upperExpansions.lookup n).isSome ∨ (mapRun? upperRuns n).isSome := by
  decide +kernel

theorem capitals_ascii : ∀ n < 0x80, (Char.ofNat n).toUpper.toNat < 0x80 ∧
    (Char.ofNat n).toUpper.toUpper = (Char.ofNat n).toUpper := by
  decide +kernel

/-! ## Capitals of one character -/

theorem toNat_ofNat {n : Nat} (h : n.isValidChar) : (Char.ofNat n).toNat = n := by
  rw [Char.ofNat, dif_pos h]
  rfl

theorem mapRun?_eq_some {runs : List (Nat × Nat × Nat × Int)} {n : Nat} {u : Char}
    (h : mapRun? runs n = some u) :
    ∃ run ∈ runs, run.1 ≤ n ∧ n ≤ run.2.1 ∧ u = Char.ofNat ((n : Int) + run.2.2.2).toNat := by
  obtain ⟨run, hfind, rfl⟩ := Option.map_eq_some_iff.mp h
  have hrun := List.find?_some hfind
  simp only [Bool.and_eq_true, decide_eq_true_eq] at hrun
  exact ⟨run, List.mem_of_find?_eq_some hfind, hrun.1.1, hrun.1.2, rfl⟩

/-- Outside ASCII the image of a character comes from the expansions or from the runs, or is the
character itself. -/
theorem mapWide_cases (runs : List (Nat × Nat × Nat × Int)) (expansions : List (Nat × List Nat))
    (c : Char) :
    (∃ e ∈ expansions, e.1 = c.toNat ∧ mapWide runs expansions c = e.2.map Char.ofNat) ∨
    (∃ run ∈ runs, run.1 ≤ c.toNat ∧ c.toNat ≤ run.2.1 ∧
      mapWide runs expansions c = [Char.ofNat ((c.toNat : Int) + run.2.2.2).toNat]) ∨
    mapWide runs expansions c = [c] ∧ expansions.lookup c.toNat = none ∧
      mapRun? runs c.toNat = none := by
  unfold mapWide
  cases hlookup : expansions.lookup c.toNat with
  | some image =>
    obtain ⟨before, after, htable, -⟩ := List.lookup_eq_some_iff.mp hlookup
    exact .inl ⟨(c.toNat, image), htable ▸ List.mem_append_right _ List.mem_cons_self, rfl, rfl⟩
  | none =>
    cases hrun : mapRun? runs c.toNat with
    | some u =>
      obtain ⟨run, hmem, hfirst, hlast, rfl⟩ := mapRun?_eq_some hrun
      exact .inr (.inl ⟨run, hmem, hfirst, hlast, rfl⟩)
    | none => exact .inr (.inr ⟨rfl, rfl, rfl⟩)

/-- Outside ASCII the capitals of a character come from the expansions or from the runs, or are the
character itself. -/
theorem upperChar_cases {c : Char} (hc : 0x80 ≤ c.toNat) :
    (∃ e ∈ upperExpansions, e.1 = c.toNat ∧ upperChar c = e.2.map Char.ofNat) ∨
    (∃ run ∈ upperRuns, run.1 ≤ c.toNat ∧ c.toNat ≤ run.2.1 ∧
      upperChar c = [Char.ofNat ((c.toNat : Int) + run.2.2.2).toNat]) ∨
    upperChar c = [c] ∧ c.toNat ∉ asciiSources := by
  rw [upperChar, if_neg (Nat.not_lt.mpr hc)]
  refine (mapWide_cases upperRuns upperExpansions c).imp_right (Or.imp_right ?_)
  rintro ⟨himage, hlookup, hrun⟩
  refine ⟨himage, fun hsource => ?_⟩
  have hmapped := asciiSources_mapped _ hsource
  rw [hlookup, hrun] at hmapped
  rcases hmapped with hsome | hsome <;> cases hsome

/-- A code point that a wide run maps to is a character outside ASCII with no capitals in ASCII. -/
theorem of_isWideRun {run : Nat × Nat × Nat × Int} (h : isWideRun run = true) {n : Nat}
    (hfirst : run.1 ≤ n) (hlast : n ≤ run.2.1) :
    0x80 ≤ (Char.ofNat ((n : Int) + run.2.2.2).toNat).toNat ∧
      (Char.ofNat ((n : Int) + run.2.2.2).toNat).toNat ∉ asciiSources := by
  simp only [isWideRun, Bool.and_eq_true, Bool.or_eq_true, decide_eq_true_eq, List.all_eq_true] at h
  obtain ⟨hrange, hsources⟩ := h
  have hvalid : (((n : Int) + run.2.2.2).toNat).isValidChar := by
    unfold Nat.isValidChar
    omega
  rw [toNat_ofNat hvalid]
  refine ⟨by omega, fun hsource => ?_⟩
  have hout := hsources _ hsource
  omega

/-- If the capitals of a character are in ASCII, it is in ASCII or one of the few others. -/
theorem of_upperChar_ascii {c : Char} (h : ∀ u ∈ upperChar c, u.toNat < 0x80) :
    c.toNat < 0x80 ∨ c.toNat ∈ asciiSources := by
  refine (Nat.lt_or_ge c.toNat 0x80).imp_right fun hc => ?_
  rcases upperChar_cases hc with ⟨e, he, hkey, himage⟩ | ⟨run, hrun, hfirst, hlast, himage⟩ |
    ⟨himage, -⟩
  · rcases upperExpansions_ascii e he with hsource | ⟨n, hn, hwide, hvalid⟩
    · exact hkey ▸ hsource
    · have hascii := h (Char.ofNat n) (himage ▸ List.mem_map_of_mem hn)
      rw [toNat_ofNat (.inl hvalid)] at hascii
      omega
  · rcases upperRuns_wide run hrun with rfl | rfl | hwide
    · exact Nat.le_antisymm hlast hfirst ▸ by decide
    · exact Nat.le_antisymm hlast hfirst ▸ by decide
    · have hascii := h _ (himage ▸ List.mem_singleton_self _)
      have hout := (of_isWideRun hwide hfirst hlast).1
      omega
  · have hascii := h c (himage ▸ List.mem_singleton_self _)
    omega

/-- A capital is none of the characters outside ASCII whose capitals are in ASCII; if it is in ASCII
itself, it stays as it is. -/
theorem of_mem_upperChar {c u : Char} (hu : u ∈ upperChar c) :
    u.toNat ∉ asciiSources ∧ (u.toNat < 0x80 → u.toUpper = u) := by
  rcases Nat.lt_or_ge c.toNat 0x80 with hc | hc
  · rw [upperChar, if_pos hc, List.mem_singleton] at hu
    subst hu
    obtain ⟨hascii, hfixed⟩ := capitals_ascii c.toNat hc
    rw [Char.ofNat_toNat] at hascii hfixed
    refine ⟨fun hsource => ?_, fun _ => hfixed⟩
    have hwide : ∀ n ∈ asciiSources, 0x80 ≤ n := by decide
    exact Nat.not_lt.mpr (hwide _ hsource) hascii
  rcases upperChar_cases hc with ⟨e, he, -, himage⟩ | ⟨run, hrun, hfirst, hlast, himage⟩ |
    ⟨himage, hnot⟩
  · rw [himage] at hu
    obtain ⟨n, hn, rfl⟩ := List.mem_map.mp hu
    obtain ⟨hvalid, hnot, hfixed⟩ := upperExpansions_capitals e he n hn
    rw [toNat_ofNat (.inl hvalid)]
    exact ⟨hnot, hfixed⟩
  · rw [himage, List.mem_singleton] at hu
    rcases upperRuns_wide run hrun with rfl | rfl | hwide
    · rw [hu, ← Nat.le_antisymm hfirst hlast]
      decide
    · rw [hu, ← Nat.le_antisymm hfirst hlast]
      decide
    · obtain ⟨hout, hnot⟩ := of_isWideRun hwide hfirst hlast
      rw [← hu] at hout hnot
      exact ⟨hnot, fun hascii => by omega⟩
  · rw [himage, List.mem_singleton] at hu
    subst hu
    exact ⟨hnot, fun hascii => by omega⟩

theorem toUpper_of_mem_upperChar {c u : Char} (hu : u ∈ upperChar c) : u.toUpper = u := by
  rcases Nat.lt_or_ge u.toNat 0x80 with hascii | hwide
  · exact (of_mem_upperChar hu).2 hascii
  · have hnot : ¬ ('a'.val ≤ u.val ∧ u.val ≤ 'z'.val) := by
      rintro ⟨-, hlast⟩
      have hle : u.toNat ≤ 'z'.toNat := UInt32.le_iff_toNat_le.mp hlast
      exact absurd (Nat.le_trans hwide hle) (by decide)
    exact dif_neg hnot

theorem toUpper_toLower {c : Char} (h : c.toUpper = c) : c.toLower.toUpper = c := by
  rcases Nat.lt_or_ge c.toNat 0x80 with hascii | hwide
  · have hcapitals : ∀ n < 0x80, (Char.ofNat n).toUpper = Char.ofNat n →
        (Char.ofNat n).toLower.toUpper = Char.ofNat n := by decide +kernel
    have hc := hcapitals c.toNat hascii
    rw [Char.ofNat_toNat] at hc
    exact hc h
  · have hnot : ¬ (c.val ≥ 'A'.val ∧ c.val ≤ 'Z'.val) := by
      rintro ⟨-, hlast⟩
      have hle : c.toNat ≤ 'Z'.toNat := UInt32.le_iff_toNat_le.mp hlast
      exact absurd (Nat.le_trans hwide hle) (by decide)
    rw [show c.toLower = c from dif_neg hnot, h]

/-! ## Texts -/

/-- Texts in capitals that differ in the case of letters at most are the same. -/
theorem eq_of_eqIgnoringAsciiCase {s t : String}
    (h : eqIgnoringAsciiCase (upper s) (upper t) = true) : upper s = upper t := by
  have hback : ∀ s : String, ((upper s).toList.map Char.toLower).map Char.toUpper =
      (upper s).toList := by
    intro s
    rw [List.map_map]
    refine (List.map_congr_left fun u hu => ?_).trans (List.map_id _)
    rw [upper, String.toList_ofList] at hu
    obtain ⟨c, -, hcu⟩ := List.mem_flatMap.mp hu
    exact toUpper_toLower (toUpper_of_mem_upperChar hcu)
  rw [eqIgnoringAsciiCase, beq_iff_eq] at h
  rw [← String.toList_inj, ← hback s, h, hback t]

/-- Text in ASCII that is put into capitals twice has its capitals after the first time. -/
theorem upperChars_upperChars {cs : List Char}
    (h : ∀ u ∈ upperChars (upperChars cs), u.toNat < 0x80) :
    upperChars (upperChars cs) = upperChars cs := by
  have hfixed : ∀ u ∈ upperChars cs, upperChar u = [u] := by
    intro u hu
    obtain ⟨c, -, hcu⟩ := List.mem_flatMap.mp hu
    obtain ⟨hnot, hcapital⟩ := of_mem_upperChar hcu
    have hascii : u.toNat < 0x80 := by
      refine (of_upperChar_ascii fun v hv => h v ?_).resolve_right hnot
      exact List.mem_flatMap.mpr ⟨u, hu, hv⟩
    rw [upperChar, if_pos hascii, hcapital hascii]
  calc upperChars (upperChars cs)
      = (upperChars cs).flatMap fun u => [u] := List.flatMap_congr hfixed
    _ = upperChars cs := List.flatMap_singleton' _

/-- If the capitals of a text in capitals are in ASCII, they are the text. -/
theorem upper_upper {s : String} (h : ∀ u ∈ (upper (upper s)).toList, u.toNat < 0x80) :
    upper (upper s) = upper s := by
  simp only [upper, String.toList_ofList] at h ⊢
  rw [upperChars_upperChars h]

end Hydroseries.Text

/-! # Lower case of capitals -/

namespace Hydroseries.Text

/-- A character in ASCII that is no capital letter. -/
def IsPlain (c : Char) : Prop := c.toNat < 0x80 ∧ c.toLower = c

instance (c : Char) : Decidable (IsPlain c) := inferInstanceAs (Decidable (_ ∧ _))

/-! ## Text in ASCII -/

theorem lowerGo_of_ascii {before cs : List Char} (h : ∀ c ∈ cs, c.toNat < 0x80) :
    lowerGo before cs = cs.map Char.toLower := by
  induction cs generalizing before with
  | nil => rfl
  | cons c cs ih =>
    rw [List.forall_mem_cons] at h
    have hsigma : c ≠ 'Σ' := by
      rintro rfl
      exact absurd h.1 (by decide)
    have hchar : lowerChar c = [c.toLower] := by rw [lowerChar, if_pos h.1]
    rw [lowerGo, if_neg (by simpa using hsigma), hchar, ih h.2]
    rfl

theorem lower_of_plain {s : String} (h : ∀ c ∈ s.toList, IsPlain c) : lower s = s := by
  have hmap : s.toList.map Char.toLower = s.toList :=
    (List.map_congr_left fun c hc => (h c hc).2).trans (List.map_id _)
  rw [lower, lowerChars, lowerGo_of_ascii fun c hc => (h c hc).1, hmap, String.ofList_toList]

theorem upperChars_of_ascii {cs : List Char} (h : ∀ c ∈ cs, c.toNat < 0x80) :
    upperChars cs = cs.map Char.toUpper := by
  induction cs with
  | nil => rfl
  | cons c cs ih =>
    rw [List.forall_mem_cons] at h
    have hchar : upperChar c = [c.toUpper] := by rw [upperChar, if_pos h.1]
    rw [upperChars, List.flatMap_cons, hchar, ← upperChars, ih h.2]
    rfl

/-! ## What lower case holds -/

theorem lowerRuns_plain : ∀ run ∈ lowerRuns,
    run = (0x212A, 0x212A, 1, -8383) ∨
      0x80 ≤ (run.1 : Int) + run.2.2.2 ∧ (run.2.1 : Int) + run.2.2.2 < 0xD800 ∨
      0xE000 ≤ (run.1 : Int) + run.2.2.2 ∧ (run.2.1 : Int) + run.2.2.2 < 0x110000 := by
  decide +kernel

theorem lowerExpansions_plain : ∀ e ∈ lowerExpansions, ∀ n ∈ e.2,
    n < 0xD800 ∧ (n < 0x80 → IsPlain (Char.ofNat n)) := by
  decide

theorem ascii_plain : ∀ n < 0x80, IsPlain (Char.ofNat n).toLower ∧
    (IsPlain (Char.ofNat n) → (Char.ofNat n).toUpper.toLower = Char.ofNat n) := by
  decide +kernel

theorem plain_of_mem_lowerChar {c u : Char} (hu : u ∈ lowerChar c) (hascii : u.toNat < 0x80) :
    IsPlain u := by
  rcases Nat.lt_or_ge c.toNat 0x80 with hc | hc
  · rw [lowerChar, if_pos hc, List.mem_singleton] at hu
    have hplain := (ascii_plain c.toNat hc).1
    rwa [Char.ofNat_toNat, ← hu] at hplain
  rw [lowerChar, if_neg (Nat.not_lt.mpr hc)] at hu
  rcases mapWide_cases lowerRuns lowerExpansions c with ⟨e, he, -, himage⟩ |
    ⟨run, hrun, hfirst, hlast, himage⟩ | ⟨himage, -⟩
  · rw [himage] at hu
    obtain ⟨n, hn, rfl⟩ := List.mem_map.mp hu
    obtain ⟨hvalid, hplain⟩ := lowerExpansions_plain e he n hn
    rw [toNat_ofNat (.inl hvalid)] at hascii
    exact hplain hascii
  · rw [himage, List.mem_singleton] at hu
    rcases lowerRuns_plain run hrun with rfl | hrange
    -- The sign for kelvins becomes a letter k.
    · rw [hu, ← Nat.le_antisymm hfirst hlast]
      decide
    · have hvalid : ((c.toNat : Int) + run.2.2.2).toNat.isValidChar := by
        unfold Nat.isValidChar
        omega
      rw [hu, toNat_ofNat hvalid] at hascii
      omega
  · rw [himage, List.mem_singleton] at hu
    subst hu
    omega

/-- Characters in ASCII of a text in lower case are no capital letters. -/
theorem plain_of_mem_lower {s : String} {u : Char} (hu : u ∈ (lower s).toList)
    (hascii : u.toNat < 0x80) : IsPlain u := by
  have hmem : ∀ before cs, u ∈ lowerGo before cs → IsPlain u := by
    intro before cs
    induction cs generalizing before with
    | nil => exact fun hu => nomatch hu
    | cons c cs ih =>
      intro hu
      rw [lowerGo] at hu
      rcases List.mem_append.mp hu with hu | hu
      · split at hu
        · rw [List.mem_singleton] at hu
          subst hu
          split at hascii <;> exact absurd hascii (by decide)
        · exact plain_of_mem_lowerChar hu hascii
      · exact ih _ hu
  rw [lower, String.toList_ofList] at hu
  exact hmem _ _ hu

/-! ## Capitals and back -/

/-- A character outside ASCII that has its capitals in ASCII is in the text. -/
def IsDisguised (s : String) : Prop := ∃ c ∈ s.toList, c.toNat ∈ asciiSources

instance (s : String) : Decidable (IsDisguised s) :=
  List.decidableBEx (fun c : Char => c.toNat ∈ asciiSources) s.toList

/-- A text in lower case is got back from its capitals, if they are in ASCII and it is not
disguised. -/
theorem lower_upper {name : String} (hascii : ∀ u ∈ (upper (lower name)).toList, u.toNat < 0x80)
    (hplain : ¬ IsDisguised (lower name)) : lower (upper (lower name)) = lower name := by
  have hchars : ∀ c ∈ (lower name).toList, IsPlain c := by
    intro c hc
    refine plain_of_mem_lower hc ?_
    refine (of_upperChar_ascii fun u hu => hascii u ?_).resolve_right fun hsource =>
      hplain ⟨c, hc, hsource⟩
    rw [upper, String.toList_ofList, upperChars]
    exact List.mem_flatMap.mpr ⟨c, hc, hu⟩
  have hback : ∀ c, IsPlain c → c.toUpper.toLower = c := by
    intro c hc
    have hc' := (ascii_plain c.toNat hc.1).2
    rw [Char.ofNat_toNat] at hc'
    exact hc' hc
  have hcapitals : (upper (lower name)).toList = (lower name).toList.map Char.toUpper := by
    rw [upper, String.toList_ofList, upperChars_of_ascii fun c hc => (hchars c hc).1]
  have hlower : lowerGo [] (upper (lower name)).toList = _ := lowerGo_of_ascii hascii
  rw [hcapitals, List.map_map] at hlower
  have hsame : (lower name).toList.map (Char.toLower ∘ Char.toUpper) = (lower name).toList :=
    (List.map_congr_left fun c hc => hback c (hchars c hc)).trans (List.map_id _)
  rw [hsame, ← hcapitals] at hlower
  rw [lower, lowerChars, hlower, String.ofList_toList]

end Hydroseries.Text
