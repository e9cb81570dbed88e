import Hydroseries.Catalog.Commands
import Hydroseries.Command.Statistics
import Hydroseries.Proofs.Command.Effects
import Hydroseries.Proofs.Decimal.Digits
import Hydroseries.Proofs.Outcome
import Hydroseries.Proofs.Params
import Hydroseries.Proofs.Resolution
import Hydroseries.Proofs.Stat.Blocks
import Hydroseries.Proofs.Store.Calls
import Hydroseries.Proofs.Store.Entity

/-!
# Extremes of block means in the store

A block of statistics asks for an extreme of block means by a keyword that ends in the size of the
blocks. The size is read from the digits and written again, and the extreme is in the table exactly if
this second keyword is in the block as well and asks for it (`extremes_of_run`). So a size with zeros in
front, or one that is no word of the machine, is accepted and then passed over.
-/

namespace Hydroseries

open Stateful (exec exec_bind_outcome_eq_ok)

namespace Command

/-! ## Requests -/

/-- The keyword of an extreme as it is written from the size of the blocks. -/
def BlockExtreme.label (e : BlockExtreme) (size : ℕ) : String := e.keyword ++ toString size

theorem BlockExtreme.keyword_append_inj {e e' : BlockExtreme} {a b : String}
    (h : e.keyword ++ a = e'.keyword ++ b) : e = e' ∧ a = b := by
  have hchars := congrArg String.toList h
  rw [String.toList_append, String.toList_append] at hchars
  have hlength : e.keyword.toList.length = e'.keyword.toList.length := by
    cases e <;> cases e' <;> decide
  obtain ⟨hkeyword, hrest⟩ := List.append_inj hchars hlength
  refine ⟨?_, String.toList_inj.mp hrest⟩
  cases e <;> cases e' <;> first | rfl | exact absurd hkeyword (by decide)

theorem BlockExtreme.label_inj {e e' : BlockExtreme} {m n : ℕ} (h : e.label m = e'.label n) :
    e = e' ∧ m = n := by
  obtain ⟨he, hnumber⟩ := keyword_append_inj h
  refine ⟨he, ?_⟩
  rw [← Text.digitsValue_toString m, hnumber, Text.digitsValue_toString]

namespace SeriesStatistics

variable {c : SeriesStatistics} {p : Params} {dates : DateFormat} {ses ses' : Session}
  {e : BlockExtreme} {size : ℕ}

/-- The reading of one numbered keyword. -/
theorem wanted_eq_ok {n : ℕ} {found : Option ℕ} :
    (do
      if n = 0 then throw (.invalid (e.keyword ++ toString n) "0" "block size must be at least 1")
      let wanted ← p.flag (e.keyword ++ toString n)
      pure (if wanted then some n else none) : Outcome (Option ℕ)) = .ok found ↔
    n ≠ 0 ∧ ∃ wanted, p.flag (e.label n) = .ok wanted ∧ (if wanted then some n else none) = found := by
  by_cases hn : n = 0
  · rw [if_pos hn]
    exact ⟨nofun, fun h => absurd hn h.1⟩
  · rw [if_neg hn]
    refine ⟨fun h => ⟨hn, ?_⟩, fun h => ?_⟩
    · obtain ⟨b, hb, hfound⟩ := bind_eq_ok.mp h
      exact ⟨b, hb, Except.ok.inj hfound⟩
    · obtain ⟨-, b, hb, rfl⟩ := h
      exact bind_eq_ok.mpr ⟨b, hb, rfl⟩

theorem sizes_eq_ok {found : List ℕ} (h : sizes p e = .ok found) :
    (∀ n v, (n, v) ∈ p.numbered e.keyword → n ≠ 0) ∧
    ∀ n, n ∈ found ↔ (∃ v, (n, v) ∈ p.numbered e.keyword) ∧ p.flag (e.label n) = .ok true := by
  obtain ⟨wanted, hwanted, h⟩ := bind_eq_ok.mp h
  obtain rfl := Except.ok.inj h
  refine ⟨fun n v hmem => ?_, fun n => ?_⟩
  · obtain ⟨_, -, hread⟩ := exists_mem_of_mapM hwanted hmem
    exact (wanted_eq_ok.mp hread).1
  · rw [List.mem_filterMap]
    constructor
    · rintro ⟨_, hmem, rfl⟩
      obtain ⟨⟨m, v⟩, hnumbered, hread⟩ := mem_of_mapM hwanted hmem
      obtain ⟨-, b, hflag, hsome⟩ := wanted_eq_ok.mp hread
      cases b with
      | false => cases hsome
      | true =>
        obtain rfl := Option.some.inj hsome
        exact ⟨⟨v, hnumbered⟩, hflag⟩
    · rintro ⟨⟨v, hnumbered⟩, hflag⟩
      obtain ⟨found, hmem, hread⟩ := exists_mem_of_mapM hwanted hnumbered
      obtain ⟨-, b, hflag', rfl⟩ := wanted_eq_ok.mp hread
      obtain rfl := Except.ok.inj (hflag.symm.trans hflag')
      exact ⟨_, hmem, rfl⟩

theorem blocks_of_ofParams (h : ofParams p dates = .ok c) :
    ∃ smallest largest, sizes p .smallest = .ok smallest ∧ sizes p .largest = .ok largest ∧
      c.blocks = smallest.map (BlockExtreme.smallest, ·) ++ largest.map (BlockExtreme.largest, ·) := by
  obtain ⟨stats, -, h⟩ := bind_eq_ok.mp h
  obtain ⟨smallest, hsmallest, h⟩ := bind_eq_ok.mp h
  obtain ⟨largest, hlargest, h⟩ := bind_eq_ok.mp h
  refine ⟨smallest, largest, hsmallest, hlargest, ?_⟩
  dsimp only at h
  split at h
  · cases h
  · obtain ⟨_, -, h⟩ := bind_eq_ok.mp h
    obtain ⟨_, -, h⟩ := bind_eq_ok.mp h
    obtain ⟨_, -, h⟩ := bind_eq_ok.mp h
    rw [← Except.ok.inj h]

/-- The extremes that a block asks for are those whose keyword is in it as it is written from the size;
none of the sizes is zero. -/
theorem mem_blocks (h : ofParams p dates = .ok c) (e : BlockExtreme) :
    (∀ n v, (n, v) ∈ p.numbered e.keyword → n ≠ 0) ∧
    ∀ n, (e, n) ∈ c.blocks ↔ n < 2 ^ 64 ∧ p.flag (e.label n) = .ok true := by
  have hread {n : ℕ} {v : Control.Value} (hmem : (n, v) ∈ p.numbered e.keyword) : n < 2 ^ 64 := by
    obtain ⟨number, -, hn⟩ := Params.mem_numbered.mp hmem
    obtain ⟨-, hlt⟩ := Option.filter_eq_some_iff.mp hn
    exact of_decide_eq_true hlt
  have hwritten {n : ℕ} (hn : n < 2 ^ 64) (hflag : p.flag (e.label n) = .ok true) :
      ∃ v, (n, v) ∈ p.numbered e.keyword := by
    obtain ⟨v, hv⟩ := Params.mem_of_flag hflag
    exact ⟨v, Params.mem_numbered.mpr ⟨toString n, hv, Text.readWord64?_toString hn⟩⟩
  have hfound {found : List ℕ} (hsizes : sizes p e = .ok found) :
      (∀ n v, (n, v) ∈ p.numbered e.keyword → n ≠ 0) ∧
      ∀ n, n ∈ found ↔ n < 2 ^ 64 ∧ p.flag (e.label n) = .ok true := by
    obtain ⟨hpos, hmem⟩ := sizes_eq_ok hsizes
    refine ⟨hpos, fun n => (hmem n).trans ⟨?_, ?_⟩⟩
    · rintro ⟨⟨v, hv⟩, hflag⟩
      exact ⟨hread hv, hflag⟩
    · rintro ⟨hn, hflag⟩
      exact ⟨hwritten hn hflag, hflag⟩
  obtain ⟨smallest, largest, hsmallest, hlargest, hblocks⟩ := blocks_of_ofParams h
  cases e with
  | smallest => simpa [hblocks] using hfound hsmallest
  | largest => simpa [hblocks] using hfound hlargest

/-- Every keyword of an extreme with digits behind it is accepted. -/
theorem accepts_of_digits (e : BlockExtreme) {number : String} (hne : number.toList ≠ [])
    (hdigits : ∀ ch ∈ number.toList, Text.isDigit ch = true) :
    Catalog.seriesStatistics.accepts (e.keyword ++ number) = true := by
  have hpattern : e.keyword ∈ Catalog.seriesStatistics.patterns := by cases e <;> decide
  refine Catalog.accepts_eq_true.mpr (.inr (.inr ⟨_, hpattern, number.toList,
    String.toList_append, hne, fun ch hch => ?_⟩))
  simpa [Text.isDigit] using hdigits ch hch

/-- A block in which an extreme of blocks of size zero is set, however many zeros are written, does not
build. -/
theorem digitsValue_pos (hc : ofParams p dates = .ok c) {number : String} (hne : number.toList ≠ [])
    (hdigits : ∀ ch ∈ number.toList, Text.isDigit ch = true)
    (hflag : p.flag (e.keyword ++ number) = .ok true) : 0 < Text.digitsValue number.toList := by
  by_contra hzero
  have hsize : Text.digitsValue number.toList = 0 := Nat.eq_zero_of_not_pos hzero
  obtain ⟨v, hv⟩ := Params.mem_of_flag hflag
  refine (mem_blocks hc e).1 0 v (Params.mem_numbered.mpr ⟨number, hv, ?_⟩) rfl
  rw [Text.readWord64?_of_digits hne hdigits, hsize]
  rfl

/-! ## The table -/

/-- The value is the extreme of the means of the blocks of so many positions: it is one of them, and none
of them that is a number lies beyond it. -/
def IsExtreme (e : BlockExtreme) (values : List (Option Double)) (size : ℕ) (v : Double) : Prop :=
  (∃ number, Stat.valuesOfBlock values size number ≠ [] ∧
    v = Arith.mean (Stat.valuesOfBlock values size number)) ∧
  ∀ number, Stat.valuesOfBlock values size number ≠ [] →
    let m := Arith.mean (Stat.valuesOfBlock values size number)
    m.isNaN = false → match e with
      | .smallest => v ≤ m
      | .largest => m ≤ v

theorem isExtreme_of_value? {values : List (Option Double)} {v : Double} (hsize : 0 < size)
    (h : e.value? (Stat.blockMeans values size) = some v) : IsExtreme e values size v := by
  cases e with
  | smallest =>
    obtain ⟨hmem, hleast⟩ := Stat.least_of_min? h
    exact ⟨(Stat.mem_blockMeans hsize).mp hmem, fun number hne hnumber =>
      hleast _ ((Stat.mem_blockMeans hsize).mpr ⟨number, hne, rfl⟩) hnumber⟩
  | largest =>
    obtain ⟨hmem, hgreatest⟩ := Stat.greatest_of_max? h
    exact ⟨(Stat.mem_blockMeans hsize).mp hmem, fun number hne hnumber =>
      hgreatest _ ((Stat.mem_blockMeans hsize).mpr ⟨number, hne, rfl⟩) hnumber⟩

theorem keyword_injective : Function.Injective Statistic.keyword := by
  intro s s' h
  cases s <;> cases s' <;> first | rfl | exact absurd h (by decide)

/-- No keyword of a statistic begins as those of extremes do. -/
theorem keyword_ne (s : Statistic) (e : BlockExtreme) (number : String) :
    s.keyword ≠ e.keyword ++ number := by
  intro h
  have hprefix : e.keyword.toList.isPrefixOf s.keyword.toList = true := by
    rw [h, String.toList_append]
    exact List.isPrefixOf_iff_prefix.mpr (List.prefix_append _ _)
  cases s <;> cases e <;> exact absurd hprefix (by decide)

/-- The entries of the table: statistics of all values under their keywords, and extremes under the
keywords that are written from the sizes. -/
theorem values_eq_ok {s : Series} {entries : List (String × Double)} (h : c.values s = .ok entries) :
    ∃ plain extremes, entries = plain ++ extremes ∧
      (∀ label v, (label, v) ∈ plain →
        ∃ stat : Statistic, label = stat.keyword ∧ stat.value? s.validValues = some v) ∧
      (∀ label v, (label, v) ∈ extremes ↔ ∃ e size, (e, size) ∈ c.blocks ∧ label = e.label size ∧
        e.value? (Stat.blockMeans s.values size) = some v) ∧
      ∀ e size, (e, size) ∈ c.blocks → ∃ v, e.value? (Stat.blockMeans s.values size) = some v := by
  obtain ⟨plain, hplain, h⟩ := bind_eq_ok.mp h
  obtain ⟨extremes, hextremes, h⟩ := bind_eq_ok.mp h
  refine ⟨plain, extremes, (Except.ok.inj h).symm, fun label v hmem => ?_, fun label v => ?_,
    fun e size hblock => ?_⟩
  · obtain ⟨stat, -, hstat⟩ := mem_of_mapM hplain hmem
    split at hstat
    next w hw =>
      obtain ⟨rfl, rfl⟩ := Prod.mk.inj (Except.ok.inj hstat)
      exact ⟨stat, rfl, hw⟩
    next => cases hstat
  · constructor
    · intro hmem
      obtain ⟨⟨e, size⟩, hblock, hentry⟩ := mem_of_mapM hextremes hmem
      dsimp only at hentry
      split at hentry
      next w hw =>
        obtain ⟨rfl, rfl⟩ := Prod.mk.inj (Except.ok.inj hentry)
        exact ⟨e, size, hblock, rfl, hw⟩
      next => cases hentry
    · rintro ⟨e, size, hblock, rfl, hv⟩
      obtain ⟨entry, hmem, hentry⟩ := exists_mem_of_mapM hextremes hblock
      dsimp only at hentry
      rw [hv] at hentry
      obtain rfl := Except.ok.inj hentry
      exact hmem
  · obtain ⟨entry, -, hentry⟩ := exists_mem_of_mapM hextremes hblock
    dsimp only at hentry
    split at hentry
    next v hv => exact ⟨v, hv⟩
    next => cases hentry

theorem find?_entries {s : Series} {entries : List (String × Double)} (h : c.values s = .ok entries)
    {number : String} {v : Double} :
    (OrderedMap.ofList entries).find? (e.keyword ++ number) = some v ↔
      ∃ size, (e, size) ∈ c.blocks ∧ number = toString size ∧
        e.value? (Stat.blockMeans s.values size) = some v := by
  obtain ⟨plain, extremes, rfl, hplain, hextremes, -⟩ := values_eq_ok h
  have hsame : ∀ q ∈ plain ++ extremes, ∀ r ∈ plain ++ extremes, q.1 = r.1 → q.2 = r.2 := by
    rintro ⟨a, v⟩ hq ⟨b, w⟩ hr (rfl : a = b)
    rcases List.mem_append.mp hq with hq | hq <;> rcases List.mem_append.mp hr with hr | hr
    · obtain ⟨stat, rfl, hv⟩ := hplain _ _ hq
      obtain ⟨stat', hkeyword, hw⟩ := hplain _ _ hr
      obtain rfl := keyword_injective hkeyword
      exact Option.some.inj (hv.symm.trans hw)
    · obtain ⟨stat, rfl, -⟩ := hplain _ _ hq
      obtain ⟨e, size, -, hlabel, -⟩ := (hextremes _ _).mp hr
      exact absurd hlabel (keyword_ne stat e _)
    · obtain ⟨stat, rfl, -⟩ := hplain _ _ hr
      obtain ⟨e, size, -, hlabel, -⟩ := (hextremes _ _).mp hq
      exact absurd hlabel (keyword_ne stat e _)
    · obtain ⟨e, size, -, rfl, hv⟩ := (hextremes _ _).mp hq
      obtain ⟨e', size', -, hlabel, hw⟩ := (hextremes _ _).mp hr
      obtain ⟨rfl, rfl⟩ := BlockExtreme.label_inj hlabel
      exact Option.some.inj (hv.symm.trans hw)
  rw [OrderedMap.find?_ofList_iff hsame, List.mem_append]
  constructor
  · rintro (hmem | hmem)
    · obtain ⟨stat, hkeyword, -⟩ := hplain _ _ hmem
      exact absurd hkeyword.symm (keyword_ne stat e number)
    · obtain ⟨e', size, hblock, hlabel, hv⟩ := (hextremes _ _).mp hmem
      obtain ⟨rfl, rfl⟩ := BlockExtreme.keyword_append_inj hlabel
      exact ⟨size, hblock, rfl, hv⟩
  · rintro ⟨size, hblock, rfl, hv⟩
    exact .inr ((hextremes _ _).mpr ⟨e, size, hblock, rfl, hv⟩)

/-- A run puts the table of the prepared series into the store. -/
theorem exec_run_eq_ok : exec c.run ses = (.ok (), ses') ↔
    ∃ source table st, ses.store.getSeries c.source = .ok source ∧ c.table source = .ok table ∧
      ses.store.insertTable c.name (.s table) = .ok st ∧ { ses with store := st } = ses' := by
  rw [run, Action.exec_getSeries_bind]
  cases ses.store.getSeries c.source with
  | error fault => simp
  | ok source =>
    simp only [exec_bind_outcome_eq_ok, Action.exec_insertTable_eq_ok, Except.ok.injEq,
      exists_and_left, exists_eq_left']

theorem table_eq_ok {source : Series} {table : STable} (h : c.table source = .ok table) :
    ∃ s entries, c.preparation.apply source = .ok s ∧ c.values s = .ok entries ∧
      table.stats = OrderedMap.ofList entries := by
  obtain ⟨s, hs, h⟩ := bind_eq_ok.mp h
  dsimp only at h
  split at h
  · obtain ⟨entries, hentries, h⟩ := bind_eq_ok.mp h
    obtain rfl := Except.ok.inj h
    exact ⟨s, entries, hs, hentries, rfl⟩
  · cases h

/-- Whatever the store holds, if a block builds and the command succeeds, then for a keyword of an extreme
with digits behind it that is set the table holds the extreme of the means of blocks of so many
positions exactly if the digits stand for a word of the machine and the keyword is also set as it is
written from the size, as it is if the digits have no zeros in front. Otherwise the table has no entry for
the keyword, as it was given or as it is written from the size. -/
theorem extremes_of_run (hc : ofParams p dates = .ok c) (h : exec c.run ses = (.ok (), ses'))
    (e : BlockExtreme) {number : String} (hne : number.toList ≠ [])
    (hdigits : ∀ ch ∈ number.toList, Text.isDigit ch = true)
    (hflag : p.flag (e.keyword ++ number) = .ok true) :
    Catalog.seriesStatistics.accepts (e.keyword ++ number) = true ∧
    ∃ source s table, ses.store.getSeries c.source = .ok source ∧
      c.preparation.apply source = .ok s ∧
      ses'.store.entity? .sTable c.name = some (.table (.s table)) ∧
      let size := Text.digitsValue number.toList
      let kept := size < 2 ^ 64 ∧ p.flag (e.label size) = .ok true
      0 < size ∧ (number = toString size → size < 2 ^ 64 → kept) ∧
      (kept → ∃ v, table.stats.find? (e.label size) = some v ∧ IsExtreme e s.values size v) ∧
      (¬kept → table.stats.find? (e.label size) = none ∧
        table.stats.find? (e.keyword ++ number) = none) := by
  obtain ⟨source, table, st, hsource, htable, hinsert, rfl⟩ := exec_run_eq_ok.mp h
  obtain ⟨s, entries, hs, hentries, hstats⟩ := table_eq_ok htable
  obtain ⟨-, hblocks⟩ := mem_blocks hc e
  have hpos := digitsValue_pos hc hne hdigits hflag
  refine ⟨accepts_of_digits e hne hdigits, source, s, table, hsource, hs,
    (Store.entity?_insertTable hinsert _ _).trans (if_pos ⟨rfl, rfl⟩), hpos, ?_, ?_, ?_⟩
  · intro hwritten hsize
    refine ⟨hsize, ?_⟩
    rw [BlockExtreme.label, ← hwritten]
    exact hflag
  · intro hkept
    have hblock := (hblocks _).mpr hkept
    obtain ⟨_, _, _, _, _, hvalue⟩ := values_eq_ok hentries
    obtain ⟨v, hv⟩ := hvalue _ _ hblock
    refine ⟨v, ?_, isExtreme_of_value? hpos hv⟩
    rw [hstats]
    exact (find?_entries hentries).mpr ⟨_, hblock, rfl, hv⟩
  · intro hkept
    -- Whatever number stands behind the keyword, an entry for it would be one of the size.
    have hnone {other : String} (hother : Text.digitsValue other.toList = Text.digitsValue number.toList) :
        table.stats.find? (e.keyword ++ other) = none := by
      refine Option.eq_none_iff_forall_ne_some.mpr fun v hv => hkept ?_
      rw [hstats] at hv
      obtain ⟨size, hblock, rfl, -⟩ := (find?_entries hentries).mp hv
      rw [← hother, Text.digitsValue_toString]
      exact (hblocks size).mp hblock
    exact ⟨hnone (Text.digitsValue_toString _), hnone rfl⟩

/-- Four days of January 1970. -/
def fourDays : Series :=
  ⟨[(.ofDate ⟨0⟩ 0, some 1), (.ofDate ⟨1⟩ 0, some 2), (.ofDate ⟨2⟩ 0, some 3),
    (.ofDate ⟨3⟩ 0, some 4)]⟩

def fourDaySession : Session where
  baseDir := "."
  files := .empty
  store := (Store.Call.join ⟨"FLOW"⟩ fourDays).after .empty

/-- A block that asks for the mean and for one extreme more. -/
def meanAnd (keyword : String) : Control.Invocation where
  command := "SERIES_STATISTICS"
  startLine := 1
  entries := [("context", .scalar "all"), ("series_name", .scalar "flow"),
    ("new_s_table_name", .scalar "summary"), ("mean", .scalar "yes"), (keyword, .scalar "yes")]

theorem extremes_of_two : ∃ p c ses' source s table v,
    Params.resolve Catalog.seriesStatistics (meanAnd "minmean_2") = .ok p ∧
      p.flag "minmean_2" = .ok true ∧ ofParams p .iso = .ok c ∧
      exec c.run fourDaySession = (.ok (), ses') ∧ fourDaySession.store.getSeries c.source = .ok source ∧
      c.preparation.apply source = .ok s ∧
      ses'.store.entity? .sTable c.name = some (.table (.s table)) ∧
      table.stats.find? "minmean_2" = some v ∧ IsExtreme .smallest s.values 2 v := by
  have hall : (do
      let p ← Params.resolve Catalog.seriesStatistics (meanAnd "minmean_2")
      let c ← ofParams p .iso
      let set ← p.flag "minmean_2"
      (exec c.run fourDaySession).1
      pure set : Outcome Bool).toOption.map id = some true := by decide +kernel
  obtain ⟨set, hall, rfl⟩ := ok_of_toOption_map hall
  obtain ⟨p, hp, hall⟩ := bind_eq_ok.mp hall
  obtain ⟨c, hc, hall⟩ := bind_eq_ok.mp hall
  obtain ⟨set, hflag, hall⟩ := bind_eq_ok.mp hall
  obtain ⟨_, hrun, hset⟩ := bind_eq_ok.mp hall
  obtain rfl : set = true := Except.ok.inj hset
  have hrun : exec c.run fourDaySession = (.ok (), (exec c.run fourDaySession).2) := Prod.ext hrun rfl
  have hne : "2".toList ≠ [] := by decide
  have hdigits : ∀ ch ∈ "2".toList, Text.isDigit ch = true := by simp [Text.isDigit]
  obtain ⟨-, source, s, table, hsource, hs, htable, -, hwritten, hkept, -⟩ :=
    extremes_of_run hc hrun .smallest hne hdigits hflag
  obtain ⟨v, hv, hextreme⟩ := hkept (hwritten rfl (by decide))
  exact ⟨p, c, _, source, s, table, v, hp, hflag, hc, hrun, hsource, hs, htable, hv, hextreme⟩

/-- A size with a zero in front is accepted and set, and the table has the mean only. -/
theorem extreme_passed_over : ∃ p c ses' table,
    Params.resolve Catalog.seriesStatistics (meanAnd "minmean_02") = .ok p ∧
      Catalog.seriesStatistics.accepts "minmean_02" = true ∧ p.flag "minmean_02" = .ok true ∧
      ofParams p .iso = .ok c ∧ exec c.run fourDaySession = (.ok (), ses') ∧
      ses'.store.entity? .sTable c.name = some (.table (.s table)) ∧ table.stats.keys = ["mean"] := by
  have hall : (do
      let p ← Params.resolve Catalog.seriesStatistics (meanAnd "minmean_02")
      let c ← ofParams p .iso
      let set ← p.flag "minmean_02"
      let source ← fourDaySession.store.getSeries c.source
      let table ← c.table source
      let st ← fourDaySession.store.insertTable c.name (.s table)
      pure (set, table.stats.keys) : Outcome (Bool × List String)).toOption.map id = some (true, ["mean"]) := by
    decide +kernel
  obtain ⟨_, hall, rfl⟩ := ok_of_toOption_map hall
  obtain ⟨p, hp, hall⟩ := bind_eq_ok.mp hall
  obtain ⟨c, hc, hall⟩ := bind_eq_ok.mp hall
  obtain ⟨set, hflag, hall⟩ := bind_eq_ok.mp hall
  obtain ⟨source, hsource, hall⟩ := bind_eq_ok.mp hall
  obtain ⟨table, htable, hall⟩ := bind_eq_ok.mp hall
  obtain ⟨st, hinsert, hpair⟩ := bind_eq_ok.mp hall
  obtain ⟨rfl, hkeys⟩ := Prod.mk.inj (Except.ok.inj hpair)
  exact ⟨p, c, _, table, hp, by decide, hflag, hc,
    exec_run_eq_ok.mpr ⟨source, table, st, hsource, htable, hinsert, rfl⟩,
    (Store.entity?_insertTable hinsert _ _).trans (if_pos ⟨rfl, rfl⟩), hkeys⟩

end SeriesStatistics

end Command

end Hydroseries
