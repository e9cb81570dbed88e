import Hydroseries.DataFile.SiteSample
import Hydroseries.Proofs.DataFile.Columns
import Hydroseries.Proofs.Decimal.Value

/-!
# Samples of sites, in any order

A site sample file is read if every line that is not blank holds a sample and no site has two samples
of one moment (`exists_read_iff`); under a site stand its samples, in the order of time
(`find?_of_read`). Neither depends on the order of the lines, so texts of the same lines are read as
the same series (`read_of_perm`).
-/

namespace Hydroseries.DataFile.SiteSample

variable {path path' text text' line site : String} {format : DateFormat} {n : ℕ} {t : Timestamp}
  {v : Double} {table : DataTable} {s : Series} {taken : List (String × Timestamp × Double)}

/-! ## Lines -/

/-- What a line says: a site, a moment and a value. -/
def sample? (format : DateFormat) (line : String) : Option (String × Timestamp × Double) :=
  match Text.words line with
  | site :: date :: time :: value :: _ =>
    match format.combine date (some time), Text.readDouble? (Text.trim value) with
    | .ok t, some v => some (site, t, v)
    | _, _ => none
  | _ => none

/-- The line is blank or holds a sample. -/
def Readable (format : DateFormat) (line : String) : Prop :=
  Text.words line = [] ∨ (sample? format line).isSome = true

instance : Decidable (Readable format line) := inferInstanceAs (Decidable (_ ∨ _))

theorem sample_eq_ok {o : Option (String × Timestamp × Double)} :
    sample path format n line = .ok o ↔ Readable format line ∧ sample? format line = o := by
  unfold sample Readable sample?
  rcases Text.words line with _ | ⟨site, _ | ⟨date, _ | ⟨time, _ | ⟨value, _⟩⟩⟩⟩
  case cons.cons.cons.cons =>
    simp only [bind_eq_ok, atLine_eq_ok, number_eq_ok]
    rcases format.combine date (some time) with fault | t
    · simp
    · rcases Text.readDouble? (Text.trim value) with _ | v
      · simp
      · simp [pure, Except.pure]
  all_goals simp

/-- The samples of a text, in the order of its lines. -/
def samples (format : DateFormat) (text : String) : List (String × Timestamp × Double) :=
  (Text.lines text).filterMap (sample? format)

theorem mem_samples : (site, t, v) ∈ samples format text ↔
    ∃ line ∈ Text.lines text, sample? format line = some (site, t, v) :=
  List.mem_filterMap

/-- All lines are read if each of them can be. -/
theorem found_eq_ok {found : List (Option (String × Timestamp × Double))} :
    (numberedLines text).mapM (fun l => sample path format l.2 l.1) = .ok found ↔
      (∀ line ∈ Text.lines text, Readable format line) ∧
        (Text.lines text).map (sample? format) = found := by
  have hlines : (numberedLines text).map Prod.fst = Text.lines text := List.zipIdx_map_fst 1 _
  rw [mapM_eq_ok_and fun _ _ => sample_eq_ok, ← hlines, List.forall_mem_map, List.map_map]
  rfl

/-! ## Sites -/

/-- The sites of some samples, in the order of their first ones. -/
def sites (taken : List (String × Timestamp × Double)) : List String :=
  (taken.map Prod.fst).eraseDups

theorem mem_sites : site ∈ sites taken ↔ ∃ t v, (site, t, v) ∈ taken := by
  simp [sites]

theorem mem_pointsOf {o : Option Double} :
    (t, o) ∈ pointsOf site taken ↔ ∃ v, (site, t, v) ∈ taken ∧ o = some v := by
  simp only [pointsOf, List.mem_map, List.mem_filter, decide_eq_true_eq]
  constructor
  · rintro ⟨⟨site', t', v⟩, ⟨hmem, rfl⟩, hpoint⟩
    obtain ⟨rfl, rfl⟩ := Prod.mk.inj hpoint
    exact ⟨v, hmem, rfl⟩
  · rintro ⟨v, hmem, rfl⟩
    exact ⟨_, ⟨hmem, rfl⟩, rfl⟩

/-- Every site has samples of different moments just if no two samples are of one site and one
moment. -/
theorem nodup_samples_iff : (∀ site ∈ sites taken, ((pointsOf site taken).map Prod.fst).Nodup) ↔
    (taken.map fun s => (s.1, s.2.1)).Nodup := by
  simp only [sites, pointsOf, List.map_map, List.Nodup, List.pairwise_map, List.pairwise_filter,
    Function.comp_apply, List.mem_eraseDups, decide_eq_true_eq]
  simp only [List.pairwise_iff_getElem]
  constructor
  · intro h i j hi hj hij heq
    obtain ⟨hsite, hmoment⟩ := Prod.mk.inj heq
    have hmem : taken[i].1 ∈ taken.map Prod.fst := List.mem_map_of_mem (List.getElem_mem hi)
    exact h taken[i].1 hmem i j hi hj hij rfl hsite.symm hmoment
  · rintro h site - i j hi hj hij rfl hsite hmoment
    exact h i j hi hj hij (Prod.ext hsite.symm hmoment)

/-! ## Tables -/

/-- The column of a site. -/
def column (path : String) (taken : List (String × Timestamp × Double)) (site : String) :
    Outcome (String × Series) := do
  let s ← siteSeries path site taken
  pure (site, s)

theorem column_eq_ok {e : String × Series} : column path taken site = .ok e ↔
    TimeSeries.ofPoints (pointsOf site taken) = .ok e.2 ∧ site = e.1 := by
  obtain ⟨site', s⟩ := e
  rw [column, bind_eq_ok]
  constructor
  · rintro ⟨s', hs, hpair⟩
    obtain ⟨rfl, rfl⟩ := Prod.mk.inj (Except.ok.inj hpair)
    exact ⟨mapError_eq_ok.mp hs, rfl⟩
  · rintro ⟨hs, rfl⟩
    exact ⟨s, mapError_eq_ok.mpr hs, rfl⟩

/-- A text is read if its lines are and the samples of each site make up a series. -/
theorem read_eq_ok : read path text format = .ok table ↔
    (∀ line ∈ Text.lines text, Readable format line) ∧
      (sites (samples format text)).mapM (column path (samples format text)) = .ok table.entries := by
  have hsamples : ((Text.lines text).map (sample? format)).filterMap id = samples format text := by
    rw [List.filterMap_map, Function.id_comp]
    rfl
  unfold read
  rw [bind_eq_ok]
  constructor
  · rintro ⟨found, hfound, h⟩
    obtain ⟨hlines, rfl⟩ := found_eq_ok.mp hfound
    dsimp only at h
    rw [hsamples] at h
    obtain ⟨columns, hcolumns, htable⟩ := bind_eq_ok.mp h
    obtain rfl := Except.ok.inj htable
    exact ⟨hlines, hcolumns⟩
  · rintro ⟨hlines, hcolumns⟩
    refine ⟨_, found_eq_ok.mpr ⟨hlines, rfl⟩, ?_⟩
    dsimp only
    rw [hsamples]
    exact bind_eq_ok.mpr ⟨table.entries, hcolumns, rfl⟩

/-- A text is read if every line is blank or holds a sample, and no two samples are of one site and
one moment. -/
theorem exists_read_iff : (∃ table, read path text format = .ok table) ↔
    (∀ line ∈ Text.lines text, Readable format line) ∧
      ((samples format text).map fun s => (s.1, s.2.1)).Nodup := by
  rw [← nodup_samples_iff]
  simp only [read_eq_ok, exists_and_left, ← TimeSeries.exists_ofPoints_iff]
  refine and_congr_right fun _ => ⟨?_, fun h => ?_⟩
  · rintro ⟨table, hcolumns⟩ site hsite
    obtain ⟨e, -, he⟩ := exists_mem_of_mapM hcolumns hsite
    exact ⟨e.2, (column_eq_ok.mp he).1⟩
  · have hcolumns : ∀ site ∈ sites (samples format text),
        ∃ e, column path (samples format text) site = .ok e := by
      intro site hsite
      obtain ⟨s, hs⟩ := h site hsite
      exact ⟨(site, s), column_eq_ok.mpr ⟨hs, rfl⟩⟩
    obtain ⟨entries, hentries⟩ := exists_mapM hcolumns
    exact ⟨⟨entries⟩, hentries⟩

theorem keys_of_read (h : read path text format = .ok table) :
    table.keys = sites (samples format text) := by
  rw [OrderedMap.keys, map_eq_of_mapM (k := id) (read_eq_ok.mp h).2, List.map_id]
  exact fun _ _ he => (column_eq_ok.mp he).2.symm

/-- Under a site stand its samples in the order of time. -/
theorem find?_of_read (h : read path text format = .ok table) : table.find? site = some s ↔
    site ∈ sites (samples format text) ∧
      TimeSeries.ofPoints (pointsOf site (samples format text)) = .ok s := by
  have hcolumns := (read_eq_ok.mp h).2
  constructor
  · intro hfind
    obtain ⟨site', hsite, he⟩ := mem_of_mapM hcolumns (OrderedMap.mem_of_find? hfind)
    obtain ⟨hs, rfl⟩ := column_eq_ok.mp he
    exact ⟨hsite, hs⟩
  · rintro ⟨hsite, hs⟩
    rw [← keys_of_read h, ← OrderedMap.find?_isSome_iff, Option.isSome_iff_exists] at hsite
    obtain ⟨s', hfind⟩ := hsite
    obtain ⟨site', -, he⟩ := mem_of_mapM hcolumns (OrderedMap.mem_of_find? hfind)
    obtain ⟨hs', rfl⟩ := column_eq_ok.mp he
    rw [hfind, Except.ok.inj (hs.symm.trans hs')]

/-! ## Lines in any order -/

/-- The samples of a site in the lines of a text, in the order of time. -/
structure IsSeriesOf (format : DateFormat) (text site : String) (s : Series) : Prop where
  increasing : Increasing s.index
  mem_points : ∀ t o, (t, o) ∈ s.points ↔
    ∃ line ∈ Text.lines text, ∃ v, sample? format line = some (site, t, v) ∧ o = some v

theorem IsSeriesOf.of_find? (h : read path text format = .ok table)
    (hs : table.find? site = some s) : IsSeriesOf format text site s := by
  obtain ⟨-, hs⟩ := (find?_of_read h).mp hs
  obtain ⟨hincreasing, hperm⟩ := TimeSeries.ofPoints_eq_ok.mp hs
  refine ⟨hincreasing, fun t o => ?_⟩
  simp only [hperm.mem_iff, mem_pointsOf, mem_samples]
  constructor
  · rintro ⟨v, ⟨line, hline, hsample⟩, rfl⟩
    exact ⟨line, hline, v, hsample, rfl⟩
  · rintro ⟨line, hline, v, hsample, rfl⟩
    exact ⟨v, ⟨line, hline, hsample⟩, rfl⟩

/-- The order of the lines does not count. -/
theorem find?_eq_of_perm {table' : DataTable} (hperm : (Text.lines text).Perm (Text.lines text'))
    (h : read path text format = .ok table) (h' : read path' text' format = .ok table')
    (site : String) : table.find? site = table'.find? site := by
  have hsamples : (samples format text).Perm (samples format text') := hperm.filterMap _
  have hpoints : (pointsOf site (samples format text)).Perm (pointsOf site (samples format text')) :=
    (hsamples.filter _).map _
  refine Option.ext fun s => ?_
  rw [find?_of_read h, find?_of_read h', mem_sites, mem_sites, TimeSeries.ofPoints_eq_ok,
    TimeSeries.ofPoints_eq_ok, hpoints.congr_right]
  simp only [hsamples.mem_iff]

theorem find?_isSome_of_read (h : read path text format = .ok table) :
    (table.find? site).isSome = true ↔
      ∃ line ∈ Text.lines text, ∃ t v, sample? format line = some (site, t, v) := by
  rw [OrderedMap.find?_isSome_iff, keys_of_read h, mem_sites]
  simp only [mem_samples]
  constructor
  · rintro ⟨t, v, line, hline, hsample⟩
    exact ⟨line, hline, t, v, hsample⟩
  · rintro ⟨line, hline, t, v, hsample⟩
    exact ⟨t, v, line, hline, hsample⟩

/-- If two texts have the same lines, each as often, either both are read or neither is. Read, they
have the same sites, those of their lines, and under each site the same series: the moments and values
of its lines, in the order of time. -/
theorem read_of_perm (hperm : (Text.lines text).Perm (Text.lines text')) (path path' : String)
    (format : DateFormat) :
    ((∃ table, read path text format = .ok table) ↔ ∃ table, read path' text' format = .ok table) ∧
      ∀ table table', read path text format = .ok table → read path' text' format = .ok table' →
        ∀ site, table.find? site = table'.find? site ∧
          ((table.find? site).isSome = true ↔
            ∃ line ∈ Text.lines text, ∃ t v, sample? format line = some (site, t, v)) ∧
          ∀ s, table.find? site = some s → IsSeriesOf format text site s := by
  have hsamples : (samples format text).Perm (samples format text') := hperm.filterMap _
  refine ⟨?_, fun table table' h h' site => ⟨find?_eq_of_perm hperm h h' site,
    find?_isSome_of_read h, fun s hs => .of_find? h hs⟩⟩
  rw [exists_read_iff, exists_read_iff]
  simp only [hperm.mem_iff, (hsamples.map _).nodup_iff]

/-- Lines of two sites, the earlier line of the first site behind the later one. -/
def interleaved : String :=
  "S1 2000-01-02 00:00 2\nS2 2000-01-01 00:00 10\n\nS1 2000-01-01 00:00 1\n"

def bySite : String :=
  "S1 2000-01-01 00:00 1\nS1 2000-01-02 00:00 2\nS2 2000-01-01 00:00 10\n\n"

local instance : DecidableEq Double := Double.sameBits

/-- The first days of the year 2000. -/
def january (day : ℕ) : Timestamp := .ofDate (.ofCivil ⟨2000, 1, day⟩) 0

theorem read_of_interleaved : ∃ table table', read "o.ssf" interleaved .iso = .ok table ∧
    read "o.ssf" bySite .iso = .ok table' ∧
      table.find? "S1" = some ⟨[(january 1, some 1), (january 2, some 2)]⟩ ∧
        table'.find? "S1" = some ⟨[(january 1, some 1), (january 2, some 2)]⟩ := by
  have hsamples : samples .iso interleaved =
      [("S1", january 2, 2), ("S2", january 1, 10), ("S1", january 1, 1)] := by
    decide +kernel
  obtain ⟨table, h⟩ : ∃ table, read "o.ssf" interleaved .iso = .ok table :=
    exists_read_iff.mpr ⟨by decide +kernel, by decide +kernel⟩
  have hsite : table.find? "S1" = some ⟨[(january 1, some 1), (january 2, some 2)]⟩ := by
    rw [find?_of_read h, TimeSeries.ofPoints_eq_ok, hsamples]
    exact ⟨by decide, by unfold Increasing; decide +kernel, by decide +kernel⟩
  have hperm : (Text.lines interleaved).Perm (Text.lines bySite) := by decide +kernel
  obtain ⟨hiff, hsame⟩ := read_of_perm hperm "o.ssf" "o.ssf" .iso
  obtain ⟨table', h'⟩ := hiff.mp ⟨table, h⟩
  exact ⟨table, table', h, h', hsite, (hsame table table' h h' "S1").1.symm.trans hsite⟩

end Hydroseries.DataFile.SiteSample
