import Hydroseries.DataFile.Gage
import Hydroseries.Proofs.DataFile.Columns
import Hydroseries.Proofs.Decimal.Rounding
import Hydroseries.Proofs.Double.Rounding
import Hydroseries.Proofs.Time.Timestamp

/-!
# Rows of gage files

A gage file is read if each of its rows is: a model time with a moment in the calendar, and numbers
behind it (`read_eq_ok`). The moment of a model time is within a millisecond of as many units of whole
milliseconds. These are shorter than the units that are meant, unless they make up a day; then only
are whole days at their days (`placed_of_moment`).
-/

namespace Hydroseries.DataFile.Gage

variable {path text word : String} {reference t : Timestamp} {u line column : ℕ} {words : List String}
  {time : Double} {table : DataTable}

/-! ## Rows -/

/-- The names of the columns behind the model time. -/
def dataNames (text : String) : List String :=
  (columnNames ((Text.lines text)[1]?.getD "")).drop 1

/-- The words of the rows. Lines without words are no rows. -/
def rowWords (text : String) : List (List String) :=
  (((Text.lines text).drop 2).map Text.words).filter (· ≠ [])

theorem upper_of_mem_dataNames : ∀ name ∈ dataNames text, ∃ word, name = Text.upper word := by
  intro name hname
  obtain ⟨word, -, hword⟩ := List.mem_map.mp (List.mem_of_mem_drop hname)
  exact ⟨word, hword.symm⟩

def number? (word : String) : Option Double := Text.readDouble? (Text.trim word)

def modelTime? (words : List String) : Option Double := words.head?.bind number?

/-- The value of a row in a column. -/
def value? (words : List String) (column : ℕ) : Option Double := words.tail[column]?.bind number?

/-- The words begin with the model time of a moment. -/
def StandsAt (reference : Timestamp) (u : ℕ) (words : List String) (t : Timestamp) : Prop :=
  ∃ time, modelTime? words = some time ∧ moment reference u time = .ok t

/-- The words are a model time with a moment, and numbers behind it. -/
structure IsRow (reference : Timestamp) (u : ℕ) (words : List String) (row : Row) : Prop where
  standsAt : StandsAt reference u words row.1
  values : ∃ values : List Double, words.tail.map number? = values.map some ∧ row.2 = values.map some

theorem number_eq_ok {x : Double} : number path line word = .ok x ↔ number? word = some x :=
  DataFile.number_eq_ok

theorem numbers_eq_ok {xs : List Double} : words.mapM (number path line) = .ok xs ↔
    words.map number? = xs.map some := by
  simp only [mapM_eq_ok, number_eq_ok]
  rw [← List.forall₂_eq_eq_eq, List.forall₂_map_left_iff, List.forall₂_map_right_iff]

theorem IsRow.ne_nil {row : Row} (h : IsRow reference u words row) : words ≠ [] := by
  rintro rfl
  obtain ⟨⟨_, htime, _⟩, _⟩ := h
  cases htime

theorem modelTime?_cons (word : String) (cells : List String) :
    modelTime? (word :: cells) = number? word := by
  rw [modelTime?, List.head?_cons, Option.bind_some]

theorem row_eq_ok {r : Option Row} : row path reference u line text = .ok r ↔
    (Text.words text = [] ∧ r = none) ∨
      ∃ row, r = some row ∧ IsRow reference u (Text.words text) row := by
  unfold row
  cases Text.words text with
  | nil =>
    simp only [Except.ok.injEq, true_and]
    refine ⟨fun h => .inl h.symm, ?_⟩
    rintro (h | ⟨row, -, ⟨time, htime, -⟩, -⟩)
    · exact h.symm
    · cases htime
  | cons word cells =>
    simp only [reduceCtorEq, false_and, false_or]
    constructor
    · intro h
      obtain ⟨time, htime, h⟩ := bind_eq_ok.mp h
      obtain ⟨t, ht, h⟩ := bind_eq_ok.mp h
      obtain ⟨values, hvalues, h⟩ := bind_eq_ok.mp h
      refine ⟨(t, values.map some), (Except.ok.inj h).symm, ⟨time, ?_, ht⟩, values, ?_, rfl⟩
      · rw [modelTime?_cons]
        exact number_eq_ok.mp htime
      · exact numbers_eq_ok.mp hvalues
    · rintro ⟨⟨t, _⟩, rfl, ⟨time, htime, ht⟩, values, hvalues, rfl⟩
      rw [modelTime?_cons] at htime
      exact bind_eq_ok.mpr ⟨time, number_eq_ok.mpr htime, bind_eq_ok.mpr ⟨t, ht, bind_eq_ok.mpr
        ⟨values, numbers_eq_ok.mpr hvalues, rfl⟩⟩⟩

/-- The rows of some lines are those of their words. -/
theorem rows_eq_ok {lines : List (String × ℕ)} {rows : List Row} :
    (∃ rs, lines.mapM (fun l => row path reference u l.2 l.1) = .ok rs ∧ rs.filterMap id = rows) ↔
      List.Forall₂ (IsRow reference u) ((lines.map fun l => Text.words l.1).filter (· ≠ [])) rows := by
  have hrow : ∀ (l : String × ℕ) o, row path reference u l.2 l.1 = .ok o ↔
      (¬ Text.words l.1 ≠ [] ∧ o = none) ∨
        (Text.words l.1 ≠ [] ∧ ∃ r, o = some r ∧ IsRow reference u (Text.words l.1) r) := by
    intro l o
    rw [row_eq_ok, not_not]
    refine or_congr_right ⟨?_, fun h => h.2⟩
    rintro ⟨r, rfl, hr⟩
    exact ⟨hr.ne_nil, r, rfl, hr⟩
  rw [filterMap_mapM_eq_ok hrow, List.filter_map, List.forall₂_map_left_iff]
  rfl

theorem dataNames_eq_nil_iff : dataNames text = [] ↔
    (columnNames ((Text.lines text)[1]?.getD "")).length < 2 := by
  rw [dataNames, List.drop_eq_nil_iff, Nat.lt_succ_iff]

/-- A file is read if it has units of time, columns of data and rows, and these make up columns. -/
theorem read_eq_ok : read path text reference u = .ok table ↔
    0 < u ∧ dataNames text ≠ [] ∧ ∃ rows, List.Forall₂ (IsRow reference u) (rowWords text) rows ∧
      tableOfRows path (dataNames text) rows = .ok table := by
  have hnone : columnNames "" = [] := by decide
  rw [Ne, dataNames_eq_nil_iff]
  unfold read dataNames rowWords numberedLines
  rcases Nat.eq_zero_or_pos u with rfl | hu
  · simp [bind, Except.bind, throw, throwThe, MonadExceptOf.throw]
  rw [if_neg hu.ne']
  rcases Text.lines text with _ | ⟨title, _ | ⟨header, rest⟩⟩
  · simp [hnone, throw, throwThe, MonadExceptOf.throw]
  · simp [hnone, throw, throwThe, MonadExceptOf.throw]
  · simp only [List.zipIdx_cons, List.getElem?_cons_succ, List.getElem?_cons_zero,
      Option.getD_some, List.drop_succ_cons, List.drop_zero]
    have hwords : rest.map Text.words = (rest.zipIdx 3).map fun l => Text.words l.1 := by
      rw [← List.zipIdx_map_fst 3 rest, List.map_map, List.zipIdx_map_fst]
      rfl
    split
    · simp [*, bind, Except.bind, throw, throwThe, MonadExceptOf.throw]
    next hmany =>
      rw [bind_eq_ok, hwords]
      constructor
      · rintro ⟨rs, hrs, htable⟩
        exact ⟨hu, hmany, rs.filterMap id, rows_eq_ok.mp ⟨rs, hrs, rfl⟩, htable⟩
      · rintro ⟨-, -, rows, hrows, htable⟩
        obtain ⟨rs, hrs, rfl⟩ := rows_eq_ok.mpr hrows
        exact ⟨rs, hrs, htable⟩

theorem IsRow.value_eq {row : Row} (h : IsRow reference u words row) (column : ℕ) :
    (row.2[column]?).join = value? words column := by
  obtain ⟨values, hwords, hrow⟩ := h.values
  rw [hrow, ← hwords, List.getElem?_map, value?]
  cases words.tail[column]? with
  | none => rfl
  | some word => rw [Option.map_some, Option.join_some, Option.bind_some]

/-- Every row that is read stands at a moment. -/
theorem exists_standsAt {rows : List Row} {wordss : List (List String)}
    (h : List.Forall₂ (IsRow reference u) wordss rows) :
    ∀ words ∈ wordss, ∃ t, StandsAt reference u words t := by
  have hboth := h.imp fun words row hrow => (⟨⟨row.1, hrow.standsAt⟩, hrow⟩ :
    (∃ t, StandsAt reference u words t) ∧ IsRow reference u words row)
  exact ((List.forall₂_and_left _ _).mp hboth).1

theorem IsRow.standsAt_iff {row : Row} (h : IsRow reference u words row) (t : Timestamp) :
    StandsAt reference u words t ↔ row.1 = t := by
  constructor
  · rintro ⟨time, htime, ht⟩
    obtain ⟨time', htime', ht'⟩ := h.standsAt
    obtain rfl := Option.some.inj (htime.symm.trans htime')
    exact Except.ok.inj (ht'.symm.trans ht)
  · rintro rfl
    exact h.standsAt

/-- The points of a column are what the rows say. -/
theorem mem_columnPoints {rows : List Row} {wordss : List (List String)}
    (h : List.Forall₂ (IsRow reference u) wordss rows) {v : Option Double} :
    (t, v) ∈ columnPoints rows column ↔
      ∃ words ∈ wordss, StandsAt reference u words t ∧ value? words column = v :=
  DataFile.mem_columnPoints (value? · column)
    (h.imp fun _ _ hrow => ⟨hrow.standsAt_iff, hrow.value_eq column⟩)

/-! ## Moments -/

/-- Milliseconds of a model time behind the reference moment. -/
def millis (u : ℕ) (time : Double) : ℤ :=
  Decimal.roundToWord64 ((time - 1.0) * Double.ofNat (unitMillis u))

theorem since_of_moment (h : moment reference u time = .ok t) :
    t.since reference = millis u time * 1000000 := by
  unfold moment at h
  dsimp only at h
  split at h
  case h_2 => cases h
  case h_1 t' hplus =>
    obtain rfl := Except.ok.inj h
    rw [Timestamp.since, Timestamp.plus?_eq_some hplus, add_sub_cancel_left]
    rfl

/-- Model times that floats have to a fraction of a millisecond, which is so for thirty-five thousand
years on either side of the reference moment. -/
def Moderate (u : ℕ) (time : Double) : Prop :=
  time.isFinite = true ∧ |time.toRat - 1| * (unitMillis u + 1) ≤ 2 ^ 50

theorem literal_one : (1.0 : Double) = .one :=
  congrArg Double.mk (by decide +kernel : (1.0 : Double).bits = Double.one.bits)

theorem unitMillis_le (u : ℕ) : unitMillis u ≤ 86400000 := Nat.div_le_self _ _

theorem Moderate.abs_le (h : Moderate u time) : |time.toRat - 1| ≤ 2 ^ 50 ∧
    |(time.toRat - 1) * unitMillis u| ≤ 2 ^ 50 := by
  have hsize := h.2
  have hunit : (0 : ℚ) ≤ unitMillis u := Nat.cast_nonneg _
  have hoffset := abs_nonneg (time.toRat - 1)
  have hproduct := mul_nonneg hoffset hunit
  rw [mul_add, mul_one] at hsize
  rw [abs_mul, abs_of_nonneg hunit]
  constructor <;> linarith

theorem unit_eq (u : ℕ) : (Double.ofNat (unitMillis u)).isFinite = true ∧
    (Double.ofNat (unitMillis u)).toRat = unitMillis u :=
  Double.ofNat_eq ((unitMillis_le u).trans_lt (by decide))

/-- The milliseconds of whole model times are exact. -/
theorem millis_of_whole (h : Moderate u time) {n : ℤ} (hn : time.toRat = 1 + n) :
    millis u time = n * unitMillis u := by
  obtain ⟨hoffset, hproduct⟩ := h.abs_le
  rw [hn, add_sub_cancel_left] at hoffset hproduct
  have hn' : |n| ≤ 2 ^ 50 := by exact_mod_cast hoffset
  have hn'' : |n * unitMillis u| ≤ 2 ^ 50 := by exact_mod_cast hproduct
  obtain ⟨hfinite, hvalue⟩ := Double.toRat_sub_of_whole h.1 Double.one_eq.1 (n := n)
    (by rw [hn, Double.one_eq.2, add_sub_cancel_left]) (hn'.trans_lt (by norm_num))
  obtain ⟨hfinite', hvalue'⟩ := Double.toRat_mul_of_whole hfinite (unit_eq u).1
    (n := n * unitMillis u) (by rw [hvalue, (unit_eq u).2]; norm_cast)
    (hn''.trans_lt (by norm_num))
  have hsmall : |((time - Double.one) * Double.ofNat (unitMillis u)).toRat| < 2 ^ 62 := by
    rw [hvalue', ← Int.cast_abs]
    exact_mod_cast hn''.trans_lt (by norm_num)
  have hnear := Decimal.abs_nearest_sub_le ((time - Double.one) * Double.ofNat (unitMillis u))
  rw [millis, literal_one, Decimal.roundToWord64_eq hfinite' hsmall]
  rw [hvalue', ← Int.cast_sub, ← Int.cast_abs] at hnear
  have hzero : |Decimal.nearest ((time - Double.one) * Double.ofNat (unitMillis u)) -
      n * unitMillis u| < 1 := by
    have hlt := hnear.trans_lt (by norm_num : (1 / 2 : ℚ) < 1)
    exact_mod_cast hlt
  rwa [Int.abs_lt_one_iff, sub_eq_zero] at hzero

theorem least_le : (2 : ℚ) ^ (-1074 : ℤ) ≤ 1 / 2 ^ 60 := by
  rw [one_div, ← zpow_natCast, ← zpow_neg]
  exact zpow_le_zpow_right₀ one_le_two (by decide)

theorem large_lt : (2 : ℚ) ^ 51 < 2 ^ (1020 : ℤ) := by
  rw [← zpow_natCast]
  exact zpow_lt_zpow_right₀ one_lt_two (by decide)

/-- What the rounding of the difference is worth in milliseconds. -/
theorem abs_difference_sub_le (h : Moderate u time) : (time - .one).isFinite = true ∧
    |(time - .one).toRat * unitMillis u - (time.toRat - 1) * unitMillis u| ≤ 1 / 6 := by
  obtain ⟨hoffset, hproduct⟩ := h.abs_le
  have hunitLow : (0 : ℚ) ≤ unitMillis u := Nat.cast_nonneg _
  have hunitHigh : (unitMillis u : ℚ) ≤ 86400000 := by exact_mod_cast unitMillis_le u
  have hsize : |time.toRat - Double.one.toRat| < 2 ^ (1020 : ℤ) := by
    rw [Double.one_eq.2]
    exact hoffset.trans_lt (lt_trans (by norm_num) large_lt)
  obtain ⟨hfinite, _, hrounds⟩ := Double.sub_rounds h.1 Double.one_eq.1 hsize
  refine ⟨hfinite, ?_⟩
  have hdiff := hrounds.abs_sub_le
  rw [Double.one_eq.2] at hdiff
  have hmul := mul_le_mul_of_nonneg_right hdiff hunitLow
  have hleast := mul_le_mul least_le hunitHigh hunitLow (by norm_num)
  rw [abs_mul, abs_of_nonneg hunitLow] at hproduct
  rw [← sub_mul, abs_mul, abs_of_nonneg hunitLow]
  rw [add_mul, div_mul_eq_mul_div] at hmul
  linarith

theorem abs_millis_sub_le (h : Moderate u time) :
    |(millis u time : ℚ) - (time.toRat - 1) * unitMillis u| ≤ 1 := by
  obtain ⟨-, hproduct⟩ := h.abs_le
  obtain ⟨hunitFinite, hunit⟩ := unit_eq u
  obtain ⟨hfinite, hdiff⟩ := abs_difference_sub_le h
  have hmoved : |(time - .one).toRat * unitMillis u| ≤ 2 ^ 50 + 1 / 6 := by
    have htriangle := abs_add_le ((time - .one).toRat * unitMillis u -
      (time.toRat - 1) * unitMillis u) ((time.toRat - 1) * unitMillis u)
    rw [sub_add_cancel] at htriangle
    linarith
  rw [← hunit] at hmoved
  obtain ⟨hfinite', _, hrounds⟩ := Double.mul_rounds hfinite hunitFinite
    (hmoved.trans_lt (lt_trans (by norm_num) large_lt))
  have herror := hrounds.abs_sub_le
  rw [hunit] at herror hmoved
  have hnear := Decimal.abs_nearest_sub_le ((time - .one) * .ofNat (unitMillis u))
  have hleast := least_le
  have hsmall : |((time - .one) * .ofNat (unitMillis u)).toRat| < 2 ^ 62 := by
    rw [abs_le] at herror hmoved
    rw [abs_lt]
    constructor <;> linarith [abs_le.mpr hmoved]
  rw [millis, literal_one, Decimal.roundToWord64_eq hfinite' hsmall]
  rw [abs_le] at hnear herror hdiff ⊢
  constructor <;> linarith

/-- Where a model time is: within a millisecond of as many units of whole milliseconds. That is its
exact moment if these units make up a day, and whole days are at their days just if they do. -/
structure Placed (reference : Timestamp) (u : ℕ) (time : Double) (t : Timestamp) : Prop where
  near : |(t.since reference : ℚ) - (time.toRat - 1) * unitMillis u * 1000000| ≤ 1000000
  due : u ∣ 86400000 →
    |(t.since reference : ℚ) - (time.toRat - 1) / u * Timestamp.dayNanos| ≤ 1000000
  day : ∀ k : ℤ, time.toRat = 1 + k * u →
    (t.since reference = k * Timestamp.dayNanos ↔ k = 0 ∨ u ∣ 86400000)

theorem mul_unitMillis_eq_iff : u * unitMillis u = 86400000 ↔ u ∣ 86400000 :=
  ⟨Dvd.intro _, Nat.mul_div_cancel'⟩

theorem since_of_whole (ht : moment reference u time = .ok t) (h : Moderate u time) {n : ℤ}
    (hn : time.toRat = 1 + n) : t.since reference = n * unitMillis u * 1000000 := by
  rw [since_of_moment ht, millis_of_whole h hn]

theorem abs_since_sub_le (ht : moment reference u time = .ok t) (h : Moderate u time) :
    |(t.since reference : ℚ) - (time.toRat - 1) * unitMillis u * 1000000| ≤ 1000000 := by
  have hsince : (t.since reference : ℚ) = millis u time * 1000000 := by
    exact_mod_cast since_of_moment ht
  rw [hsince, ← sub_mul, abs_mul, abs_of_pos (by norm_num : (0 : ℚ) < 1000000)]
  linarith [abs_millis_sub_le h]

theorem placed_of_moment (hu : 0 < u) (ht : moment reference u time = .ok t)
    (h : Moderate u time) : Placed reference u time t where
  near := abs_since_sub_le ht h
  due hdvd := by
    have hunit : ((unitMillis u : ℕ) : ℚ) = 86400000 / u := by
      rw [eq_div_iff (by positivity), mul_comm]
      exact_mod_cast mul_unitMillis_eq_iff.mpr hdvd
    have hday : (time.toRat - 1) / u * Timestamp.dayNanos =
        (time.toRat - 1) * unitMillis u * 1000000 := by
      rw [hunit, show Timestamp.dayNanos = 86400000 * 1000000 from rfl]
      push_cast
      ring
    rw [hday]
    exact abs_since_sub_le ht h
  day k hk := by
    have hwhole := since_of_whole ht h (n := k * u) (by rw [hk]; push_cast; rfl)
    have hday : k * Timestamp.dayNanos = k * 86400000 * 1000000 := by
      rw [show Timestamp.dayNanos = 86400000 * 1000000 from rfl, mul_assoc]
    rw [hwhole, hday, Int.mul_eq_mul_right_iff (by decide), mul_assoc, mul_eq_mul_left_iff,
      or_comm, ← mul_unitMillis_eq_iff]
    exact or_congr_right (by norm_cast)

theorem Placed.eq_day (h : Placed reference u time t) {k : ℤ} (hk : time.toRat = 1 + k * u)
    (hdvd : u ∣ 86400000) : t = ⟨reference.nanos + k * Timestamp.dayNanos⟩ := by
  have hday := (h.day k hk).mpr (.inr hdvd)
  rw [Timestamp.since] at hday
  exact Timestamp.ext (by dsimp only; omega)

/-- Whole model times are whole seconds apart if a unit is a whole number of seconds. -/
theorem secondNanos_dvd_since (hdvd : u ∣ 86400) (ht : moment reference u time = .ok t)
    (h : Moderate u time) {n : ℤ} (hn : time.toRat = 1 + n) :
    Timestamp.secondNanos ∣ t.since reference := by
  have hunit : unitMillis u = 86400 / u * 1000 := by
    rw [unitMillis, show 86400000 = 86400 * 1000 from rfl, Nat.div_mul_right_comm hdvd]
  rw [since_of_whole ht h hn, hunit, Timestamp.secondNanos]
  exact ⟨n * (86400 / u : ℕ), by push_cast; ring⟩

end Hydroseries.DataFile.Gage
