import Hydroseries.Stat.Summary
import Mathlib.Algebra.Order.Group.Int
import Mathlib.Data.List.Basic

/-!
# Extremes and blocks of positions

The extreme of a list of doubles is one of them, and no number of the list lies beyond it
(`least_of_min?`, `greatest_of_max?`). The means of blocks are those of the values in each window of so
many consecutive positions, windows without values left out (`mem_blockMeans`).
-/

namespace Hydroseries

theorem Double.le_iff {x y : Double} :
    x ≤ y ↔ x.isNaN = false ∧ y.isNaN = false ∧ x.rank ≤ y.rank := by
  show (less x y || equal x y) = true ↔ _
  rw [Bool.or_eq_true, less_iff, equal_iff, ← and_or_left, ← and_or_left, le_iff_lt_or_eq]

theorem Double.lt_iff {x y : Double} :
    x < y ↔ x.isNaN = false ∧ y.isNaN = false ∧ x.rank < y.rank := less_iff x y

namespace Stat

/-! ## Extremes -/

section Extremes

variable {place : Double → ℤ} {choose : Double → Double → Double}

/-- Both are numbers, and the place of the first one is not behind that of the second one. -/
def Ahead (place : Double → ℤ) (x y : Double) : Prop :=
  x.isNaN = false ∧ y.isNaN = false ∧ place x ≤ place y

/-- The choice of the double that is ahead, which passes over what is not a number. -/
def Chooses (place : Double → ℤ) (choose : Double → Double → Double) : Prop :=
  ∀ a b, choose a b =
    if a.isNaN = true then b else if b.isNaN = false ∧ place b < place a then b else a

theorem Chooses.spec (h : Chooses place choose) (a b : Double) :
    (choose a b = a ∨ choose a b = b) ∧ (a.isNaN = false → Ahead place (choose a b) a) ∧
      (b.isNaN = false → Ahead place (choose a b) b) := by
  rw [h a b]
  unfold Ahead
  by_cases ha : a.isNaN = true
  · simp [ha]
  · by_cases hb : b.isNaN = false ∧ place b < place a
    · simp [ha, hb, hb.2.le]
    · rw [if_neg ha, if_neg hb]
      refine ⟨.inl rfl, fun h => ⟨h, h, le_rfl⟩, fun h => ⟨Bool.eq_false_iff.mpr ha, h, ?_⟩⟩
      exact not_lt.mp fun hlt => hb ⟨h, hlt⟩

/-- The choice is taken from the left: what has been chosen is ahead of what has been passed. -/
theorem Chooses.foldl (h : Chooses place choose) (v : Double) (rest : List Double) :
    rest.foldl choose v ∈ v :: rest ∧
      ∀ w ∈ v :: rest, w.isNaN = false → Ahead place (rest.foldl choose v) w := by
  induction rest generalizing v with
  | nil => simp [Ahead]
  | cons b rest ih =>
    obtain ⟨hchoice, hleft, hright⟩ := h.spec v b
    obtain ⟨hmem, hahead⟩ := ih (choose v b)
    rw [List.foldl_cons]
    rw [List.forall_mem_cons] at hahead
    have hthrough {w : Double} (hw : Ahead place (choose v b) w) :
        Ahead place (rest.foldl choose (choose v b)) w :=
      have hfirst := hahead.1 hw.1
      ⟨hfirst.1, hw.2.1, hfirst.2.2.trans hw.2.2⟩
    refine ⟨?_, ?_⟩
    · rcases List.mem_cons.mp hmem with hr | hr
      · rw [hr]
        rcases hchoice with hc | hc
        · simp [hc]
        · simp [hc]
      · exact List.mem_cons_of_mem _ (List.mem_cons_of_mem _ hr)
    · rw [List.forall_mem_cons, List.forall_mem_cons]
      exact ⟨fun hv => hthrough (hleft hv), fun hb => hthrough (hright hb), hahead.2⟩

end Extremes

theorem chooses_min : Chooses Double.rank Arith.min := by
  intro a b
  show (if a.isNaN = true then b else if b < a then b else a) = _
  by_cases ha : a.isNaN = true <;> simp [Double.lt_iff, ha]

theorem chooses_max : Chooses (fun x => -x.rank) Arith.max := by
  intro a b
  show (if a.isNaN = true then b else if a < b then b else a) = _
  by_cases ha : a.isNaN = true <;> simp [Double.lt_iff, ha]

variable {vs : List Double} {v : Double}

/-- The least of some doubles is one of them, and no number among them is less. -/
theorem least_of_min? (h : min? vs = some v) : v ∈ vs ∧ ∀ w ∈ vs, w.isNaN = false → v ≤ w := by
  cases vs with
  | nil => cases h
  | cons u rest =>
    obtain rfl := Option.some.inj h
    obtain ⟨hmem, hahead⟩ := chooses_min.foldl u rest
    exact ⟨hmem, fun w hw hnumber => Double.le_iff.mpr (hahead w hw hnumber)⟩

/-- The greatest of some doubles is one of them, and no number among them is greater. -/
theorem greatest_of_max? (h : max? vs = some v) : v ∈ vs ∧ ∀ w ∈ vs, w.isNaN = false → w ≤ v := by
  cases vs with
  | nil => cases h
  | cons u rest =>
    obtain rfl := Option.some.inj h
    obtain ⟨hmem, hahead⟩ := chooses_max.foldl u rest
    refine ⟨hmem, fun w hw hnumber => Double.le_iff.mpr ?_⟩
    obtain ⟨hv, hw, hplace⟩ := hahead w hw hnumber
    exact ⟨hw, hv, Int.neg_le_neg_iff.mp hplace⟩

/-! ## Blocks of positions -/

section Blocks

variable {β : Type} {size : ℕ} {xs block : List β}

/-- The values at the positions of a block, from `size * number` on. -/
def valuesOfBlock (values : List (Option β)) (size number : ℕ) : List β :=
  ((values.drop (size * number)).take size).filterMap id

theorem mem_chunksGo {fuel : ℕ} (hsize : 0 < size) (hfuel : xs.length ≤ fuel) :
    block ∈ chunksGo size fuel xs ↔
      ∃ number, size * number < xs.length ∧ block = (xs.drop (size * number)).take size := by
  induction fuel generalizing xs with
  | zero =>
    obtain rfl := List.length_eq_zero_iff.mp (Nat.le_zero.mp hfuel)
    simp [chunksGo]
  | succ fuel ih =>
    cases xs with
    | nil => simp [chunksGo]
    | cons x rest =>
      have hdrop : ((x :: rest).drop size).length ≤ fuel := by
        rw [List.length_drop]
        omega
      rw [chunksGo, List.isEmpty_cons, if_neg Bool.false_ne_true, List.mem_cons, ih hdrop]
      refine Iff.trans ?_ Nat.or_exists_add_one
      refine or_congr ?_ (exists_congr fun number => and_congr ?_ ?_)
      · simp
      · rw [List.length_drop, Nat.mul_succ]
        omega
      · rw [List.drop_drop, Nat.mul_succ, Nat.add_comm size]

theorem mem_chunks (hsize : 0 < size) : block ∈ chunks size xs ↔
    ∃ number, size * number < xs.length ∧ block = (xs.drop (size * number)).take size :=
  mem_chunksGo hsize le_rfl

/-- Nothing is lost between the pieces. -/
theorem flatten_chunksGo {fuel : ℕ} (hsize : 0 < size) (hfuel : xs.length ≤ fuel) :
    (chunksGo size fuel xs).flatten = xs := by
  induction fuel generalizing xs with
  | zero =>
    obtain rfl := List.length_eq_zero_iff.mp (Nat.le_zero.mp hfuel)
    rfl
  | succ fuel ih =>
    cases xs with
    | nil => rfl
    | cons x rest =>
      have hdrop : ((x :: rest).drop size).length ≤ fuel := by
        rw [List.length_drop]
        omega
      rw [chunksGo, List.isEmpty_cons, if_neg Bool.false_ne_true, List.flatten_cons, ih hdrop,
        List.take_append_drop]

theorem flatten_chunks (hsize : 0 < size) (xs : List β) : (chunks size xs).flatten = xs :=
  flatten_chunksGo hsize le_rfl

end Blocks

/-- A block has a mean if it has a value. -/
theorem mem_blockMeans {α : Type} [Arith α] {values : List (Option α)} {size : ℕ} (hsize : 0 < size)
    {m : α} : m ∈ blockMeans values size ↔
      ∃ number, valuesOfBlock values size number ≠ [] ∧
        m = Arith.mean (valuesOfBlock values size number) := by
  have hmean {vs : List α} : mean? vs = some m ↔ vs ≠ [] ∧ m = Arith.mean vs := by
    cases vs <;> simp [mean?, eq_comm]
  rw [blockMeans, if_neg hsize.ne', List.mem_filterMap]
  constructor
  · rintro ⟨block, hblock, h⟩
    obtain ⟨number, -, rfl⟩ := (mem_chunks hsize).mp hblock
    exact ⟨number, hmean.mp h⟩
  · rintro ⟨number, hne, hm⟩
    -- A block behind the last position has no values.
    have hinside : size * number < values.length := by
      by_contra hlast
      exact hne (by rw [valuesOfBlock, List.drop_of_length_le (not_lt.mp hlast), List.take_nil]; rfl)
    exact ⟨_, (mem_chunks hsize).mpr ⟨number, hinside, rfl⟩, hmean.mpr ⟨hne, hm⟩⟩

end Stat

end Hydroseries
