import Hydroseries.Store.Frame
import Hydroseries.Proofs.Series.Alignment

/-!
# Frames under joining and dropping

A frame is consistent if its index increases and every column has one place for each moment of it.
Joining a series spreads it and all columns over the union of the indices
(`Consistent.column?_join`); dropping a column leaves the others as they are (`column?_drop`). Both
keep frames consistent.
-/

namespace Hydroseries.Frame

/-! ## Union of indices -/

theorem mem_unionGo {acc ss ts : List Timestamp} {t : Timestamp} :
    t ∈ unionGo acc ss ts ↔ t ∈ acc ∨ t ∈ ss ∨ t ∈ ts := by
  fun_induction unionGo acc ss ts with
  | case1 => simp
  | case2 => simp
  | case3 acc s ss u us hlt ih =>
    rw [ih]
    simp only [List.mem_cons]
    tauto
  | case4 acc s ss us hlt ih =>
    rw [ih]
    simp only [List.mem_cons]
    tauto
  | case5 acc s ss u us hlt hne ih =>
    rw [ih]
    simp only [List.mem_cons]
    tauto

theorem mem_union {ss ts : List Timestamp} {t : Timestamp} :
    t ∈ union ss ts ↔ t ∈ ss ∨ t ∈ ts := by
  simp [union, mem_unionGo]

/-- An earlier moment goes before what increases from a later one. -/
theorem increasing_insert {before after rest : List Timestamp} {s t : Timestamp} (hlt : s < t)
    (hs : Increasing (before ++ s :: rest)) (ht : Increasing (before ++ t :: after)) :
    Increasing (before ++ s :: t :: after) := by
  obtain ⟨hbefore, -, hbs⟩ := List.pairwise_append.mp hs
  obtain ⟨-, htail, hbt⟩ := List.pairwise_append.mp ht
  refine List.pairwise_append.mpr ⟨hbefore, List.Pairwise.cons ?_ htail, ?_⟩
  · intro u hu
    rcases List.mem_cons.mp hu with rfl | hu
    · exact hlt
    · exact hlt.trans (List.rel_of_pairwise_cons htail hu)
  · intro a ha u hu
    rcases List.mem_cons.mp hu with rfl | hu
    · exact hbs a ha _ List.mem_cons_self
    · exact hbt a ha u hu

theorem increasing_unionGo {acc ss ts : List Timestamp} (hs : Increasing (acc.reverse ++ ss))
    (ht : Increasing (acc.reverse ++ ts)) : Increasing (unionGo acc ss ts) := by
  fun_induction unionGo acc ss ts with
  | case1 => exact ht
  | case2 => exact hs
  | case3 acc s ss u us hlt ih =>
    refine ih ?_ ?_
    · rwa [List.reverse_cons, List.append_assoc]
    · rw [List.reverse_cons, List.append_assoc]
      exact increasing_insert hlt hs ht
  | case4 acc s ss us hlt ih =>
    refine ih ?_ ?_ <;> rwa [List.reverse_cons, List.append_assoc]
  | case5 acc s ss u us hlt hne ih =>
    refine ih ?_ ?_
    · rw [List.reverse_cons, List.append_assoc]
      exact increasing_insert (lt_of_le_of_ne (not_lt.mp hlt) (Ne.symm hne)) ht hs
    · rwa [List.reverse_cons, List.append_assoc]

theorem increasing_union {ss ts : List Timestamp} (hs : Increasing ss) (ht : Increasing ts) :
    Increasing (union ss ts) :=
  increasing_unionGo hs ht

/-! ## Consistent frames -/

/-- The index increases, names are distinct, and every column is as long as the index. -/
structure Consistent (f : Frame) : Prop where
  increasing : Increasing f.index
  nodup : f.columns.keys.Nodup
  length : ∀ {name column}, f.columns.find? name = some column → column.length = f.index.length

theorem consistent_empty : Consistent empty where
  increasing := .nil
  nodup := .nil
  length h := by cases h

/-- The index of a frame after a series has joined. -/
def wide (f : Frame) (s : Series) : List Timestamp := union f.index s.index

theorem mem_wide {f : Frame} {s : Series} {t : Timestamp} :
    t ∈ f.wide s ↔ t ∈ f.index ∨ t ∈ s.index := mem_union

theorem increasing_wide {f : Frame} {s : Series} (hf : Increasing f.index)
    (hs : Increasing s.index) : Increasing (f.wide s) := increasing_union hf hs

@[simp] theorem index_join (f : Frame) (name : EntityName) (s : Series) :
    (f.join name s).index = f.wide s := rfl

theorem find?_columns_join (f : Frame) (name other : EntityName) (s : Series) :
    (f.join name s).columns.find? other =
      if other = name then some (TimeSeries.align s.points (f.wide s))
      else (f.columns.find? other).map fun column =>
        TimeSeries.align (f.index.zip column) (f.wide s) := by
  simp only [join, OrderedMap.find?_insert, OrderedMap.find?_map]
  rfl

theorem find?_columns_drop (f : Frame) (name other : EntityName) :
    (f.drop name).columns.find? other = if other = name then none else f.columns.find? other :=
  OrderedMap.find?_erase f.columns name other

/-- The points of a column lie at the moments of the index. -/
theorem Consistent.map_fst_zip {f : Frame} (hf : f.Consistent) {name : EntityName}
    {column : List (Option Double)} (h : f.columns.find? name = some column) :
    (f.index.zip column).map Prod.fst = f.index :=
  List.map_fst_zip (hf.length h).ge

theorem Consistent.increasing_zip {f : Frame} (hf : f.Consistent) {name : EntityName}
    {column : List (Option Double)} (h : f.columns.find? name = some column) :
    Increasing ((f.index.zip column).map Prod.fst) := by
  rw [hf.map_fst_zip h]
  exact hf.increasing

/-- A consistent frame stays so when a series joins. -/
theorem Consistent.join {f : Frame} (hf : f.Consistent) (name : EntityName) {s : Series}
    (hs : Increasing s.index) : (f.join name s).Consistent where
  increasing := increasing_wide hf.increasing hs
  nodup := OrderedMap.nodup_insert (by rw [OrderedMap.keys_map]; exact hf.nodup) _ _
  length {other column} h := by
    have hwide := increasing_wide hf.increasing hs
    rw [find?_columns_join] at h
    split at h
    · rw [← Option.some.inj h, TimeSeries.align_eq hs hwide, List.length_map]
      rfl
    · obtain ⟨old, hold, rfl⟩ := Option.map_eq_some_iff.mp h
      rw [TimeSeries.align_eq (hf.increasing_zip hold) hwide, List.length_map]
      rfl

/-- A consistent frame stays so when a column is dropped. -/
theorem Consistent.drop {f : Frame} (hf : f.Consistent) (name : EntityName) :
    (f.drop name).Consistent where
  increasing := hf.increasing
  nodup := OrderedMap.nodup_erase hf.nodup name
  length {other column} h := by
    rw [find?_columns_drop] at h
    split at h
    · cases h
    · exact hf.length h

/-! ## Columns as points -/

theorem column?_eq_some {f : Frame} {name : EntityName} {ps : List (Timestamp × Option Double)} :
    f.column? name = some ps ↔
      ∃ column, f.columns.find? name = some column ∧ f.index.zip column = ps :=
  Option.map_eq_some_iff

theorem isSome_column? (f : Frame) (name : EntityName) :
    (f.column? name).isSome = (f.columns.find? name).isSome := by
  simp [column?]

theorem Consistent.map_fst_column? {f : Frame} (hf : f.Consistent) {name : EntityName}
    {ps : List (Timestamp × Option Double)} (h : f.column? name = some ps) :
    ps.map Prod.fst = f.index := by
  obtain ⟨column, hcolumn, rfl⟩ := column?_eq_some.mp h
  exact hf.map_fst_zip hcolumn

/-- Joining spreads the series and all columns over the wide index. -/
theorem Consistent.column?_join {f : Frame} (hf : f.Consistent) (name other : EntityName)
    {s : Series} (hs : Increasing s.index) :
    (f.join name s).column? other =
      if other = name then some (s.spread (f.wide s)).points
      else (f.column? other).map fun ps => (TimeSeries.spread ⟨ps⟩ (f.wide s)).points := by
  have hwide := increasing_wide hf.increasing hs
  unfold column?
  rw [find?_columns_join, index_join]
  split
  · rw [Option.map_some, TimeSeries.zip_align hs hwide]
  · cases hcolumn : f.columns.find? other with
    | none => rfl
    | some column =>
      rw [Option.map_some, Option.map_some, Option.map_some, Option.map_some,
        TimeSeries.zip_align (hf.increasing_zip hcolumn) hwide]

/-- Dropping a column leaves the others as they are. -/
theorem column?_drop (f : Frame) (name other : EntityName) :
    (f.drop name).column? other = if other = name then none else f.column? other := by
  unfold column?
  rw [find?_columns_drop]
  split <;> rfl

end Hydroseries.Frame
