/-!
# Maps in order of insertion

A map is the list of its entries. A key keeps the place of its first insertion when its value is
replaced, and the places of the others when it is erased.
-/

namespace Hydroseries

structure OrderedMap (κ : Type) (β : Type) where
  entries : List (κ × β)
  deriving DecidableEq, Repr

namespace OrderedMap

variable {κ β γ : Type} [DecidableEq κ]

instance : Inhabited (OrderedMap κ β) := ⟨⟨[]⟩⟩

def empty : OrderedMap κ β := ⟨[]⟩

/-- The value of the first entry of a key. -/
def find? (m : OrderedMap κ β) (k : κ) : Option β :=
  (m.entries.find? fun e => decide (e.1 = k)).map Prod.snd

def contains (m : OrderedMap κ β) (k : κ) : Bool := m.entries.any fun e => decide (e.1 = k)

/-- Replaces the value of the first entry of `k`, or adds an entry at the end. -/
def insertEntry (k : κ) (v : β) : List (κ × β) → List (κ × β)
  | [] => [(k, v)]
  | e :: rest => if e.1 = k then (k, v) :: rest else e :: insertEntry k v rest

/-- Binds `k` to `v`. A key that is bound keeps its place. -/
def insert (m : OrderedMap κ β) (k : κ) (v : β) : OrderedMap κ β := ⟨insertEntry k v m.entries⟩

/-- Removes the entry of `k`; the others keep their order. -/
def erase (m : OrderedMap κ β) (k : κ) : OrderedMap κ β :=
  ⟨m.entries.filter fun e => decide (e.1 ≠ k)⟩

def keys (m : OrderedMap κ β) : List κ := m.entries.map Prod.fst

/-- The values in the order of their keys. -/
def values (m : OrderedMap κ β) : List β := m.entries.map Prod.snd

def size (m : OrderedMap κ β) : Nat := m.entries.length

def isEmpty (m : OrderedMap κ β) : Bool := m.entries.isEmpty

/-- Applies `f` to every value. -/
def map (f : β → γ) (m : OrderedMap κ β) : OrderedMap κ γ :=
  ⟨m.entries.map fun e => (e.1, f e.2)⟩

/-- Keeps the entries whose value satisfies `p`. -/
def filter (p : β → Bool) (m : OrderedMap κ β) : OrderedMap κ β :=
  ⟨m.entries.filter fun e => p e.2⟩

/-- Inserts the pairs from left to right. -/
def ofList (pairs : List (κ × β)) : OrderedMap κ β :=
  pairs.foldl (fun m e => m.insert e.1 e.2) empty

@[simp] theorem find?_empty (k : κ) : (empty : OrderedMap κ β).find? k = none := rfl

/-- Looking up the inserted key gives the inserted value; the other keys are as before. -/
theorem find?_insert (m : OrderedMap κ β) (k k' : κ) (v : β) :
    (m.insert k v).find? k' = if k' = k then some v else m.find? k' := by
  simp only [insert, find?]
  induction m.entries with
  | nil => by_cases h : k = k' <;> simp [insertEntry, h, eq_comm]
  | cons e rest ih => grind [insertEntry]

/-- An erased key is gone; the other keys are as before. -/
theorem find?_erase (m : OrderedMap κ β) (k k' : κ) :
    (m.erase k).find? k' = if k' = k then none else m.find? k' := by
  simp only [erase, find?]
  induction m.entries with
  | nil => simp
  | cons e rest ih => grind

/-- Insertion adds the key at the end unless it is there. -/
theorem keys_insert (m : OrderedMap κ β) (k : κ) (v : β) :
    (m.insert k v).keys = if k ∈ m.keys then m.keys else m.keys ++ [k] := by
  obtain ⟨entries⟩ := m
  simp only [insert, keys]
  induction entries with
  | nil => simp [insertEntry]
  | cons e rest ih => grind [insertEntry]

/-! ### Entries and look-up -/

/-- A key is there if it has a value. -/
theorem contains_eq (m : OrderedMap κ β) (k : κ) : m.contains k = (m.find? k).isSome := by
  simp only [contains, find?]
  induction m.entries with
  | nil => rfl
  | cons e rest ih => grind

/-- What is looked up is an entry. -/
theorem mem_of_find? {m : OrderedMap κ β} {k : κ} {v : β} (h : m.find? k = some v) :
    (k, v) ∈ m.entries := by
  obtain ⟨⟨k', v'⟩, hfind, rfl⟩ := Option.map_eq_some_iff.mp h
  have hkey := List.find?_some hfind
  simp only [decide_eq_true_eq] at hkey
  subst hkey
  exact List.mem_of_find?_eq_some hfind

/-- With distinct keys, every entry is looked up. -/
theorem find?_of_mem {m : OrderedMap κ β} (hm : m.keys.Nodup) {k : κ} {v : β}
    (h : (k, v) ∈ m.entries) : m.find? k = some v := by
  obtain ⟨entries⟩ := m
  simp only [keys, find?] at *
  induction entries with
  | nil => cases h
  | cons e rest ih => grind

theorem find?_isSome_iff {m : OrderedMap κ β} {k : κ} : (m.find? k).isSome ↔ k ∈ m.keys := by
  obtain ⟨entries⟩ := m
  simp only [keys, find?]
  induction entries with
  | nil => simp
  | cons e rest ih => grind

/-- Looking up in a mapped map is mapping what is looked up. -/
theorem find?_map (f : β → γ) (m : OrderedMap κ β) (k : κ) :
    (m.map f).find? k = (m.find? k).map f := by
  obtain ⟨entries⟩ := m
  simp only [map, find?]
  induction entries with
  | nil => rfl
  | cons e rest ih => grind

/-- With distinct keys, the entries of a key are what is looked up. -/
theorem filter_key {m : OrderedMap κ β} (hm : m.keys.Nodup) (k : κ) :
    m.entries.filter (fun e => decide (e.1 = k)) = (m.find? k).toList.map fun v => (k, v) := by
  obtain ⟨entries⟩ := m
  simp only [keys, find?] at *
  induction entries with
  | nil => rfl
  | cons e rest ih =>
    rw [List.map_cons, List.nodup_cons] at hm
    by_cases h : e.1 = k
    · -- No other entry has the key of the first one.
      have hrest : rest.filter (fun e => decide (e.1 = k)) = [] := by
        simp only [List.filter_eq_nil_iff, decide_eq_true_eq]
        exact fun e' he' hk => hm.1 (h.trans hk.symm ▸ List.mem_map_of_mem he')
      subst h
      simp [hrest]
    · simpa [h] using ih hm.2

/-- With distinct keys, lists that are empty for all entries but those of one key add up to the list
for that key. -/
theorem flatMap_key {m : OrderedMap κ β} (hm : m.keys.Nodup) (k : κ) (g : κ × β → List γ)
    (hg : ∀ e ∈ m.entries, e.1 ≠ k → g e = []) :
    m.entries.flatMap g = (m.find? k).toList.flatMap fun v => g (k, v) := by
  have hfilter : ∀ entries : List (κ × β), (∀ e ∈ entries, e.1 ≠ k → g e = []) →
      entries.flatMap g = (entries.filter fun e => decide (e.1 = k)).flatMap g := by
    intro entries h
    induction entries with
    | nil => rfl
    | cons e rest ih => grind
  rw [hfilter m.entries hg, filter_key hm, List.flatMap_map]

/-- A map is without entries if no key has a value. -/
theorem isEmpty_iff {m : OrderedMap κ β} : m.isEmpty = true ↔ ∀ k, m.find? k = none := by
  obtain ⟨entries⟩ := m
  cases entries with
  | nil => simp [isEmpty, find?]
  | cons e rest =>
    simp only [isEmpty, find?, List.isEmpty_cons, Bool.false_eq_true, false_iff]
    intro hnone
    simpa using hnone e.1

/-! ### Distinct keys -/

omit [DecidableEq κ] in
@[simp] theorem keys_map (f : β → γ) (m : OrderedMap κ β) : (m.map f).keys = m.keys := by
  simp [map, keys]

theorem nodup_insert {m : OrderedMap κ β} (hm : m.keys.Nodup) (k : κ) (v : β) :
    (m.insert k v).keys.Nodup := by
  rw [keys_insert]
  split
  · exact hm
  · grind [List.nodup_append]

theorem nodup_erase {m : OrderedMap κ β} (hm : m.keys.Nodup) (k : κ) : (m.erase k).keys.Nodup :=
  hm.sublist (List.filter_sublist.map Prod.fst)

theorem nodup_ofList (pairs : List (κ × β)) : (ofList pairs).keys.Nodup := by
  suffices h : ∀ m : OrderedMap κ β, m.keys.Nodup →
      (pairs.foldl (fun m e => m.insert e.1 e.2) m).keys.Nodup from h empty List.nodup_nil
  induction pairs with
  | nil => exact fun m hm => hm
  | cons e pairs ih => exact fun m hm => ih _ (nodup_insert hm e.1 e.2)

/-! ### Maps made of lists -/

/-- The keys of a map made of a list are those of the list, each at its first place. -/
theorem keys_ofList (pairs : List (κ × β)) : (ofList pairs).keys = (pairs.map Prod.fst).eraseDups := by
  suffices h : ∀ m : OrderedMap κ β, (pairs.foldl (fun m e => m.insert e.1 e.2) m).keys =
      m.keys ++ ((pairs.map Prod.fst).filter fun k => decide (k ∉ m.keys)).eraseDups by
    refine (h empty).trans ?_
    simp [empty, keys, List.filter_eq_self.mpr]
  induction pairs with
  | nil => simp
  | cons e pairs ih =>
    intro m
    rw [List.foldl_cons, ih, keys_insert, List.map_cons]
    by_cases h : e.1 ∈ m.keys
    · simp [h]
    · simp [h, List.eraseDups_cons, List.filter_filter, Bool.and_comm, Bool.beq_eq_decide_eq]

/-- If all pairs of a key have the same value, that is what is found after they are inserted. -/
theorem find?_foldl_insert {pairs : List (κ × β)} {k : κ} {v : β}
    (h : ∀ e ∈ pairs, e.1 = k → e.2 = v) (m : OrderedMap κ β) :
    (pairs.foldl (fun m e => m.insert e.1 e.2) m).find? k =
      if k ∈ pairs.map Prod.fst then some v else m.find? k := by
  induction pairs generalizing m with
  | nil => rfl
  | cons e pairs ih =>
    rw [List.foldl_cons, ih fun e' he' => h e' (List.mem_cons_of_mem _ he'), find?_insert]
    have hv := h e List.mem_cons_self
    grind

/-- What is found in a map made of a list is the last pair of its key. -/
theorem exists_last_of_find? {pairs : List (κ × β)} {k : κ} {v : β}
    (h : (ofList pairs).find? k = some v) :
    ∃ before after, pairs = before ++ (k, v) :: after ∧ ∀ e ∈ after, e.1 ≠ k := by
  suffices hfold : ∀ m : OrderedMap κ β,
      (pairs.foldl (fun m e => m.insert e.1 e.2) m).find? k = some v →
      (∃ before after, pairs = before ++ (k, v) :: after ∧ ∀ e ∈ after, e.1 ≠ k) ∨
        m.find? k = some v ∧ ∀ e ∈ pairs, e.1 ≠ k by
    refine (hfold empty h).resolve_right fun hnone => ?_
    cases hnone.1
  clear h
  induction pairs with
  | nil => exact fun m h => .inr ⟨h, nofun⟩
  | cons e pairs ih =>
    intro m h
    rcases ih _ h with ⟨before, after, rfl, hafter⟩ | ⟨hfound, hpairs⟩
    · exact .inl ⟨e :: before, after, rfl, hafter⟩
    · rw [find?_insert] at hfound
      split at hfound
      next hkey =>
        obtain ⟨k', v'⟩ := e
        obtain rfl : k = k' := hkey
        obtain rfl := Option.some.inj hfound
        exact .inl ⟨[], pairs, rfl, hpairs⟩
      next hkey =>
        refine .inr ⟨hfound, fun e' he' => ?_⟩
        rcases List.mem_cons.mp he' with rfl | he'
        · exact fun hk => hkey hk.symm
        · exact hpairs e' he'

/-- In a map made of a list without two values for a key, exactly its pairs are found. -/
theorem find?_ofList_iff {pairs : List (κ × β)} {k : κ} {v : β}
    (h : ∀ e ∈ pairs, ∀ e' ∈ pairs, e.1 = e'.1 → e.2 = e'.2) :
    (ofList pairs).find? k = some v ↔ (k, v) ∈ pairs := by
  constructor
  · intro hfind
    obtain ⟨before, after, hpairs, -⟩ := exists_last_of_find? hfind
    simp [hpairs]
  · intro hmem
    have hsame : ∀ e ∈ pairs, e.1 = k → e.2 = v := fun e he hk => h e he (k, v) hmem hk
    exact (find?_foldl_insert hsame .empty).trans (if_pos (List.mem_map_of_mem hmem))

/-- With distinct keys, a value that is kept is looked up as before. -/
theorem find?_filter {m : OrderedMap κ β} (hm : m.keys.Nodup) (p : β → Bool) (k : κ) :
    (m.filter p).find? k = (m.find? k).filter p := by
  obtain ⟨entries⟩ := m
  simp only [keys, find?, filter] at *
  induction entries with
  | nil => rfl
  | cons e rest ih =>
    rw [List.map_cons, List.nodup_cons] at hm
    have hrest := ih hm.2
    rw [List.filter_cons, List.find?_cons]
    by_cases h : e.1 = k
    · -- No other entry has the key of the first one.
      have hnone : rest.find? (fun e => decide (e.1 = k)) = none := by
        simp only [List.find?_eq_none, decide_eq_true_eq]
        exact fun e' he' hk => hm.1 (h.trans hk.symm ▸ List.mem_map_of_mem he')
      rw [hnone] at hrest
      rw [decide_eq_true h, Option.map_some, Option.filter_some]
      split
      · rw [List.find?_cons, decide_eq_true h]
        rfl
      · exact hrest
    · rw [decide_eq_false h]
      split
      · rw [List.find?_cons, decide_eq_false h]
        exact hrest
      · exact hrest

end OrderedMap

end Hydroseries
