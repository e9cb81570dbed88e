import Hydroseries.Fault
import Mathlib.Data.List.Forall2

/-!
# Results of lists

A step without state that is taken for every member of a list succeeds if it does for all of them,
and else fails as it does for the first member that it fails for.
-/

namespace Hydroseries

/-- What is made of a result is there if the result is. -/
theorem map_eq_ok {α β : Type} {f : α → β} {x : Outcome α} {b : β} :
    x.map f = .ok b ↔ ∃ a, x = .ok a ∧ f a = b := by
  cases x <;> simp [Except.map]

/-- Rewording a fault changes no result. -/
theorem mapError_eq_ok {α : Type} {x : Outcome α} {f : Fault → Fault} {a : α} :
    x.mapError f = .ok a ↔ x = .ok a := by
  cases x <;> simp [Except.mapError]

theorem ok_of_isSome {α : Type} {x : Outcome α} (h : x.toOption.isSome = true) : ∃ a, x = .ok a := by
  cases x with
  | error fault => cases h
  | ok a => exact ⟨a, rfl⟩

/-- What is known of a result, if there is one, is known with the result. -/
theorem ok_of_toOption_map {α β : Type} {x : Outcome α} {f : α → β} {b : β}
    (h : x.toOption.map f = some b) : ∃ a, x = .ok a ∧ f a = b := by
  cases x with
  | error fault => cases h
  | ok a => exact ⟨a, rfl, Option.some.inj h⟩

/-- The same of a result that comes with a state. -/
theorem ok_of_fst_toOption_map {α β σ : Type} {x : Outcome α × σ} {f : α → β} {b : β}
    (h : x.1.toOption.map f = some b) : ∃ a s, x = (.ok a, s) ∧ f a = b := by
  obtain ⟨a, ha, hb⟩ := ok_of_toOption_map h
  exact ⟨a, x.2, Prod.ext ha rfl, hb⟩

/-- Results of a list are those of its members, if none of them is a fault. -/
theorem mapM_eq_ok {α β : Type} {f : α → Outcome β} {xs : List α} {ys : List β} :
    xs.mapM f = .ok ys ↔ List.Forall₂ (fun x y => f x = .ok y) xs ys := by
  induction xs generalizing ys with
  | nil => cases ys <;> simp [pure, Except.pure]
  | cons x xs ih =>
    rw [List.mapM_cons, bind_eq_ok]
    constructor
    · rintro ⟨y, hy, hrest⟩
      obtain ⟨ys', hys', hcons⟩ := bind_eq_ok.mp hrest
      obtain rfl := Except.ok.inj hcons
      exact .cons hy (ih.mp hys')
    · intro h
      cases h with
      | cons hy hrest => exact ⟨_, hy, bind_eq_ok.mpr ⟨_, ih.mpr hrest, rfl⟩⟩

/-- If the members that succeed are known, and their results, so are they of a list. -/
theorem mapM_eq_ok_and {α β : Type} {f : α → Outcome β} {P : α → Prop} {g : α → β}
    (h : ∀ x y, f x = .ok y ↔ P x ∧ g x = y) {xs : List α} {ys : List β} :
    xs.mapM f = .ok ys ↔ (∀ x ∈ xs, P x) ∧ xs.map g = ys := by
  simp only [mapM_eq_ok, h, List.forall₂_and_left, ← List.forall₂_eq_eq_eq,
    List.forall₂_map_left_iff]

/-- If some members have nothing to give, what a list gives comes from the others, one by one. -/
theorem filterMap_mapM_eq_ok {α β : Type} {f : α → Outcome (Option β)} {p : α → Prop}
    [DecidablePred p] {R : α → β → Prop}
    (h : ∀ x o, f x = .ok o ↔ (¬ p x ∧ o = none) ∨ (p x ∧ ∃ b, o = some b ∧ R x b))
    {xs : List α} {bs : List β} :
    (∃ os, xs.mapM f = .ok os ∧ os.filterMap id = bs) ↔ List.Forall₂ R (xs.filter (p ·)) bs := by
  simp only [mapM_eq_ok, h]
  induction xs generalizing bs with
  | nil => cases bs <;> simp
  | cons x xs ih =>
    simp only [List.forall₂_cons_left_iff]
    by_cases hx : p x
    · rw [List.filter_cons_of_pos (by simpa using hx), List.forall₂_cons_left_iff]
      constructor
      · rintro ⟨_, ⟨o, os, ho, hos, rfl⟩, rfl⟩
        rcases ho with ⟨hnone, -⟩ | ⟨-, b, rfl, hb⟩
        · exact absurd hx hnone
        · exact ⟨b, _, hb, ih.mp ⟨os, hos, rfl⟩, rfl⟩
      · rintro ⟨b, bs, hb, hbs, rfl⟩
        obtain ⟨os, hos, rfl⟩ := ih.mpr hbs
        exact ⟨some b :: os, ⟨some b, os, .inr ⟨hx, b, rfl, hb⟩, hos, rfl⟩, rfl⟩
    · rw [List.filter_cons_of_neg (by simpa using hx), ← ih]
      constructor
      · rintro ⟨_, ⟨o, os, ho, hos, rfl⟩, rfl⟩
        rcases ho with ⟨-, rfl⟩ | ⟨hsome, -⟩
        · exact ⟨os, hos, rfl⟩
        · exact absurd hsome hx
      · rintro ⟨os, hos, rfl⟩
        exact ⟨none :: os, ⟨none, os, .inl ⟨hx, rfl⟩, hos, rfl⟩, rfl⟩

theorem exists_mapM {α β : Type} {f : α → Outcome β} {xs : List α}
    (h : ∀ x ∈ xs, ∃ y, f x = .ok y) : ∃ ys, xs.mapM f = .ok ys := by
  induction xs with
  | nil => exact ⟨[], rfl⟩
  | cons x xs ih =>
    rw [List.forall_mem_cons] at h
    obtain ⟨⟨y, hy⟩, hrest⟩ := h
    obtain ⟨ys, hys⟩ := ih hrest
    exact ⟨y :: ys, mapM_eq_ok.mpr (.cons hy (mapM_eq_ok.mp hys))⟩

/-- A list with one more member has one more result. -/
theorem mapM_concat_eq_ok {α β : Type} {f : α → Outcome β} {xs : List α} {x : α} {ys : List β} :
    (xs ++ [x]).mapM f = .ok ys ↔
      ∃ ys' y, xs.mapM f = .ok ys' ∧ f x = .ok y ∧ ys = ys' ++ [y] := by
  rw [List.mapM_append, List.mapM_cons, List.mapM_nil]
  cases xs.mapM f with
  | error fault => simp [bind, Except.bind]
  | ok ys' => cases f x <;> simp [bind, Except.bind, pure, Except.pure, eq_comm]

/-- Every result is that of a member. -/
theorem mem_of_mapM {α β : Type} {f : α → Outcome β} {xs : List α} {ys : List β}
    (h : xs.mapM f = .ok ys) {y : β} (hy : y ∈ ys) : ∃ x ∈ xs, f x = .ok y := by
  have hall := mapM_eq_ok.mp h
  induction hall with
  | nil => cases hy
  | cons hx hrest ih =>
    rcases List.mem_cons.mp hy with rfl | hy
    · exact ⟨_, List.mem_cons_self, hx⟩
    · obtain ⟨x, hmem, hx⟩ := ih (mapM_eq_ok.mpr hrest) hy
      exact ⟨x, List.mem_cons_of_mem _ hmem, hx⟩

/-- If all results are those of a function, the list is mapped by the function. -/
theorem eq_map_of_mapM {α β : Type} {f : α → Outcome β} {g : α → β} {xs : List α} {ys : List β}
    (h : xs.mapM f = .ok ys) (hg : ∀ x ∈ xs, ∀ y, f x = .ok y → y = g x) : ys = xs.map g := by
  have hall := mapM_eq_ok.mp h
  clear h
  induction hall with
  | nil => rfl
  | cons hx _ ih =>
    rw [List.map_cons, hg _ List.mem_cons_self _ hx,
      ih fun x hx => hg x (List.mem_cons_of_mem _ hx)]

/-- The same with what is known of each result. -/
theorem eq_map_of_mapM_and {α β : Type} {f : α → Outcome β} {g : α → β} {P : β → Prop} {xs : List α}
    {ys : List β} (h : xs.mapM f = .ok ys) (hg : ∀ x ∈ xs, ∀ y, f x = .ok y → y = g x ∧ P y) :
    ys = xs.map g ∧ ∀ y ∈ ys, P y := by
  refine ⟨eq_map_of_mapM h fun x hx y hy => (hg x hx y hy).1, fun y hy => ?_⟩
  obtain ⟨x, hx, hxy⟩ := mem_of_mapM h hy
  exact (hg x hx y hxy).2

/-- What each result keeps of its member, the results keep of the list. -/
theorem map_eq_of_mapM {α β γ : Type} {f : α → Outcome β} {g : β → γ} {k : α → γ} {xs : List α}
    {ys : List β} (h : xs.mapM f = .ok ys) (hkeeps : ∀ x y, f x = .ok y → g y = k x) :
    ys.map g = xs.map k := by
  rw [eq_comm, ← List.forall₂_eq_eq_eq, List.forall₂_map_left_iff, List.forall₂_map_right_iff]
  exact (mapM_eq_ok.mp h).imp fun x y hxy => (hkeeps x y hxy).symm

/-- The result at a position is that of the member there. -/
theorem getElem?_of_mapM {α β : Type} {f : α → Outcome β} {xs : List α} {ys : List β}
    (h : xs.mapM f = .ok ys) {n : Nat} {x : α} (hx : xs[n]? = some x) :
    ∃ y, ys[n]? = some y ∧ f x = .ok y := by
  have hall := mapM_eq_ok.mp h
  clear h
  induction hall generalizing n with
  | nil => cases hx
  | @cons x' y' _ _ hx' _ ih =>
    cases n with
    | zero =>
      obtain rfl := Option.some.inj hx
      exact ⟨y', rfl, hx'⟩
    | succ n => exact ih hx

/-- Every member has a result. -/
theorem exists_mem_of_mapM {α β : Type} {f : α → Outcome β} {xs : List α} {ys : List β}
    (h : xs.mapM f = .ok ys) {x : α} (hx : x ∈ xs) : ∃ y ∈ ys, f x = .ok y := by
  obtain ⟨n, hn⟩ := List.mem_iff_getElem?.mp hx
  obtain ⟨y, hy, hxy⟩ := getElem?_of_mapM h hn
  exact ⟨y, List.mem_of_getElem? hy, hxy⟩

/-- The first fault of a list is that of the whole. -/
theorem mapM_eq_error {α β : Type} {f : α → Outcome β} {before after : List α} {x : α}
    {fault : Fault} (hbefore : ∀ y ∈ before, ∃ b, f y = .ok b) (hx : f x = .error fault) :
    (before ++ x :: after).mapM f = .error fault := by
  induction before with
  | nil =>
    rw [List.nil_append, List.mapM_cons, hx]
    rfl
  | cons y before ih =>
    obtain ⟨b, hb⟩ := hbefore y List.mem_cons_self
    rw [List.cons_append, List.mapM_cons, hb,
      show (Except.ok b >>= fun b => _ : Outcome (List β)) = _ from rfl,
      ih fun z hz => hbefore z (List.mem_cons_of_mem _ hz)]
    rfl

end Hydroseries
