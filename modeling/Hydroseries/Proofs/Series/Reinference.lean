import Hydroseries.Proofs.Series.Regular

/-!
# Frequencies of grids

The frequency that is inferred from the grid of a frequency is that frequency again
(`infer_of_grid`), and timestamps that have the whole grid and more between its ends have another
one (`subset_grid_of_infer`).

With a fixed step no two timestamps are closer than the step (`apart_of_infer_fixed`), so any more
of them are too close to the grid; on the grids of the calendar each timestamp is followed by the
next one, which leaves no choice at all.
-/

namespace Hydroseries

open Timestamp (secondNanos dayNanos)

/-- What holds of any two timestamps one of which stands before the other holds of any two one of which
is earlier. -/
theorem Increasing.rel_of_lt {index : List Timestamp} {R : Timestamp → Timestamp → Prop}
    (hinc : Increasing index) (hR : index.Pairwise R) {t u : Timestamp} (ht : t ∈ index)
    (hu : u ∈ index) (hlt : t < u) : R t u := by
  induction index with
  | nil => cases ht
  | cons v index ih =>
    rcases List.mem_cons.mp ht with rfl | ht'
    · rcases List.mem_cons.mp hu with rfl | hu'
      · exact absurd hlt (lt_irrefl _)
      · exact List.rel_of_pairwise_cons hR hu'
    · rcases List.mem_cons.mp hu with rfl | hu'
      · exact absurd hlt (not_lt.mpr (List.rel_of_pairwise_cons hinc ht').le)
      · exact ih hinc.of_cons hR.of_cons ht' hu'

namespace Frequency

variable {f : Frequency} {first last t : Timestamp} {g index : List Timestamp} {step : Int}

/-! ## Walks -/

theorem follows_of_walk (h : Walk f last t g) : f.follows g = true := by
  induction h with
  | past _ => rfl
  | ends _ _ => rfl
  | step _ hnext hg ih =>
    cases hg with
    | past _ => rfl
    | ends _ _ | step _ _ _ => exact Bool.and_eq_true_iff.mpr ⟨beq_iff_eq.mpr hnext, ih⟩

/-- Along the grid of a fixed step, a timestamp always follows. -/
theorem next?_of_gridGo : ∀ {fuel : Nat} {t : Timestamp} {acc out : List Timestamp},
    gridGo (fixed step) last fuel t acc = .ok out →
      ∀ u ∈ out, u ∈ acc ∨ ((fixed step).next? u).isSome = true
  | 0, t, acc, out, h, u, hu => by
    rw [← Except.ok.inj h, List.mem_reverse] at hu
    exact .inl hu
  | fuel + 1, t, acc, out, h, u, hu => by
    unfold gridGo at h
    split at h
    · rw [← Except.ok.inj h, List.mem_reverse] at hu
      exact .inl hu
    · split at h
      · cases h
      next hnone =>
        -- A step that leaves the calendar would have been a fault.
        have hend := next_eq_ok hnone
        simp [next, hend] at hnone
      next following hsome =>
        rcases next?_of_gridGo h u hu with hmem | hnext
        · rcases List.mem_cons.mp hmem with rfl | hacc
          · exact .inr (by rw [next_eq_ok hsome]; rfl)
          · exact .inl hacc
        · exact .inr hnext

theorem next?_of_grid (h : (fixed step).grid first last = .ok g) :
    ∀ u ∈ g, ((fixed step).next? u).isSome = true := fun u hu =>
  (next?_of_gridGo h u hu).resolve_left List.not_mem_nil

/-- Between the ends of a walk with a fixed step, some timestamp of the walk is less than a step
away. -/
theorem Walk.exists_near (h : Walk (fixed step) last t g)
    (hnext : ∀ u ∈ g, ((fixed step).next? u).isSome = true) {v : Timestamp} (htv : t ≤ v)
    (hvl : v ≤ last) : ∃ u ∈ g, u ≤ v ∧ v.since u < step * secondNanos := by
  induction h with
  | past hlt => exact absurd (le_trans htv hvl) (not_le.mpr hlt)
  | ends _ hnone =>
    have hsome := hnext _ List.mem_cons_self
    rw [hnone] at hsome
    cases hsome
  | @step t u g _ hu _ ih =>
    rcases lt_or_ge v u with hlt | hge
    · have hstep := Timestamp.plus?_eq_some (show t.plus? (step * secondNanos) = some u from hu)
      refine ⟨t, List.mem_cons_self, htv, ?_⟩
      rw [Timestamp.lt_iff] at hlt
      simp only [Timestamp.since]
      omega
    · obtain ⟨w, hw, hnear⟩ := ih (fun w hw => hnext w (List.mem_cons_of_mem _ hw)) hge
      exact ⟨w, List.mem_cons_of_mem _ hw, hnear⟩

/-! ## Fixed steps -/

theorem foldl_min_le (steps : List Int) (a : Int) :
    steps.foldl min a ≤ a ∧ ∀ s ∈ steps, steps.foldl min a ≤ s := by
  induction steps generalizing a with
  | nil => simp
  | cons b steps ih =>
    obtain ⟨hle, hall⟩ := ih (min a b)
    refine ⟨le_trans hle (min_le_left a b), fun s hs => ?_⟩
    rcases List.mem_cons.mp hs with rfl | hs
    · exact le_trans hle (min_le_right a s)
    · exact hall s hs

/-- The fixed step is the shortest step. -/
theorem fixedStep?_le (h : fixedStep? index = some step) : ∀ s ∈ stepsOf index, step ≤ s := by
  unfold fixedStep? at h
  split at h
  · cases h
  next a steps hsteps =>
    simp only at h
    split at h
    · obtain rfl := Option.some.inj h
      obtain ⟨hle, hall⟩ := foldl_min_le steps a
      rw [hsteps]
      exact List.forall_mem_cons.mpr ⟨hle, hall⟩
    · cases h

/-- Timestamps with an inferred fixed step are at least the step apart. -/
theorem apart_of_infer_fixed (h : infer index = fixed step) (hinc : Increasing index) :
    index.Pairwise fun t u => step * secondNanos ≤ u.since t := by
  have hsteps := fixedStep?_le (infer_eq_fixed h)
  clear h
  induction index with
  | nil => exact .nil
  | cons t index ih =>
    cases index with
    | nil => exact List.pairwise_singleton _ _
    | cons u rest =>
      have htail := ih hinc.of_cons fun s hs => hsteps s (List.mem_cons_of_mem _ hs)
      have hfirst : step * secondNanos ≤ u.since t := by
        have hle : step ≤ u.secondsSince t := hsteps _ List.mem_cons_self
        have hlt : t < u := List.rel_of_pairwise_cons hinc List.mem_cons_self
        rw [Timestamp.lt_iff] at hlt
        have hdiv : u.secondsSince t = u.since t / secondNanos :=
          Int.tdiv_eq_ediv_of_nonneg (by simp only [Timestamp.since]; omega)
        rw [hdiv] at hle
        simp only [secondNanos] at hle ⊢
        omega
      refine .cons (fun v hv => ?_) htail
      rcases List.mem_cons.mp hv with rfl | hv
      · exact hfirst
      · -- Later timestamps are farther away.
        have hlt : u < v := List.rel_of_pairwise_cons hinc.of_cons hv
        rw [Timestamp.lt_iff] at hlt
        simp only [Timestamp.since] at hfirst ⊢
        omega

theorem stepsOf_of_follows (h : (fixed step).follows index = true) :
    ∀ s ∈ stepsOf index, s = step := by
  induction index with
  | nil => simp [stepsOf]
  | cons t index ih =>
    cases index with
    | nil => simp [stepsOf]
    | cons u rest =>
      rw [follows, Bool.and_eq_true, beq_iff_eq] at h
      have hu := Timestamp.plus?_eq_some (show t.plus? (step * secondNanos) = some u from h.1)
      refine List.forall_mem_cons.mpr ⟨?_, ih h.2⟩
      have hspan : u.since t = step * secondNanos := by
        simp only [Timestamp.since]
        omega
      rw [Timestamp.secondsSince, hspan]
      exact Int.mul_tdiv_cancel step (by decide)

/-- Timestamps that follow each other with a fixed step have this step. -/
theorem infer_of_follows_fixed {u : Timestamp} {rest : List Timestamp} (hpos : 0 < step)
    (hmonth : step < monthLike) (h : (fixed step).follows (t :: u :: rest) = true) :
    infer (t :: u :: rest) = fixed step := by
  have hsteps := stepsOf_of_follows h
  rw [stepsOf, List.forall_mem_cons] at hsteps
  obtain ⟨hfirst, hrest⟩ := hsteps
  have hsmallest : (stepsOf (u :: rest)).foldl min step = step := by
    have hmem : ∀ steps : List Int, (∀ s ∈ steps, s = step) → steps.foldl min step = step := by
      intro steps hall
      induction steps with
      | nil => rfl
      | cons s steps ih =>
        obtain ⟨rfl, hall⟩ := List.forall_mem_cons.mp hall
        rw [List.foldl_cons, min_self]
        exact ih hall
    exact hmem _ hrest
  have hall : (step :: stepsOf (u :: rest)).all (fun s => s % step == 0) = true := by
    rw [List.all_eq_true]
    intro s hs
    rcases List.mem_cons.mp hs with rfl | hs
    · simp
    · simp [hrest s hs]
  have hfixed : fixedStep? (t :: u :: rest) = some step := by
    simp only [fixedStep?, stepsOf, hfirst, hsmallest]
    exact if_pos ⟨hpos, hmonth, hall⟩
  rw [infer, hfixed]

/-- Two timestamps with an inferred fixed step leave room for the step. -/
theorem two_of_infer_fixed (h : infer index = fixed step) : ∃ t u rest, index = t :: u :: rest := by
  unfold infer at h
  split at h
  next t u rest => exact ⟨t, u, rest, rfl⟩
  next => cases h

/-! ## The grid of an inferred frequency -/

/-- On the grids of the calendar, timestamps are their whole grid. -/
theorem grid_eq_of_infer (hhead : index.head? = some first) (hlast : index.getLast? = some last)
    (hfixed : ∀ step, infer index ≠ fixed step) (hirr : infer index ≠ irregular)
    (hwalk : (infer index).Walk last first g) : g = index := by
  have hfollows := follows_of_infer hfixed hirr
  have hproper := infer_proper index
  obtain ⟨rest, hindex⟩ := List.head?_eq_some_iff.mp hhead
  generalize infer index = f at hwalk hfollows hproper
  subst hindex
  rw [List.getLast?_eq_some_getLast (List.cons_ne_nil first rest)] at hlast
  exact hwalk.eq_of_follows hproper hfollows (Option.some.inj hlast)

section Grid

variable (hinc : Increasing index) (hhead : index.head? = some first)
  (hlast : index.getLast? = some last) (hirr : infer index ≠ irregular)
  (hg : (infer index).grid first last = .ok g)

include hinc hhead hlast hirr hg

/-- The grid of an inferred frequency has this frequency. -/
theorem infer_of_grid : infer g = infer index := by
  have hproper := infer_proper index
  have hwalk := walk_of_grid hproper hg
  by_cases hfixed : ∃ step, infer index = fixed step
  · obtain ⟨step, hstep⟩ := hfixed
    have hapart := apart_of_infer_fixed hstep hinc
    obtain ⟨hpos, hmonth, -⟩ := fixedStep?_eq_some (infer_eq_fixed hstep)
    obtain ⟨t, u, rest, hindex⟩ := two_of_infer_fixed hstep
    have hu := hinc.le_of_getLast? hlast u (by simp [hindex])
    obtain rfl : t = first := by
      rw [hindex] at hhead
      exact Option.some.inj hhead
    rw [hindex] at hapart
    have hgap := List.rel_of_pairwise_cons hapart (List.mem_cons_self (a := u))
    rw [hstep] at hg hwalk hproper ⊢
    have hfollows := follows_of_walk hwalk
    have hnext := next?_of_grid hg
    cases hwalk with
    | past hlt => exact absurd (hinc.le_of_getLast? hlast t (by simp [hindex])) (not_le.mpr hlt)
    | ends _ hnone =>
      have hsome := hnext _ List.mem_cons_self
      rw [hnone] at hsome
      cases hsome
    | @step _ v g' _ hv hwalk' =>
      -- The second timestamp leaves room for a second grid point.
      have hplus := Timestamp.plus?_eq_some (show t.plus? (step * secondNanos) = some v from hv)
      have hvl : v ≤ last := by
        rw [Timestamp.le_iff] at *
        simp only [Timestamp.since] at hgap
        omega
      cases hwalk' with
      | past hlt => exact absurd hvl (not_le.mpr hlt)
      | ends _ _ | step _ _ _ => exact infer_of_follows_fixed hpos hmonth hfollows
  · rw [grid_eq_of_infer hhead hlast (fun step h => hfixed ⟨step, h⟩) hirr hwalk]

/-- Timestamps between the ends of a grid that have the whole grid and its frequency have nothing
else. -/
theorem subset_grid_of_infer {wider : List Timestamp} (hwider : Increasing wider)
    (hbounds : ∀ t ∈ wider, first ≤ t ∧ t ≤ last) (hsub : g ⊆ wider)
    (hinfer : infer wider = infer index) : wider ⊆ g := by
  have hwalk := walk_of_grid (infer_proper index) hg
  by_cases hfixed : ∃ step, infer index = fixed step
  · obtain ⟨step, hstep⟩ := hfixed
    rw [hstep] at hg hwalk hinfer
    intro t ht
    obtain ⟨u, hu, hut, hnear⟩ := hwalk.exists_near (next?_of_grid hg) (hbounds t ht).1
      (hbounds t ht).2
    rcases eq_or_lt_of_le hut with rfl | hlt
    · exact hu
    · have hfar := hwider.rel_of_lt (apart_of_infer_fixed hinfer hwider) (hsub hu) ht hlt
      exact absurd hnear (not_lt.mpr hfar)
  · have hcalendar : ∀ step, infer index ≠ fixed step := fun step h => hfixed ⟨step, h⟩
    obtain rfl := grid_eq_of_infer hhead hlast hcalendar hirr hwalk
    have hwhead : wider.head? = some first := by
      have hne := List.ne_nil_of_mem (hsub (List.mem_of_head? hhead))
      rw [List.head?_eq_some_head hne, Option.some.injEq]
      have hfirst := List.head?_eq_some_head hne
      exact le_antisymm (hwider.le_of_head? hfirst _ (hsub (List.mem_of_head? hhead)))
        (hbounds _ (List.head_mem hne)).1
    have hwlast : wider.getLast? = some last := by
      have hne := List.ne_nil_of_mem (hsub (List.mem_of_getLast? hlast))
      rw [List.getLast?_eq_some_getLast hne, Option.some.injEq]
      have hend := List.getLast?_eq_some_getLast hne
      exact le_antisymm (hbounds _ (List.getLast_mem hne)).2
        (hwider.le_of_getLast? hend _ (hsub (List.mem_of_getLast? hlast)))
    rw [← hinfer] at hcalendar hirr hwalk
    rw [← grid_eq_of_infer hwhead hwlast hcalendar hirr hwalk]
    exact List.Subset.refl _

end Grid

end Frequency

end Hydroseries
