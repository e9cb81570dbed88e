import Hydroseries.Proofs.Stateful
import Hydroseries.Session

/-!
# What actions do to a session

An action keeps what is viewed of a session if that is as it was however the action ends; most steps
keep the store and the last report (`holdings`). An action is all or nothing if it keeps the store
where it ends with a fault. An action adds if it is all or nothing and keeps the last report: this is
so if only its last step changes the store, and that step adds (`Keeps.before`).

A loop whose steps change nothing but the store stops at the first change that cannot be made, with
the changes before it made (`exec_forIn`, `changeAll_eq_error`).
-/

namespace Hydroseries.Action

open Stateful (exec exec_get exec_bind exec_bind_outcome)

variable {α β ι γ : Type} {view : Session → γ}

/-- However the action ends, what is viewed of the session is as it was. -/
def Keeps (view : Session → γ) (a : Action α) : Prop := ∀ s, view (exec a s).2 = view s

/-- The store and the last report. -/
def holdings (s : Session) : Store × Option Report.Listing := (s.store, s.listing)

/-- If the action ends with a fault, the store is as it was. -/
def AllOrNothing (a : Action α) : Prop :=
  ∀ s fault s', exec a s = (.error fault, s') → s'.store = s.store

/-- The last report is as it was, and if the action ends with a fault so is the store. -/
structure Adds (a : Action α) : Prop where
  listing : Keeps Session.listing a
  store : AllOrNothing a

theorem Keeps.store {a : Action α} (h : Keeps holdings a) : Keeps Session.store a :=
  fun s => congrArg Prod.fst (h s)

theorem Keeps.listing {a : Action α} (h : Keeps holdings a) : Keeps Session.listing a :=
  fun s => congrArg Prod.snd (h s)

theorem Keeps.allOrNothing {a : Action α} (h : Keeps Session.store a) : AllOrNothing a := by
  intro s fault s' hexec
  have hkeep := h s
  rwa [hexec] at hkeep

theorem Keeps.adds {a : Action α} (h : Keeps holdings a) : Adds a :=
  ⟨h.listing, h.store.allOrNothing⟩

/-! ## Sequences -/

theorem Keeps.bind {a : Action α} {k : α → Action β} (ha : Keeps view a)
    (hk : ∀ x, Keeps view (k x)) : Keeps view (a >>= k) := by
  intro s
  have hfirst := ha s
  rw [exec_bind]
  generalize exec a s = run at hfirst ⊢
  obtain ⟨_ | x, s₁⟩ := run
  · exact hfirst
  · exact (hk x s₁).trans hfirst

/-- The last step may change the store. -/
theorem Keeps.before {a : Action α} {k : α → Action β} (ha : Keeps holdings a)
    (hk : ∀ x, Adds (k x)) : Adds (a >>= k) := by
  refine ⟨ha.listing.bind fun x => (hk x).listing, fun s fault s' hexec => ?_⟩
  have hfirst := ha.store s
  rw [exec_bind] at hexec
  generalize exec a s = run at hfirst hexec
  obtain ⟨cause | x, s₁⟩ := run
  · obtain ⟨-, rfl⟩ := Prod.mk.inj hexec
    exact hfirst
  · exact ((hk x).store s₁ fault s' hexec).trans hfirst

theorem keeps_pure (a : α) : Keeps view (pure a : Action α) := fun _ => rfl

theorem keeps_throw (fault : Fault) : Keeps view (throw fault : Action α) := fun _ => rfl

theorem keeps_get : Keeps view (get : Action Session) := fun _ => rfl

theorem keeps_modify {f : Session → Session} (h : ∀ s, view (f s) = view s) :
    Keeps view (modify f : Action PUnit) := h

/-- Steps without state keep everything. -/
theorem keeps_outcome (x : Outcome α) : Keeps view (liftM x : Action α) := by
  cases x <;> exact fun _ => rfl

theorem keeps_mapM {f : ι → Action α} (h : ∀ x, Keeps view (f x)) (xs : List ι) :
    Keeps view (xs.mapM f) := by
  induction xs with
  | nil => exact keeps_pure _
  | cons x xs ih =>
    rw [List.mapM_cons]
    exact (h x).bind fun _ => ih.bind fun _ => keeps_pure _

theorem keeps_forIn {body : ι → β → Action (ForInStep β)} (h : ∀ x b, Keeps view (body x b))
    (xs : List ι) : ∀ b, Keeps view (forIn xs b body) := by
  induction xs with
  | nil => exact fun b => keeps_pure b
  | cons x xs ih =>
    intro b
    rw [List.forIn_cons]
    refine (h x b).bind fun next => ?_
    cases next with
    | done b => exact keeps_pure b
    | yield b => exact ih b

/-! ## Steps of commands -/

/-- What follows the reading of a series runs if the series is there. -/
theorem exec_getSeries_bind (name : EntityName) (k : Series → Action α) (s : Session) :
    exec (getSeries name >>= k) s = match s.store.getSeries name with
      | .ok x => exec (k x) s
      | .error fault => (.error fault, s) := by
  rw [exec_bind, getSeries, exec_get]
  cases s.store.getSeries name <;> rfl

theorem keeps_getSeries (name : EntityName) : Keeps view (getSeries name) :=
  keeps_get.bind fun _ => keeps_outcome _

theorem keeps_resolve (file : String) : Keeps view (resolve file) := fun _ => rfl

theorem exec_resolve_bind (file : String) (k : String → Action α) (s : Session) :
    exec (resolve file >>= k) s = exec (k (s.resolve file)) s := rfl

/-- What follows the reading of a file runs if the file is there. -/
theorem exec_readText_bind (path : String) (k : String → Action α) (s : Session) :
    exec (readText path >>= k) s = match s.files.read path with
      | .ok text => exec (k text) s
      | .error fault => (.error fault, s) := by
  rw [exec_bind, readText, exec_get]
  cases s.files.read path <;> rfl

theorem keeps_readText (path : String) : Keeps view (readText path) :=
  keeps_get.bind fun _ => keeps_outcome _

theorem keeps_writeText (path text : String) : Keeps holdings (writeText path text) := by
  intro s
  rw [writeText, exec_get, exec_bind_outcome]
  cases s.files.write path text <;> rfl

theorem keeps_readBinary (request : BinaryRequest) : Keeps holdings (readBinary request) := by
  intro s
  rw [readBinary, exec_get, exec_bind_outcome]
  cases s.backends.readBinary request <;> rfl

theorem keeps_plot (request : PlotRequest) : Keeps holdings (plot request) := by
  intro s
  rw [plot, exec_get, exec_bind_outcome]
  cases s.backends.plot request <;> rfl

theorem exec_changeStore (change : Store → Outcome Store) (s : Session) :
    exec (changeStore change) s = match change s.store with
      | .ok st => (.ok (), { s with store := st })
      | .error fault => (.error fault, s) := by
  rw [changeStore, exec_get, exec_bind_outcome]
  cases change s.store <;> rfl

theorem adds_changeStore (change : Store → Outcome Store) : Adds (changeStore change) := by
  constructor
  · intro s
    rw [exec_changeStore]
    cases change s.store <;> rfl
  · intro s fault s' hexec
    rw [exec_changeStore] at hexec
    cases hchange : change s.store with
    | ok st =>
      rw [hchange] at hexec
      cases hexec
    | error cause =>
      rw [hchange] at hexec
      obtain ⟨-, rfl⟩ := Prod.mk.inj hexec
      rfl

theorem adds_joinSeries (name : EntityName) (new : Series) : Adds (joinSeries name new) :=
  adds_changeStore _

theorem adds_insertTable (name : EntityName) (t : Store.Table) : Adds (insertTable name t) :=
  adds_changeStore _

theorem exec_insertTable_eq_ok {name : EntityName} {t : Store.Table} {s s' : Session} :
    exec (insertTable name t) s = (.ok (), s') ↔
      ∃ st, s.store.insertTable name t = .ok st ∧ { s with store := st } = s' := by
  rw [insertTable, exec_changeStore]
  cases s.store.insertTable name t <;> simp

/-- An update of the store ends in a session as it ends in the store. -/
theorem exec_onStore (u : Store.Update Unit) (s : Session) :
    exec (onStore u) s = ((exec u s.store).1, { s with store := (exec u s.store).2 }) := by
  rw [onStore, exec_get]
  show exec (set _ >>= fun _ => liftM (exec u s.store).1) s = _
  rw [exec_bind]
  show exec (liftM (exec u s.store).1) _ = _
  cases (exec u s.store).1 <;> rfl

theorem keepsListing_onStore (u : Store.Update Unit) : Keeps Session.listing (onStore u) := by
  intro s
  rw [exec_onStore]

/-! ## Loops of changes -/

/-- The action makes one change of the store and answers `r`, or fails and changes nothing. -/
def Makes (a : Action α) (r : α) (change : Store → Outcome Store) : Prop :=
  ∀ s, exec a s = match change s.store with
    | .ok st => (.ok r, { s with store := st })
    | .error fault => (.error fault, s)

theorem makes_changeStore (change : Store → Outcome Store) (r : α) :
    Makes (do changeStore change; pure r) r change := by
  intro s
  rw [exec_bind, exec_changeStore]
  cases change s.store <;> rfl

/-- What is found before the change is part of it. -/
theorem Makes.outcome {x : Outcome α} {k : α → Action β} {r : β} {change : α → Store → Outcome Store}
    (h : ∀ v, Makes (k v) r (change v)) :
    Makes (liftM x >>= k) r fun st => x >>= fun v => change v st := by
  intro s
  rw [exec_bind_outcome]
  cases x with
  | error fault => rfl
  | ok v => exact h v s

/-- Changes in order, up to the first that cannot be made. -/
def changeAll (change : Store → ι → Outcome Store) : List ι → Store → Outcome Unit × Store
  | [], st => (.ok (), st)
  | x :: xs, st => match change st x with
    | .ok st' => changeAll change xs st'
    | .error fault => (.error fault, st)

/-- A loop whose steps change the store only makes the changes in order. -/
theorem exec_forIn {body : ι → PUnit → Action (ForInStep PUnit)}
    (change : Store → ι → Outcome Store)
    (hbody : ∀ x, Makes (body x ⟨⟩) (.yield ⟨⟩) fun st => change st x) (xs : List ι) (s : Session) :
    exec (do forIn xs ⟨⟩ body; pure ()) s =
      ((changeAll change xs s.store).1, { s with store := (changeAll change xs s.store).2 }) := by
  induction xs generalizing s with
  | nil => rfl
  | cons x xs ih =>
    rw [List.forIn_cons, bind_assoc, exec_bind, hbody x s, changeAll]
    dsimp only
    cases change s.store x with
    | error fault => rfl
    | ok st => exact ih { s with store := st }

theorem changeAll_eq_ok {change : Store → ι → Outcome Store} {xs : List ι} {st st' : Store} :
    changeAll change xs st = (.ok (), st') ↔ xs.foldlM change st = .ok st' := by
  induction xs generalizing st with
  | nil => simp [changeAll, pure, Except.pure]
  | cons x xs ih =>
    rw [changeAll, List.foldlM_cons]
    cases change st x with
    | error fault => simp [bind, Except.bind]
    | ok st₁ => exact ih

/-- Changes in order fail at one that cannot be made, after those before it were. -/
theorem changeAll_eq_error {change : Store → ι → Outcome Store} {xs : List ι} {st st' : Store}
    {fault : Fault} (h : changeAll change xs st = (.error fault, st')) :
    ∃ done next rest, xs = done ++ next :: rest ∧ done.foldlM change st = .ok st' ∧
      change st' next = .error fault := by
  induction xs generalizing st with
  | nil => cases h
  | cons x xs ih =>
    rw [changeAll] at h
    cases hchange : change st x with
    | error cause =>
      rw [hchange] at h
      obtain ⟨hfault, rfl⟩ := Prod.mk.inj h
      obtain rfl := Except.error.inj hfault
      exact ⟨[], x, xs, rfl, rfl, hchange⟩
    | ok st₁ =>
      rw [hchange] at h
      obtain ⟨done, next, rest, rfl, hdone, hnext⟩ := ih h
      refine ⟨x :: done, next, rest, rfl, ?_, hnext⟩
      rw [List.foldlM_cons, hchange]
      exact hdone

end Hydroseries.Action
