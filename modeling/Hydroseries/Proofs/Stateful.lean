import Hydroseries.Fault

/-!
# Computations that change a state up to a fault

Updates of the store and actions of a session are of this form: each step changes the state, and a
fault ends the computation with the state as the steps before it left it.
-/

namespace Hydroseries

/-- Computations that change a state and may stop at a fault. -/
abbrev Stateful (σ α : Type) := ExceptT Fault (StateM σ) α

namespace Stateful

variable {σ α β : Type}

/-- What a computation answers, and the state that it leaves. -/
def exec (u : Stateful σ α) (s : σ) : Outcome α × σ := u.run.run s

theorem exec_get (k : σ → Stateful σ β) (s : σ) : (get >>= k).exec s = (k s).exec s := rfl

/-- A computation runs up to its first fault. -/
theorem exec_bind (u : Stateful σ α) (k : α → Stateful σ β) (s : σ) :
    (u >>= k).exec s = match u.exec s with
      | (.ok a, s') => (k a).exec s'
      | (.error fault, s') => (.error fault, s') := by
  unfold exec
  rw [ExceptT.run_bind, StateT.run_bind]
  show (match u.run.run s with | (r, s') => _) = _
  obtain ⟨_ | _, _⟩ := u.run.run s <;> rfl

/-- A sequence succeeds if its first step does and the rest does from there. -/
theorem exec_bind_eq_ok {u : Stateful σ α} {k : α → Stateful σ β} {s s' : σ} {b : β} :
    (u >>= k).exec s = (.ok b, s') ↔
      ∃ a s₁, u.exec s = (.ok a, s₁) ∧ (k a).exec s₁ = (.ok b, s') := by
  rw [exec_bind]
  rcases u.exec s with ⟨_ | a, s₁⟩
  · simp
  · constructor
    · exact fun h => ⟨a, s₁, rfl, h⟩
    · rintro ⟨_, _, h, hk⟩
      cases h
      exact hk

/-- What is made of an answer at the end changes the answer only. -/
theorem exec_bind_pure (u : Stateful σ α) (f : α → β) (s : σ) :
    (u >>= fun a => pure (f a)).exec s = ((u.exec s).1.map f, (u.exec s).2) := by
  rw [exec_bind]
  obtain ⟨_ | _, _⟩ := u.exec s <;> rfl

/-- What follows a step without state runs if the step succeeds. -/
theorem exec_bind_outcome (x : Outcome α) (k : α → Stateful σ β) (s : σ) :
    ((liftM x : Stateful σ α) >>= k).exec s = match x with
      | .ok a => (k a).exec s
      | .error fault => (.error fault, s) := by
  cases x <;> rfl

theorem exec_bind_outcome_eq_ok {x : Outcome α} {k : α → Stateful σ β} {s s' : σ} {b : β} :
    ((liftM x : Stateful σ α) >>= k).exec s = (.ok b, s') ↔
      ∃ a, x = .ok a ∧ (k a).exec s = (.ok b, s') := by
  rw [exec_bind_outcome]
  cases x <;> simp

/-- Steps without state, taken for the members of a list, are those of the list without state. -/
theorem exec_mapM_outcome {ι : Type} (f : ι → Outcome α) (xs : List ι) (s : σ) :
    (xs.mapM fun x => (liftM (f x) : Stateful σ α)).exec s = (xs.mapM f, s) := by
  induction xs with
  | nil => rfl
  | cons x xs ih =>
    rw [List.mapM_cons, List.mapM_cons, exec_bind_outcome]
    cases f x with
    | error fault => rfl
    | ok a =>
      simp only
      rw [exec_bind_pure, ih]
      cases xs.mapM f <;> rfl

/-- A handler for faults goes on in the state that the fault has left. -/
theorem exec_tryCatch (u : Stateful σ α) (handle : Fault → Stateful σ α) (s : σ) :
    (tryCatch u handle).exec s = match u.exec s with
      | (.ok a, s') => (.ok a, s')
      | (.error fault, s') => (handle fault).exec s' := by
  unfold exec
  rw [ExceptT.run_tryCatch, StateT.run_bind]
  show (match u.run.run s with | (r, s') => _) = _
  obtain ⟨_ | _, _⟩ := u.run.run s <;> rfl

end Stateful

end Hydroseries
