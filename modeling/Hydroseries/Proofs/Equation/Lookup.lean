import Hydroseries.Equation.Eval
import Hydroseries.Proofs.Outcome
import Mathlib.Data.List.Induction

/-!
# Looking up the names of an equation

The case of names does not matter. Every name is looked up once, in the spelling that comes first,
and what is found stands for all spellings (`Scope.standsFor`). Bindings and stores do not tell
spellings apart; for them a name stands for what the scope has for it (`Scope.standsFor_eq`).

An environment is made of names just if each of them stands for something (`Env.ofNames_cases`). It
holds what they stand for, and the first series among them (`Env.Resolved`).
-/

namespace Hydroseries.Equation

namespace Operand

def series? : Operand → Option Series
  | series s => some s
  | _ => none

theorem series?_eq_some {o : Operand} {s : Series} : o.series? = some s ↔ o = series s := by
  cases o <;> simp [series?]

end Operand

namespace Scope

variable {scope : Scope} {names before after : List String} {m n : String}

/-- What a name stands for in an equation with these names, if it is bound: it is looked up in its
first spelling. -/
def standsFor (scope : Scope) (names : List String) (n : String) : Option Operand :=
  (scope ((names.find? fun m => decide (Text.upper m = Text.upper n)).getD n)).toOption

/-- Spellings of one name stand for the same. -/
theorem standsFor_congr (hm : m ∈ names) (h : Text.upper m = Text.upper n) :
    scope.standsFor names m = scope.standsFor names n := by
  rw [standsFor, standsFor, h]
  cases hfind : names.find? fun m => decide (Text.upper m = Text.upper n) with
  | none => exact absurd h (by simpa using List.find?_eq_none.mp hfind m hm)
  | some m => rfl

/-- What comes later does not change what a name stands for. -/
theorem standsFor_append (hm : m ∈ before) (h : Text.upper m = Text.upper n) :
    scope.standsFor (before ++ after) n = scope.standsFor before n := by
  rw [standsFor, standsFor, List.find?_append]
  cases hfind : before.find? fun m => decide (Text.upper m = Text.upper n) with
  | none => exact absurd h (by simpa using List.find?_eq_none.mp hfind m hm)
  | some m => rfl

/-- A name with no spelling before it stands for what it does in the scope. -/
theorem standsFor_of_new (h : ∀ m ∈ before, Text.upper m ≠ Text.upper n) :
    scope.standsFor (before ++ [n]) n = (scope n).toOption := by
  have hnone : before.find? (fun m => decide (Text.upper m = Text.upper n)) = none :=
    List.find?_eq_none.mpr fun m hm => by simpa using h m hm
  rw [standsFor, List.find?_append, hnone]
  simp

/-- What stands for a name of the equation is bound to one of its names. -/
theorem exists_of_standsFor {o : Operand} (hn : n ∈ names)
    (h : scope.standsFor names n = some o) : ∃ m ∈ names, scope m = .ok o := by
  rw [standsFor] at h
  have hspelling : (names.find? fun m => decide (Text.upper m = Text.upper n)).getD n ∈ names := by
    cases hfind : names.find? fun m => decide (Text.upper m = Text.upper n) with
    | none => exact hn
    | some m => exact List.mem_of_find?_eq_some hfind
  refine ⟨_, hspelling, ?_⟩
  cases hm : scope ((names.find? fun m => decide (Text.upper m = Text.upper n)).getD n) with
  | error fault =>
    rw [hm] at h
    cases h
  | ok o' =>
    rw [hm] at h
    rw [Option.some.inj h]

/-- The series that the names stand for, in their order. -/
def namedSeries (scope : Scope) (names : List String) : List Series :=
  names.filterMap fun n => (scope.standsFor names n).bind Operand.series?

theorem mem_namedSeries {s : Series} :
    s ∈ scope.namedSeries names ↔ ∃ n ∈ names, scope.standsFor names n = some (.series s) := by
  simp only [namedSeries, List.mem_filterMap, Option.bind_eq_some_iff, Operand.series?_eq_some,
    exists_eq_right]

theorem namedSeries_concat (scope : Scope) (before : List String) (n : String) :
    scope.namedSeries (before ++ [n]) = scope.namedSeries before ++
      ((scope.standsFor (before ++ [n]) n).bind Operand.series?).toList := by
  rw [namedSeries, List.filterMap_append, namedSeries,
    List.filterMap_congr fun m hm => by rw [standsFor_append hm rfl]]
  cases h : (scope.standsFor (before ++ [n]) n).bind Operand.series? <;> simp [h]

/-! ## Scopes that do not tell spellings apart -/

/-- The case of these names does not matter to a scope. -/
def IsCaseless (scope : Scope) (names : List String) : Prop :=
  ∀ m ∈ names, ∀ n ∈ names, Text.upper m = Text.upper n → (scope m).toOption = (scope n).toOption

theorem standsFor_eq (h : scope.IsCaseless names) (hn : n ∈ names) :
    scope.standsFor names n = (scope n).toOption := by
  rw [standsFor]
  cases hfind : names.find? fun m => decide (Text.upper m = Text.upper n) with
  | none => rfl
  | some m =>
    have hm : decide (Text.upper m = Text.upper n) = true :=
      List.find?_some (p := fun m => decide (Text.upper m = Text.upper n)) hfind
    exact h m (List.mem_of_find?_eq_some hfind) n hn (of_decide_eq_true hm)

theorem isCaseless_ofBindings (bindings : List (String × Operand)) (names : List String) :
    (ofBindings bindings).IsCaseless names := by
  intro m _ n _ h
  simp only [ofBindings, h]
  cases bindings.reverse.find? fun b => decide (Text.upper b.1 = Text.upper n) <;> rfl

/-- Names without blanks at their ends. -/
theorem isCaseless_ofStore (st : Store) (hnames : ∀ n ∈ names, Text.trim n = n) :
    (ofStore st).IsCaseless names := by
  intro m hm n hn h
  have hkey : EntityName.ofSpelling m = EntityName.ofSpelling n := by
    rw [EntityName.ofSpelling, EntityName.ofSpelling, hnames m hm, hnames n hn, h]
  simp only [ofStore, hkey]
  split
  · rfl
  · split <;> rfl

end Scope

/-! ## The environment of an equation -/

namespace Env

variable {scope : Scope} {absValue : Option Double} {names before : List String} {n : String}
  {env env' : Env} {o : Operand}

/-- Looks up one name, unless a spelling of it has been looked up. -/
def addName (scope : Scope) (env : Env) (n : String) : Outcome Env := do
  let key := Text.upper n
  if env.operands.contains key then pure env
  else
    let operand ← scope n
    let reference := match env.reference, operand with
      | none, .series s => some s
      | r, _ => r
    pure { env with operands := env.operands.insert key operand, reference }

theorem ofNames_eq (scope : Scope) (absValue : Option Double) (names : List String) :
    ofNames scope absValue names = names.foldlM (addName scope) ⟨.empty, none, absValue⟩ := rfl

/-- The first series that is named stays the reference. -/
theorem reference_eq (reference : Option Series) (o : Operand) :
    (match reference, o with
      | none, .series s => some s
      | r, _ => r) = reference.or o.series? := by
  cases reference <;> cases o <;> rfl

/-- The environment holds what the names stand for, and the first series among them. -/
structure Resolved (scope : Scope) (names : List String) (env : Env) : Prop where
  operand : ∀ n ∈ names, ∃ o, env.operands.find? (Text.upper n) = some o ∧
    scope.standsFor names n = some o
  fresh : ∀ key, (∀ n ∈ names, Text.upper n ≠ key) → env.operands.find? key = none
  reference : env.reference = (scope.namedSeries names).head?

theorem Resolved.contains (h : Resolved scope names env) :
    env.operands.contains (Text.upper n) = true ↔ ∃ m ∈ names, Text.upper m = Text.upper n := by
  rw [OrderedMap.contains_eq]
  constructor
  · intro hsome
    by_contra hnone
    rw [h.fresh _ fun m hm heq => hnone ⟨m, hm, heq⟩] at hsome
    cases hsome
  · rintro ⟨m, hm, heq⟩
    obtain ⟨o, ho, -⟩ := h.operand m hm
    rw [← heq, ho]
    rfl

/-- A name of which a spelling is known adds nothing. -/
theorem Resolved.known (h : Resolved scope before env) {m : String} (hm : m ∈ before)
    (heq : Text.upper m = Text.upper n) : Resolved scope (before ++ [n]) env where
  operand u hu := by
    rcases List.mem_append.mp hu with hu | hu
    · rw [Scope.standsFor_append hu rfl]
      exact h.operand u hu
    · rw [List.mem_singleton.mp hu, Scope.standsFor_append hm heq, ← Scope.standsFor_congr hm heq,
        ← heq]
      exact h.operand m hm
  fresh key hkey := h.fresh key fun u hu => hkey u (List.mem_append_left _ hu)
  reference := by
    rw [h.reference, Scope.namedSeries_concat, List.head?_append,
      Scope.standsFor_append hm heq, ← Scope.standsFor_congr hm heq]
    cases hnone : scope.namedSeries before with
    | cons s rest => rfl
    | nil =>
      -- No series is named so far, so this spelling stands for none either.
      cases hs : (scope.standsFor before m).bind Operand.series? with
      | none => rfl
      | some s =>
        obtain ⟨o, ho, hseries⟩ := Option.bind_eq_some_iff.mp hs
        rw [Operand.series?_eq_some.mp hseries] at ho
        have hmem := Scope.mem_namedSeries.mpr ⟨m, hm, ho⟩
        rw [hnone] at hmem
        cases hmem

/-- A new name is bound. -/
theorem Resolved.new (h : Resolved scope before env)
    (hnew : ∀ m ∈ before, Text.upper m ≠ Text.upper n) (ho : scope n = .ok o) :
    Resolved scope (before ++ [n]) { env with
      operands := env.operands.insert (Text.upper n) o
      reference := env.reference.or o.series? } where
  operand u hu := by
    rw [OrderedMap.find?_insert]
    rcases List.mem_append.mp hu with hu | hu
    · rw [if_neg (hnew u hu), Scope.standsFor_append hu rfl]
      exact h.operand u hu
    · obtain rfl := List.mem_singleton.mp hu
      rw [if_pos rfl, Scope.standsFor_of_new hnew, ho]
      exact ⟨o, rfl, rfl⟩
  fresh key hkey := by
    rw [OrderedMap.find?_insert, if_neg (hkey n (by simp)).symm]
    exact h.fresh key fun u hu => hkey u (List.mem_append_left _ hu)
  reference := by
    rw [Scope.namedSeries_concat, List.head?_append, h.reference, Scope.standsFor_of_new hnew, ho]
    cases o <;> rfl

/-- An environment is made of names if each of them stands for something, and else there is a
fault. -/
theorem ofNames_cases (scope : Scope) (absValue : Option Double) (names : List String) :
    (∃ env, ofNames scope absValue names = .ok env ∧ Resolved scope names env ∧
      env.absValue = absValue) ∨
    ((∃ fault, ofNames scope absValue names = .error fault) ∧
      ∃ n ∈ names, scope.standsFor names n = none) := by
  induction names using List.reverseRecOn with
  | nil =>
    refine .inl ⟨⟨.empty, none, absValue⟩, rfl, ⟨?_, fun _ _ => rfl, rfl⟩, rfl⟩
    rintro n ⟨⟩
  | append_singleton before n ih =>
    have hstep : ofNames scope absValue (before ++ [n]) =
        ofNames scope absValue before >>= fun env => addName scope env n := by
      simp only [ofNames_eq, List.foldlM_append, List.foldlM_cons, List.foldlM_nil, bind_pure]
    rw [hstep]
    rcases ih with ⟨env, henv, hresolved, habs⟩ | ⟨⟨fault, hfault⟩, m, hm, hnone⟩
    · rw [henv]
      change (∃ env', addName scope env n = .ok env' ∧ _) ∨ (∃ fault, addName scope env n = _) ∧ _
      rw [addName]
      by_cases hknown : ∃ m ∈ before, Text.upper m = Text.upper n
      · obtain ⟨m, hm, heq⟩ := hknown
        rw [if_pos (hresolved.contains.mpr ⟨m, hm, heq⟩)]
        exact .inl ⟨env, rfl, hresolved.known hm heq, habs⟩
      · have hnew : ∀ m ∈ before, Text.upper m ≠ Text.upper n := fun m hm heq =>
          hknown ⟨m, hm, heq⟩
        rw [if_neg (mt hresolved.contains.mp hknown)]
        cases ho : scope n with
        | ok o =>
          refine .inl ⟨_, rfl, ?_, habs⟩
          rw [reference_eq]
          exact hresolved.new hnew ho
        | error fault =>
          refine .inr ⟨⟨fault, rfl⟩, n, by simp, ?_⟩
          rw [Scope.standsFor_of_new hnew, ho]
          rfl
    · right
      rw [hfault]
      refine ⟨⟨fault, rfl⟩, m, List.mem_append_left _ hm, ?_⟩
      rwa [Scope.standsFor_append hm rfl]

end Env

end Hydroseries.Equation
