import Hydroseries.Proofs.Equation.Lookup
import Hydroseries.Proofs.Store.Frame

/-!
# Equations moment by moment

An equation over series is an equation over numbers at every moment. Its value at a moment is that
of the tree with each series replaced by its value there and each date by its number (`Expr.value`,
`Context.leaves`); it is missing where a series or a date has no value, and where an operation on
something that varies has no finite result (`Context.HasValue`).

The evaluation goes through whole series and not through moments. Every operation on operands is
described by what it does at a moment (`Operand.at?_map`, `Operand.combine_spec`), so that the value
of a tree follows by induction (`Context.Serves.eval_means`). The first series that is named gives
the moments of dates.
-/

namespace Hydroseries

/-! ## Series made point by point -/

namespace TimeSeries

variable {α β : Type} {index : List Timestamp} {t : Timestamp}

/-- The series with a given value, or none, at every moment of an index. -/
def tabulated (index : List Timestamp) (f : Timestamp → Option α) : TimeSeries α :=
  ⟨index.map fun t => (t, f t)⟩

@[simp] theorem index_tabulated (index : List Timestamp) (f : Timestamp → Option α) :
    (tabulated index f).index = index := by
  simp [tabulated, TimeSeries.index, Function.comp_def]

theorem valueAt?_tabulated (hi : Increasing index) (f : Timestamp → Option α) {x : α} :
    (tabulated index f).valueAt? t = some x ↔ t ∈ index ∧ f t = some x := by
  rw [valueAt?_eq_some (by rwa [index_tabulated])]
  simp only [tabulated, List.mem_map, Prod.mk.injEq]
  constructor
  · rintro ⟨t', hmem, rfl, hx⟩
    exact ⟨hmem, hx⟩
  · rintro ⟨hmem, hx⟩
    exact ⟨t, hmem, rfl, hx⟩

theorem mem_index_of_valueAt? {s : TimeSeries α} {x : α} (h : s.valueAt? t = some x) :
    t ∈ s.index := by
  by_contra hmem
  rw [valueAt?_of_notMem hmem] at h
  cases h

/-- The values of a series one by one, each of which may be lost. -/
def bindValues (s : TimeSeries α) (f : α → Option β) : TimeSeries β :=
  ⟨s.points.map fun p => (p.1, p.2.bind f)⟩

@[simp] theorem index_bindValues (s : TimeSeries α) (f : α → Option β) :
    (s.bindValues f).index = s.index := by
  simp [bindValues, TimeSeries.index, Function.comp_def]

theorem valueAt?_bindValues (s : TimeSeries α) (f : α → Option β) (t : Timestamp) :
    (s.bindValues f).valueAt? t = (s.valueAt? t).bind f := by
  rw [valueAt?, valueAt?, bindValues, List.find?_map, Option.bind_map, Option.bind_assoc]
  rfl

end TimeSeries

namespace Equation

/-! ## Operands at a moment -/

theorem finite?_eq_some {x y : Double} : finite? x = some y ↔ y = x ∧ y.isFinite = true := by
  unfold finite?
  split
  next h =>
    rw [Option.some.injEq, eq_comm]
    exact ⟨fun hy => ⟨hy, hy ▸ h⟩, And.left⟩
  next h =>
    simp only [reduceCtorEq, false_iff, not_and]
    rintro rfl
    exact h

namespace Operand

/-- Scalars, and series in time order. -/
def InTime : Operand → Prop
  | scalar _ => True
  | series s => Increasing s.index
  | column _ => False

def IsSeries (o : Operand) : Prop := ∃ s, o = series s

def HasMoment (o : Operand) (t : Timestamp) : Prop := ∃ s, o = series s ∧ t ∈ s.index

/-- The value at a moment. -/
def at? (t : Timestamp) : Operand → Option Double
  | scalar x => some x
  | series s => s.valueAt? t
  | column _ => none

variable {a b o : Operand} {t : Timestamp} {x y : Double}

@[simp] theorem isSeries_scalar : ¬(scalar x).IsSeries := by
  rintro ⟨s, hs⟩
  cases hs

@[simp] theorem isSeries_series (s : Series) : (series s).IsSeries := ⟨s, rfl⟩

@[simp] theorem hasMoment_scalar : ¬(scalar x).HasMoment t := by
  rintro ⟨s, hs, -⟩
  cases hs

@[simp] theorem hasMoment_series {s : Series} : (series s).HasMoment t ↔ t ∈ s.index := by
  constructor
  · rintro ⟨s', hs, ht⟩
    cases hs
    exact ht
  · exact fun ht => ⟨s, rfl, ht⟩

theorem map_series (f : Double → Double) (s : Series) :
    (series s).map f = series (s.bindValues fun v => finite? (f v)) := rfl

theorem InTime.map (h : o.InTime) (f : Double → Double) : (o.map f).InTime := by
  cases o with
  | scalar x => trivial
  | series s => rwa [map_series, InTime, TimeSeries.index_bindValues]
  | column xs => cases h

@[simp] theorem isSeries_map (f : Double → Double) : (o.map f).IsSeries ↔ o.IsSeries := by
  cases o <;> simp [Operand.map, IsSeries]

@[simp] theorem hasMoment_map (f : Double → Double) : (o.map f).HasMoment t ↔ o.HasMoment t := by
  cases o with
  | series s => rw [map_series, hasMoment_series, hasMoment_series, TimeSeries.index_bindValues]
  | _ => simp [Operand.map, HasMoment]

/-- A function is applied to the value; of a series only finite results stay. -/
theorem at?_map (h : o.InTime) (f : Double → Double) : (o.map f).at? t = some y ↔
    ∃ x, o.at? t = some x ∧ y = f x ∧ (o.IsSeries → y.isFinite = true) := by
  cases o with
  | scalar x =>
    constructor
    · intro h
      exact ⟨x, rfl, (Option.some.inj h).symm, fun hs => absurd hs isSeries_scalar⟩
    · rintro ⟨x', hx, rfl, -⟩
      rw [← Option.some.inj hx]
      rfl
  | series s =>
    simp only [map_series, at?, TimeSeries.valueAt?_bindValues, Option.bind_eq_some_iff,
      finite?_eq_some, isSeries_series, true_implies]
  | column xs => cases h

/-- Two series are combined over the moments of both. -/
theorem combineSeries_eq {s r : Series} (hs : Increasing s.index) (hr : Increasing r.index)
    (f : Double → Double → Double) :
    combineSeries f s r = .tabulated (Frame.union s.index r.index) fun t =>
      (s.valueAt? t).bind fun x => (r.valueAt? t).bind fun y => finite? (f x y) := by
  have hwide := Frame.increasing_union hs hr
  rw [combineSeries, TimeSeries.align_eq hs hwide, TimeSeries.align_eq hr hwide,
    List.zipWith_map, List.zipWith_self]
  have hzip (index : List Timestamp) (g : Timestamp → Option Double) :
      index.zip (index.map g) = index.map fun t => (t, g t) := by
    have h : (index.map id).zip (index.map g) = index.map fun t => (t, g t) := List.zip_map'
    rwa [List.map_id] at h
  rw [hzip]
  refine congrArg TimeSeries.mk (List.map_congr_left fun t _ => Prod.ext rfl ?_)
  show _ = (s.valueAt? t).bind _
  cases s.valueAt? t with
  | none => rfl
  | some x => cases r.valueAt? t <;> rfl

/-- What the combination of two operands is, wherever their values are. -/
structure Combines (op : BinaryOp) (a b o : Operand) : Prop where
  inTime : o.InTime
  isSeries : o.IsSeries ↔ a.IsSeries ∨ b.IsSeries
  hasMoment : ∀ t, o.HasMoment t ↔ a.HasMoment t ∨ b.HasMoment t
  at_iff : ∀ t z, o.at? t = some z ↔ ∃ x y, a.at? t = some x ∧ b.at? t = some y ∧
    z = op.apply x y ∧ (a.IsSeries ∨ b.IsSeries → z.isFinite = true)

theorem combine_spec (op : BinaryOp) (ha : a.InTime) (hb : b.InTime) :
    ∃ o, combine op a b = .ok o ∧ Combines op a b o := by
  cases a with
  | column xs => cases ha
  | scalar x =>
    cases b with
    | column ys => cases hb
    | scalar y =>
      refine ⟨.scalar (op.apply x y), rfl, trivial, by simp, by simp, fun t z => ?_⟩
      constructor
      · intro hz
        exact ⟨x, y, rfl, rfl, (Option.some.inj hz).symm, by simp⟩
      · rintro ⟨x', y', hx, hy, rfl, -⟩
        rw [← Option.some.inj hx, ← Option.some.inj hy]
        rfl
    | series r =>
      refine ⟨(series r).map fun y => op.apply x y, rfl, hb.map _, by simp, by simp, fun t z => ?_⟩
      rw [at?_map hb]
      simp [at?]
  | series s =>
    cases b with
    | column ys => cases hb
    | scalar y =>
      refine ⟨(series s).map fun x => op.apply x y, rfl, ha.map _, by simp, by simp, fun t z => ?_⟩
      rw [at?_map ha]
      simp [at?]
    | series r =>
      have hwide := Frame.increasing_union ha hb
      refine ⟨series (combineSeries op.apply s r), rfl, ?_, by simp, fun t => ?_, fun t z => ?_⟩
      · rwa [combineSeries_eq ha hb, InTime, TimeSeries.index_tabulated]
      · simp only [combineSeries_eq ha hb, hasMoment_series, TimeSeries.index_tabulated,
          Frame.mem_union]
      · simp only [combineSeries_eq ha hb, at?, TimeSeries.valueAt?_tabulated hwide,
          Option.bind_eq_some_iff, finite?_eq_some, isSeries_series, or_self, true_implies]
        constructor
        · rintro ⟨-, x, hx, y, hy, hz⟩
          exact ⟨x, y, hx, hy, hz⟩
        · rintro ⟨x, y, hx, hy, hz⟩
          exact ⟨Frame.mem_union.mpr (.inl (TimeSeries.mem_index_of_valueAt? hx)), x, hx, y, hy, hz⟩

end Operand

/-! ## The value of a tree of numbers -/

/-- Numbers for the leaves of an expression. -/
structure Leaves where
  name : String → Double
  dayOfYear : Double
  daysSince : DayOrigin → Double
  absValue : Double

namespace Expr

/-- The value of an expression whose leaves are numbers. -/
def value (v : Leaves) : Expr → Double
  | number x => x
  | name n => v.name n
  | dayOfYear => v.dayOfYear
  | daysSince origin => v.daysSince origin
  | absValue => v.absValue
  | neg e => -e.value v
  | binary op l r => op.apply (l.value v) (r.value v)
  | call f e => f.apply (e.value v)

def usesAbsValue : Expr → Bool
  | absValue => true
  | neg e | call _ e => e.usesAbsValue
  | binary _ l r => l.usesAbsValue || r.usesAbsValue
  | number _ | name _ | dayOfYear | daysSince _ => false

end Expr

/-- What an expression is evaluated over. -/
structure Context where
  /-- What a name stands for, if it is bound. -/
  operand : String → Option Operand
  /-- The moments that have dates. -/
  dates : List Timestamp
  absValue : Option Double

namespace Context

/-- What the leaves stand for at a moment. A leaf that has no value there is zero. -/
def leaves (c : Context) (t : Timestamp) : Leaves where
  name n := ((c.operand n).bind fun o => o.at? t).getD 0
  dayOfYear := Double.ofNat t.date.ordinal
  daysSince origin := Double.ofInt (origin.secondsUntil t) / 86400.0
  absValue := c.absValue.getD 0

/-- A series or a date occurs in the expression. -/
def Varies (c : Context) (e : Expr) : Prop :=
  e.usesDates = true ∨ ∃ n ∈ e.names, ∃ s, c.operand n = some (.series s)

/-- The moments of the series and dates that occur in the expression. -/
def HasMoment (c : Context) (t : Timestamp) (e : Expr) : Prop :=
  (e.usesDates = true ∧ t ∈ c.dates) ∨
    ∃ n ∈ e.names, ∃ s, c.operand n = some (.series s) ∧ t ∈ s.index

/-- Every leaf has a value at the moment, and every operation on something that varies has a finite
result. -/
def HasValue (c : Context) (t : Timestamp) : Expr → Prop
  | .number _ | .absValue => True
  | .name n => ((c.operand n).bind fun o => o.at? t).isSome
  | .dayOfYear | .daysSince _ => t ∈ c.dates
  | .neg e => c.HasValue t e ∧
      (c.Varies e → ((Expr.neg e).value (c.leaves t)).isFinite = true)
  | .call f e => c.HasValue t e ∧
      (c.Varies e → ((Expr.call f e).value (c.leaves t)).isFinite = true)
  | .binary op l r => c.HasValue t l ∧ c.HasValue t r ∧
      (c.Varies l ∨ c.Varies r → ((Expr.binary op l r).value (c.leaves t)).isFinite = true)

/-- The operand is the value of the expression at every moment. -/
structure Means (c : Context) (e : Expr) (o : Operand) : Prop where
  inTime : o.InTime
  isSeries : o.IsSeries ↔ c.Varies e
  hasMoment : ∀ t, o.HasMoment t ↔ c.HasMoment t e
  at_iff : ∀ t x, o.at? t = some x ↔ c.HasValue t e ∧ x = e.value (c.leaves t)

variable {c : Context} {e l r : Expr} {o a b : Operand}

theorem varies_binary {op : BinaryOp} :
    c.Varies (.binary op l r) ↔ c.Varies l ∨ c.Varies r := by
  simp only [Varies, Expr.usesDates, Expr.names, Bool.or_eq_true, List.mem_append, or_and_right,
    exists_or]
  exact or_or_or_comm

theorem hasMoment_binary {op : BinaryOp} {t : Timestamp} :
    c.HasMoment t (.binary op l r) ↔ c.HasMoment t l ∨ c.HasMoment t r := by
  simp only [HasMoment, Expr.usesDates, Expr.names, Bool.or_eq_true, List.mem_append, or_and_right,
    exists_or]
  exact or_or_or_comm

namespace Means

theorem scalar {x : Double} (hdates : e.usesDates = false) (hnames : e.names = [])
    (hvalue : ∀ t, c.HasValue t e ∧ x = e.value (c.leaves t)) : c.Means e (.scalar x) where
  inTime := trivial
  isSeries := by simp [Varies, hdates, hnames]
  hasMoment t := by simp [HasMoment, hdates, hnames]
  at_iff t y := by
    rw [Operand.at?, Option.some.injEq, and_iff_right (hvalue t).1, ← (hvalue t).2, eq_comm]

theorem name {n : String} (ho : c.operand n = some o) (h : o.InTime) : c.Means (.name n) o where
  inTime := h
  isSeries := by simp [Varies, Expr.usesDates, Expr.names, ho, Operand.IsSeries]
  hasMoment t := by simp [HasMoment, Expr.usesDates, Expr.names, ho, Operand.HasMoment]
  at_iff t x := by
    simp only [HasValue, Expr.value, leaves, ho, Option.bind_some]
    cases o.at? t with
    | none => simp
    | some y => simp [eq_comm]

/-- A date is taken at the moments that have dates. -/
theorem date {f : Timestamp → Double} (hdates : Increasing c.dates) (huses : e.usesDates = true)
    (hnames : e.names = []) (hhas : ∀ t, c.HasValue t e ↔ t ∈ c.dates)
    (hvalue : ∀ t, e.value (c.leaves t) = f t) :
    c.Means e (.series (.tabulated c.dates fun t => some (f t))) where
  inTime := by rwa [Operand.InTime, TimeSeries.index_tabulated]
  isSeries := by simp [Varies, huses]
  hasMoment t := by simp [HasMoment, huses, hnames]
  at_iff t x := by
    rw [Operand.at?, TimeSeries.valueAt?_tabulated hdates, hhas, hvalue, Option.some.injEq, eq_comm]

/-- A function of the value of an expression. -/
theorem map {node : Expr} {f : Double → Double} (h : c.Means e o)
    (hdates : node.usesDates = e.usesDates) (hnames : node.names = e.names)
    (hvalue : ∀ t, node.value (c.leaves t) = f (e.value (c.leaves t)))
    (hhas : ∀ t, c.HasValue t node ↔
      c.HasValue t e ∧ (c.Varies e → (node.value (c.leaves t)).isFinite = true)) :
    c.Means node (o.map f) where
  inTime := h.inTime.map f
  isSeries := by rw [Operand.isSeries_map, h.isSeries, Varies, Varies, hdates, hnames]
  hasMoment t := by
    rw [Operand.hasMoment_map, h.hasMoment, HasMoment, HasMoment, hdates, hnames]
  at_iff t y := by
    rw [Operand.at?_map h.inTime, hhas, hvalue]
    simp only [h.at_iff, h.isSeries]
    constructor
    · rintro ⟨x, ⟨hx, rfl⟩, rfl, hfinite⟩
      exact ⟨⟨hx, hfinite⟩, rfl⟩
    · rintro ⟨⟨hx, hfinite⟩, rfl⟩
      exact ⟨_, ⟨hx, rfl⟩, rfl, hfinite⟩

theorem neg (h : c.Means e o) : c.Means (.neg e) (o.map (- ·)) :=
  h.map rfl rfl (fun _ => rfl) fun _ => Iff.rfl

theorem call (f : Function) (h : c.Means e o) : c.Means (.call f e) (o.map f.apply) :=
  h.map rfl rfl (fun _ => rfl) fun _ => Iff.rfl

theorem binary {op : BinaryOp} (hl : c.Means l a) (hr : c.Means r b)
    (h : Operand.Combines op a b o) : c.Means (.binary op l r) o where
  inTime := h.inTime
  isSeries := by rw [h.isSeries, hl.isSeries, hr.isSeries, varies_binary]
  hasMoment t := by rw [h.hasMoment, hl.hasMoment, hr.hasMoment, hasMoment_binary]
  at_iff t z := by
    rw [h.at_iff]
    simp only [hl.at_iff, hr.at_iff, hl.isSeries, hr.isSeries, HasValue, Expr.value]
    constructor
    · rintro ⟨x, y, ⟨hx, rfl⟩, ⟨hy, rfl⟩, rfl, hfinite⟩
      exact ⟨⟨hx, hy, hfinite⟩, rfl⟩
    · rintro ⟨⟨hx, hy, hfinite⟩, rfl⟩
      exact ⟨_, _, ⟨hx, rfl⟩, ⟨hy, rfl⟩, rfl, hfinite⟩

end Means

/-! ## Evaluation in an environment -/

/-- The environment has the operands and the dates of a context for an expression. -/
structure Serves (c : Context) (env : Env) (e : Expr) : Prop where
  names : ∀ n ∈ e.names, ∃ o, env.operands.find? (Text.upper n) = some o ∧ c.operand n = some o ∧
    o.InTime
  dates : e.usesDates = true → ∃ s, env.reference = some s ∧ c.dates = s.index ∧ Increasing s.index
  absValue : c.absValue = env.absValue

variable {env : Env}

theorem Serves.of_le {e' : Expr} (h : c.Serves env e) (hnames : e'.names ⊆ e.names)
    (hdates : e'.usesDates = true → e.usesDates = true) : c.Serves env e' :=
  ⟨fun n hn => h.names n (hnames hn), fun hu => h.dates (hdates hu), h.absValue⟩

theorem Serves.dates_mean {f : Timestamp → Double} (h : c.Serves env e)
    (huses : e.usesDates = true) (hnames : e.names = [])
    (hhas : ∀ t, c.HasValue t e ↔ t ∈ c.dates) (hvalue : ∀ t, e.value (c.leaves t) = f t) :
    ∃ o, env.dates f = .ok o ∧ c.Means e o := by
  obtain ⟨s, href, hdates, hs⟩ := h.dates huses
  refine ⟨.series (.tabulated c.dates fun t => some (f t)), ?_,
    .date (hdates ▸ hs) huses hnames hhas hvalue⟩
  rw [Env.dates, href, hdates]
  rfl

/-- An expression is evaluated to what it means, if the value at hand is given where it is asked
for. -/
theorem Serves.eval_means : ∀ {e : Expr}, c.Serves env e →
    (e.usesAbsValue = true → c.absValue.isSome) → ∃ o, e.eval env = .ok o ∧ c.Means e o := by
  intro e h habs
  induction e with
  | number v => exact ⟨_, rfl, .scalar rfl rfl fun _ => ⟨trivial, rfl⟩⟩
  | name n =>
    obtain ⟨o, hfind, ho, htime⟩ := h.names n (List.mem_singleton_self n)
    exact ⟨o, by rw [Expr.eval, hfind], .name ho htime⟩
  | absValue =>
    obtain ⟨v, hv⟩ := Option.isSome_iff_exists.mp (habs rfl)
    refine ⟨.scalar v, by rw [Expr.eval, ← h.absValue, hv], .scalar rfl rfl fun _ => ⟨trivial, ?_⟩⟩
    simp only [Expr.value, leaves, hv, Option.getD_some]
  | dayOfYear => exact h.dates_mean rfl rfl (fun _ => Iff.rfl) fun _ => rfl
  | daysSince origin => exact h.dates_mean rfl rfl (fun _ => Iff.rfl) fun _ => rfl
  | neg e ih =>
    obtain ⟨o, ho, hmeans⟩ := ih (h.of_le (List.Subset.refl _) id) habs
    exact ⟨_, by rw [Expr.eval, ho]; rfl, hmeans.neg⟩
  | call f e ih =>
    obtain ⟨o, ho, hmeans⟩ := ih (h.of_le (List.Subset.refl _) id) habs
    exact ⟨_, by rw [Expr.eval, ho]; rfl, hmeans.call f⟩
  | binary op l r ihl ihr =>
    obtain ⟨a, ha, hl⟩ := ihl (h.of_le (List.subset_append_left ..) fun hu => by
      simp [Expr.usesDates, hu]) fun hu => habs (by simp [Expr.usesAbsValue, hu])
    obtain ⟨b, hb, hr⟩ := ihr (h.of_le (List.subset_append_right ..) fun hu => by
      simp [Expr.usesDates, hu]) fun hu => habs (by simp [Expr.usesAbsValue, hu])
    obtain ⟨o, ho, hspec⟩ := Operand.combine_spec op hl.inTime hr.inTime
    refine ⟨o, ?_, hl.binary hr hspec⟩
    rw [Expr.eval, ha, hb]
    exact ho

/-- Nothing is evaluated without the value at hand that asks for it. -/
theorem isSome_absValue : ∀ {e : Expr} {o : Operand}, e.eval env = .ok o → e.usesAbsValue = true →
    env.absValue.isSome := by
  intro e o ho huses
  induction e generalizing o with
  | absValue =>
    cases habs : env.absValue with
    | none =>
      rw [Expr.eval, habs] at ho
      cases ho
    | some v => rfl
  | neg e ih =>
    obtain ⟨a, ha, -⟩ := map_eq_ok.mp ho
    exact ih ha huses
  | call f e ih =>
    obtain ⟨a, ha, -⟩ := map_eq_ok.mp ho
    exact ih ha huses
  | binary op l r ihl ihr =>
    obtain ⟨a, ha, hrest⟩ := bind_eq_ok.mp ho
    obtain ⟨b, hb, -⟩ := bind_eq_ok.mp hrest
    rcases Bool.or_eq_true_iff.mp huses with hl | hr
    · exact ihl ha hl
    · exact ihr hb hr
  | _ => cases huses

end Context

/-! ## Evaluation in a scope -/

/-- The context of names in a scope. Dates are taken at the moments of the first series. -/
def Context.ofScope (scope : Scope) (absValue : Option Double) (names : List String) : Context where
  operand := scope.standsFor names
  dates := ((scope.namedSeries names).head?.map TimeSeries.index).getD []
  absValue := absValue

variable {scope : Scope} {absValue : Option Double} {e : Expr} {env : Env}

/-- The environment of the names of an expression serves it. -/
theorem serves_of_resolved (h : ∀ n ∈ e.names, ∀ o, scope n = .ok o → o.InTime)
    (henv : Env.Resolved scope e.names env) (habs : env.absValue = absValue)
    (hdates : e.usesDates = true → scope.namedSeries e.names ≠ []) :
    (Context.ofScope scope absValue e.names).Serves env e where
  names n hn := by
    obtain ⟨o, hfind, ho⟩ := henv.operand n hn
    obtain ⟨m, hm, hscope⟩ := Scope.exists_of_standsFor hn ho
    exact ⟨o, hfind, ho, h m hm o hscope⟩
  dates huses := by
    obtain ⟨s, rest, hnamed⟩ := List.exists_cons_of_ne_nil (hdates huses)
    have hs : s ∈ scope.namedSeries e.names := by rw [hnamed]; exact List.mem_cons_self
    obtain ⟨n, hn, ho⟩ := Scope.mem_namedSeries.mp hs
    obtain ⟨m, hm, hscope⟩ := Scope.exists_of_standsFor hn ho
    refine ⟨s, by rw [henv.reference, hnamed]; rfl, ?_, h m hm _ hscope⟩
    rw [Context.ofScope, hnamed]
    rfl
  absValue := habs.symm

/-- Either there is a fault, and a name is not bound, a date has no series to be taken at or there
is no value at hand; or there is an operand, which is what the expression means, and none of these. -/
theorem evaluate_cases (absValue : Option Double)
    (h : ∀ n ∈ e.names, ∀ o, scope n = .ok o → o.InTime) :
    ((∃ fault, evaluate scope absValue e = .error fault) ∧
      ((∃ n ∈ e.names, scope.standsFor e.names n = none) ∨
        (e.usesDates = true ∧ scope.namedSeries e.names = []) ∨
        (e.usesAbsValue = true ∧ absValue = none))) ∨
    ∃ o, evaluate scope absValue e = .ok o ∧ (Context.ofScope scope absValue e.names).Means e o ∧
      (∀ n ∈ e.names, (scope.standsFor e.names n).isSome) ∧
      (e.usesDates = true → scope.namedSeries e.names ≠ []) ∧
      (e.usesAbsValue = true → absValue.isSome) := by
  rcases Env.ofNames_cases scope absValue e.names with
    ⟨env, henv, hresolved, habs⟩ | ⟨⟨fault, hfault⟩, hunbound⟩
  · have heval : evaluate scope absValue e =
        if e.usesDates && env.reference.isNone then .error Env.noReference else e.eval env := by
      rw [evaluate, henv]
      simp only [bind, Except.bind]
      cases e.usesDates && env.reference.isNone <;> rfl
    have hreference : env.reference.isNone = true ↔ scope.namedSeries e.names = [] := by
      rw [hresolved.reference, Option.isNone_iff_eq_none, List.head?_eq_none_iff]
    rw [heval]
    split
    next hdates =>
      rw [Bool.and_eq_true, hreference] at hdates
      exact .inl ⟨⟨_, rfl⟩, .inr (.inl hdates)⟩
    next hdates =>
      rw [Bool.and_eq_true, hreference, not_and] at hdates
      have hserves := serves_of_resolved h hresolved habs hdates
      by_cases hvalue : e.usesAbsValue = true → absValue.isSome
      · obtain ⟨o, ho, hmeans⟩ := hserves.eval_means hvalue
        refine .inr ⟨o, ho, hmeans, fun n hn => ?_, hdates, hvalue⟩
        obtain ⟨o', -, ho'⟩ := hresolved.operand n hn
        rw [ho']
        rfl
      · rw [Classical.not_imp, Option.not_isSome_iff_eq_none] at hvalue
        refine .inl ⟨?_, .inr (.inr hvalue)⟩
        cases ho : e.eval env with
        | error fault => exact ⟨fault, rfl⟩
        | ok o =>
          have hsome := Context.isSome_absValue ho hvalue.1
          rw [habs, hvalue.2] at hsome
          cases hsome
  · refine .inl ⟨⟨fault, ?_⟩, .inl hunbound⟩
    rw [evaluate, hfault]
    rfl

/-- The moments of an expression are those of all series that it names. -/
theorem hasMoment_ofScope {t : Timestamp}
    (hdates : e.usesDates = true → scope.namedSeries e.names ≠ []) :
    (Context.ofScope scope absValue e.names).HasMoment t e ↔
      ∃ s ∈ scope.namedSeries e.names, t ∈ s.index := by
  simp only [Scope.mem_namedSeries]
  constructor
  · rintro (⟨huses, ht⟩ | ⟨n, hn, s, hs, ht⟩)
    · obtain ⟨s, rest, hnamed⟩ := List.exists_cons_of_ne_nil (hdates huses)
      rw [Context.ofScope, hnamed] at ht
      exact ⟨s, Scope.mem_namedSeries.mp (hnamed ▸ List.mem_cons_self), ht⟩
    · exact ⟨s, ⟨n, hn, hs⟩, ht⟩
  · rintro ⟨s, ⟨n, hn, hs⟩, ht⟩
    exact .inr ⟨n, hn, s, hs, ht⟩

/-- An equation means its value at every moment. -/
theorem evaluate_pointwise (scope : Scope) (absValue : Option Double) (e : Expr)
    (h : ∀ n ∈ e.names, ∀ o, scope n = .ok o → o.InTime) :
    ((∃ fault, evaluate scope absValue e = .error fault) ↔
      (∃ n ∈ e.names, scope.standsFor e.names n = none) ∨
      (e.usesDates = true ∧ scope.namedSeries e.names = []) ∨
      (e.usesAbsValue = true ∧ absValue = none)) ∧
    ∀ o, evaluate scope absValue e = .ok o →
      let c := Context.ofScope scope absValue e.names
      (¬c.Varies e → ∀ t, o = .scalar (e.value (c.leaves t))) ∧
      (c.Varies e → ∃ s, o = .series s ∧ Increasing s.index ∧
        (∀ t, t ∈ s.index ↔ ∃ r ∈ scope.namedSeries e.names, t ∈ r.index) ∧
        ∀ t x, s.valueAt? t = some x ↔ c.HasValue t e ∧ x = e.value (c.leaves t)) := by
  rcases evaluate_cases absValue h with
    ⟨⟨fault, hfault⟩, hcause⟩ | ⟨o, ho, hmeans, hbound, hdates, hvalue⟩
  · refine ⟨⟨fun _ => hcause, fun _ => ⟨fault, hfault⟩⟩, fun o ho => ?_⟩
    rw [hfault] at ho
    cases ho
  · refine ⟨⟨?_, ?_⟩, fun o' ho' => ?_⟩
    · rintro ⟨fault, hfault⟩
      rw [hfault] at ho
      cases ho
    · rintro (⟨n, hn, hnone⟩ | ⟨huses, hnone⟩ | ⟨huses, hnone⟩)
      · have hsome := hbound n hn
        rw [hnone] at hsome
        cases hsome
      · exact absurd hnone (hdates huses)
      · have hsome := hvalue huses
        rw [hnone] at hsome
        cases hsome
    · obtain rfl := Except.ok.inj (ho.symm.trans ho')
      intro c
      refine ⟨fun hfixed t => ?_, fun hvaries => ?_⟩
      · cases o with
        | column xs => cases hmeans.inTime
        | series s => exact absurd (hmeans.isSeries.mp (Operand.isSeries_series s)) hfixed
        | scalar x => rw [((hmeans.at_iff t x).mp rfl).2]
      · obtain ⟨s, rfl⟩ := hmeans.isSeries.mpr hvaries
        refine ⟨s, rfl, hmeans.inTime, fun t => ?_, hmeans.at_iff⟩
        rw [← Operand.hasMoment_series, hmeans.hasMoment, hasMoment_ofScope hdates]

/-- A flow below another one: the moments are those of both, and there is no value where one of them
has none. -/
theorem evaluate_pointwise_flows :
    let q : Series := ⟨[(⟨0⟩, some 1), (⟨10⟩, some 2)]⟩
    let r : Series := ⟨[(⟨10⟩, some 3), (⟨20⟩, none)]⟩
    let scope := Scope.ofBindings [("q", .series q), ("r", .series r)]
    ∃ s, evaluate scope none (.binary .sub (.name "r") (.name "Q")) = .ok (.series s) ∧
      (∀ t, t ∈ s.index ↔ t ∈ r.index ∨ t ∈ q.index) ∧ s.valueAt? ⟨20⟩ = none := by
  intro q r scope
  have hq : Text.upper "q" = "Q" := by decide
  have hr : Text.upper "r" = "R" := by decide
  have hQ : Text.upper "Q" = "Q" := by decide
  have hscope : scope "Q" = .ok (.series q) ∧ scope "r" = .ok (.series r) := by
    simp [scope, Scope.ofBindings, hq, hr, hQ]
  have hcaseless : scope.IsCaseless ["r", "Q"] := Scope.isCaseless_ofBindings _ _
  have hstands : scope.standsFor ["r", "Q"] "r" = some (.series r) ∧
      scope.standsFor ["r", "Q"] "Q" = some (.series q) := by
    rw [Scope.standsFor_eq hcaseless (by simp), Scope.standsFor_eq hcaseless (by simp), hscope.1,
      hscope.2]
    exact ⟨rfl, rfl⟩
  have hnamed : scope.namedSeries ["r", "Q"] = [r, q] := by
    simp [Scope.namedSeries, hstands, Operand.series?]
  obtain ⟨hfails, hmeans⟩ := evaluate_pointwise scope none (.binary .sub (.name "r") (.name "Q"))
    (by
      intro n hn o ho
      rcases List.mem_cons.mp hn with rfl | hn
      · rw [hscope.2] at ho
        cases ho
        exact (by decide : List.Pairwise (· < ·) [(⟨10⟩ : Timestamp), ⟨20⟩])
      · obtain rfl := List.mem_singleton.mp hn
        rw [hscope.1] at ho
        cases ho
        exact (by decide : List.Pairwise (· < ·) [(⟨0⟩ : Timestamp), ⟨10⟩]))
  cases heval : evaluate scope none (.binary .sub (.name "r") (.name "Q")) with
  | error fault =>
    rcases hfails.mp ⟨fault, heval⟩ with ⟨n, hn, hnone⟩ | ⟨huses, -⟩ | ⟨huses, -⟩
    · rcases List.mem_cons.mp hn with rfl | hn
      · cases hstands.1.symm.trans hnone
      · obtain rfl := List.mem_singleton.mp hn
        cases hstands.2.symm.trans hnone
    · cases huses
    · cases huses
  | ok o =>
    obtain ⟨s, rfl, -, hindex, hvalues⟩ :=
      (hmeans o heval).2 (.inr ⟨"r", List.mem_cons_self, r, hstands.1⟩)
    refine ⟨s, rfl, fun t => ?_, ?_⟩
    · have ht : t ∈ s.index ↔ ∃ x ∈ scope.namedSeries ["r", "Q"], t ∈ x.index := hindex t
      rw [ht, hnamed]
      simp
    · cases hvalue : s.valueAt? ⟨20⟩ with
      | none => rfl
      | some x =>
        have hhas : ((scope.standsFor ["r", "Q"] "r").bind fun o => o.at? ⟨20⟩).isSome = true :=
          ((hvalues _ _).mp hvalue).1.1
        rw [hstands.1] at hhas
        cases hhas

end Equation

end Hydroseries
