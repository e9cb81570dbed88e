import Hydroseries.Pest.Parameters
import Hydroseries.Proofs.Outcome
import Hydroseries.Proofs.Stat.Blocks
import Mathlib.Data.List.Nodup

/-!
# Accepted parameters

Each line of a group file has the name of a group, and the names of an accepted file differ. Each
line of a parameter file that is no equation describes a parameter. Those of an accepted file are in
groups of the group file, they are tied to parameters of their own file only, and their values are
inside their bounds as far as these are numbers (`parameters_of_read`). Their names are not compared
with each other, so a parameter can be described twice (`read_twiceText`).
-/

namespace Hydroseries.Pest

/-! ## Groups -/

/-- The name of the group that a line describes, in lower case. -/
def groupName? (line : String) : Option String := (Text.words line).head?.map Text.lower

namespace ParameterGroups

variable {path : String} {g g' : ParameterGroups}

/-- A line adds the name of its group, which is a new one, and its line for the control file. -/
theorem add_eq_ok {text : String} {line : Nat} (h : g.add path text line = .ok g') :
    ∃ name, groupName? text = some (Text.lower name) ∧ Text.lower name ∉ g.names ∧
      g'.names = g.names ++ [Text.lower name] ∧ ∃ cells, g'.lines = g.lines ++
        [Text.trimEnd (Text.join " " (Text.padRight 12 name :: cells))] := by
  unfold add at h
  dsimp only at h
  split at h
  next name inctyp derinc derinclb forcen derincmul dermthd splits hwords =>
    split at h
    next => cases h
    next =>
      split at h
      next => cases h
      next hnew =>
        obtain ⟨_, -, h⟩ := bind_eq_ok.mp h
        obtain ⟨_, -, h⟩ := bind_eq_ok.mp h
        obtain ⟨_, -, h⟩ := bind_eq_ok.mp h
        obtain ⟨_, -, h⟩ := bind_eq_ok.mp h
        obtain ⟨_, -, h⟩ := bind_eq_ok.mp h
        obtain ⟨_, -, h⟩ := bind_eq_ok.mp h
        obtain rfl := Except.ok.inj h
        refine ⟨name, by rw [groupName?, hwords]; rfl, ?_, rfl, _, rfl⟩
        simpa using hnew
  next => cases h

/-- The lines of an accepted file add their names in their order, and the names keep to differ. -/
theorem names_of_foldlM {lines : List (String × Nat)}
    (h : lines.foldlM (fun g (l, n) => g.add path l n) g = .ok g') (hdistinct : g.names.Nodup) :
    g'.names.Nodup ∧ ∃ names, g'.names = g.names ++ names ∧
      List.Forall₂ (fun line name => groupName? line = some name) (lines.map Prod.fst) names := by
  induction lines generalizing g with
  | nil =>
    obtain rfl := Except.ok.inj h
    exact ⟨hdistinct, [], (List.append_nil _).symm, .nil⟩
  | cons l lines ih =>
    rw [List.foldlM_cons] at h
    obtain ⟨g₁, hadd, hrest⟩ := bind_eq_ok.mp h
    obtain ⟨name, hname, hnew, hnames, -⟩ := add_eq_ok hadd
    have hdistinct₁ : g₁.names.Nodup := by
      rw [hnames, ← List.concat_eq_append]
      exact List.Nodup.concat hnew hdistinct
    obtain ⟨hall, names, happend, hlines⟩ := ih hrest hdistinct₁
    refine ⟨hall, Text.lower name :: names, ?_, .cons hname hlines⟩
    rw [happend, hnames, List.append_assoc, List.singleton_append]

/-- An accepted group file has a group on each line, and their names differ. -/
theorem names_of_read {text : String} (h : read path text = .ok g) : g.names.Nodup ∧
    List.Forall₂ (fun line name => groupName? line = some name) ((dataLines text).map Prod.fst)
      g.names := by
  obtain ⟨hdistinct, names, hnames, hlines⟩ := names_of_foldlM h List.nodup_nil
  rw [hnames]
  exact ⟨hnames ▸ hdistinct, hlines⟩

end ParameterGroups

/-! ## Parameters -/

/-- What a line says of a parameter; names are in lower case. -/
structure Parameter where
  name : String
  /-- The parameter that it is tied to. -/
  parent : Option String
  group : String
  value : Double
  lower : Double
  upper : Double

namespace Parameter

/-- The parameter that the ten items of a line describe. -/
def ofLine? (line : String) : Option Parameter :=
  match Text.words line with
  | [name, transformation, _, value, lower, upper, group, _, _, _] => do
    let value ← Text.readDouble? value
    let lower ← Text.readDouble? lower
    let upper ← Text.readDouble? upper
    pure ⟨Text.lower name, ParameterData.parent? transformation, Text.lower group, value, lower, upper⟩
  | _ => none

/-- The value is not below the lower bound, and not above the upper one. -/
def IsInside (q : Parameter) : Prop := ¬ q.value < q.lower ∧ ¬ q.upper < q.value

variable {q : Parameter}

/-- Numbers are inside their bounds in the order of numbers. -/
theorem IsInside.ordered (h : q.IsInside) (hvalue : q.value.isNaN = false) :
    (q.lower.isNaN = false → q.lower ≤ q.value) ∧ (q.upper.isNaN = false → q.value ≤ q.upper) := by
  have hle : ∀ {x y : Double}, x.isNaN = false → y.isNaN = false → ¬ y < x → x ≤ y :=
    fun hx hy hlt => Double.le_iff.mpr
      ⟨hx, hy, not_lt.mp fun hrank => hlt (Double.lt_iff.mpr ⟨hy, hx, hrank⟩)⟩
  exact ⟨fun hlower => hle hlower hvalue h.1, fun hupper => hle hvalue hupper h.2⟩

/-- The tie of a parameter, with its name. -/
def tie? (q : Parameter) : Option (String × String) := q.parent.map fun parent => (q.name, parent)

end Parameter

/-- Lines with an equals sign are equations; the others describe parameters. -/
def isEquation (line : String) : Bool := (Text.cutAt (· == '=') line.toList).isSome

/-- The lines of a file that describe parameters. -/
def parameterLines (text : String) : List String :=
  ((dataLines text).map Prod.fst).filter fun line => !isEquation line

namespace ParameterData

variable {path : String} {groups : ParameterGroups} {d d' : ParameterData} {text : String}
  {line : Nat}

theorem float_eq_ok {what value : String} {x : Double} (h : float path line what value = .ok x) :
    Text.readDouble? value = some x := by
  unfold float at h
  split at h
  next y hy => rw [hy, Except.ok.inj h]
  next => cases h

/-- A line of ten items adds its parameter, if the group is there and the value is inside its bounds. -/
theorem addParameter_eq_ok (h : d.addParameter path groups text line = .ok d') :
    ∃ q, Parameter.ofLine? text = some q ∧ q.group ∈ groups.names ∧ q.IsInside ∧
      ∃ cells, cells.length = 9 ∧ d' = { d with
        names := d.names ++ [q.name]
        lines := d.lines ++ [Text.join " " (Text.padRight 15 q.name :: cells)]
        tied := d.tied ++ q.tie?.toList } := by
  unfold addParameter at h
  dsimp only at h
  split at h
  next name transformation limit value lower upper group scale offset derivative hwords =>
    -- Tied or not, the rest of the line is checked alike.
    split at h
    all_goals
      obtain ⟨_, -, h⟩ := bind_eq_ok.mp h
      obtain ⟨_, -, h⟩ := bind_eq_ok.mp h
      obtain ⟨_, -, h⟩ := bind_eq_ok.mp h
      split at h
      next => cases h
      next hgroup =>
        obtain ⟨x, hx, h⟩ := bind_eq_ok.mp h
        obtain ⟨low, hlow, h⟩ := bind_eq_ok.mp h
        obtain ⟨high, hhigh, h⟩ := bind_eq_ok.mp h
        split at h
        next => cases h
        next hinside =>
          obtain rfl := Except.ok.inj h
          refine ⟨⟨Text.lower name, parent? transformation, Text.lower group, x, low, high⟩,
            ?_, ?_, ?_, _, rfl, rfl⟩
          · simp only [Parameter.ofLine?, hwords, float_eq_ok hx, float_eq_ok hlow,
              float_eq_ok hhigh]
            rfl
          · simpa using hgroup
          · simpa [Parameter.IsInside] using hinside
  next => cases h

/-- An equation leaves the parameters as they are. -/
theorem add_eq_ok (h : d.add path groups text line = .ok d') :
    if isEquation text then ∃ name value, d' = { d with
      defined := d.defined ++ [Text.lower name]
      equations := d.equations ++ [Text.padRight 15 name ++ " = " ++ value] }
    else ∃ q, Parameter.ofLine? text = some q ∧ q.group ∈ groups.names ∧ q.IsInside ∧
      ∃ cells, cells.length = 9 ∧ d' = { d with
        names := d.names ++ [q.name]
        lines := d.lines ++ [Text.join " " (Text.padRight 15 q.name :: cells)]
        tied := d.tied ++ q.tie?.toList } := by
  unfold add at h
  split at h
  next lhs rhs hcut =>
    rw [isEquation, hcut, Option.isSome_some, if_pos rfl]
    exact ⟨_, _, (Except.ok.inj h).symm⟩
  next hcut =>
    rw [isEquation, hcut, Option.isSome_none, if_neg Bool.false_ne_true]
    exact addParameter_eq_ok h

/-- The lines of an accepted file add their parameters in their order. -/
theorem parameters_of_foldlM {lines : List (String × Nat)}
    (h : lines.foldlM (fun d (l, n) => d.add path groups l n) d = .ok d') :
    ∃ ps : List Parameter, List.Forall₂ (fun line q => Parameter.ofLine? line = some q)
        ((lines.map Prod.fst).filter fun line => !isEquation line) ps ∧
      (∀ q ∈ ps, q.group ∈ groups.names ∧ q.IsInside) ∧
      d'.names = d.names ++ ps.map Parameter.name ∧
      d'.tied = d.tied ++ ps.filterMap Parameter.tie? := by
  -- What was read before stays in front, so the induction is for any data to begin with.
  induction lines generalizing d with
  | nil =>
    obtain rfl := Except.ok.inj h
    exact ⟨[], .nil, nofun, (List.append_nil _).symm, (List.append_nil _).symm⟩
  | cons l lines ih =>
    rw [List.foldlM_cons] at h
    obtain ⟨d₁, hadd, hrest⟩ := bind_eq_ok.mp h
    obtain ⟨ps, hlines, hall, hnames, htied⟩ := ih hrest
    have hstep := add_eq_ok hadd
    rw [List.map_cons]
    split at hstep
    next hequation =>
      rw [List.filter_cons_of_neg (by simp [hequation])]
      obtain ⟨_, _, rfl⟩ := hstep
      exact ⟨ps, hlines, hall, hnames, htied⟩
    next hequation =>
      obtain ⟨q, hq, hgroup, hinside, _, -, rfl⟩ := hstep
      rw [List.filter_cons_of_pos (by simp [hequation])]
      refine ⟨q :: ps, .cons hq hlines, ?_, ?_, ?_⟩
      · exact List.forall_mem_cons.mpr ⟨⟨hgroup, hinside⟩, hall⟩
      · rw [hnames, List.append_assoc, List.singleton_append, List.map_cons]
      · rw [htied, List.append_assoc, List.filterMap_cons]
        cases q.tie? <;> rfl

theorem read_eq_ok (h : read path text groups = .ok d) :
    (dataLines text).foldlM (fun d (l, n) => d.add path groups l n) empty = .ok d ∧
      ∀ tie ∈ d.tied, tie.2 ∈ d.names := by
  obtain ⟨d₁, hlines, h⟩ := bind_eq_ok.mp h
  split at h
  next => cases h
  next hnone =>
    -- No parent was found missing.
    obtain rfl := Except.ok.inj h
    exact ⟨hlines, fun tie htie => by simpa using List.find?_eq_none.mp hnone tie htie⟩

/-- Accepted parameters are in groups of the group file, whose names differ; numbers among their
values are inside those of their bounds that are numbers; and each parent is one of the parameters.
The names are those of the lines, in their order. -/
theorem parameters_of_read {groupPath groupText : String}
    (hgroups : ParameterGroups.read groupPath groupText = .ok groups)
    (hdata : read path text groups = .ok d) :
    groups.names.Nodup ∧
    List.Forall₂ (fun line name => groupName? line = some name) ((dataLines groupText).map Prod.fst)
      groups.names ∧
    ∃ ps : List Parameter,
      List.Forall₂ (fun line q => Parameter.ofLine? line = some q) (parameterLines text) ps ∧
      d.names = ps.map Parameter.name ∧
      ∀ q ∈ ps, q.group ∈ groups.names ∧
        (q.value.isNaN = false → (q.lower.isNaN = false → q.lower ≤ q.value) ∧
          (q.upper.isNaN = false → q.value ≤ q.upper)) ∧
        ∀ parent, q.parent = some parent → parent ∈ d.names := by
  obtain ⟨hdistinct, hgroupLines⟩ := ParameterGroups.names_of_read hgroups
  obtain ⟨hfold, hparents⟩ := read_eq_ok hdata
  obtain ⟨ps, hlines, hall, hnames, htied⟩ := parameters_of_foldlM hfold
  refine ⟨hdistinct, hgroupLines, ps, hlines, hnames, fun q hq => ?_⟩
  obtain ⟨hgroup, hinside⟩ := hall q hq
  refine ⟨hgroup, hinside.ordered, fun parent hparent => hparents (q.name, parent) ?_⟩
  have htie : q.tie? = some (q.name, parent) := by rw [Parameter.tie?, hparent, Option.map_some]
  rw [htied]
  exact List.mem_append_right _ (List.mem_filterMap.mpr ⟨q, hq, htie⟩)

/-- The names that are read of a group file and of a parameter file. -/
def readNames (groupText text : String) : Outcome (List String) := do
  let groups ← ParameterGroups.read "g.dat" groupText
  let d ← read "p.dat" text groups
  pure d.names

theorem read_of_readNames {groupText : String} {names : List String}
    (h : (readNames groupText text).toOption.map id = some names) :
    ∃ groups d, ParameterGroups.read "g.dat" groupText = .ok groups ∧
      read "p.dat" text groups = .ok d ∧ d.names = names := by
  obtain ⟨_, hread, rfl⟩ := ok_of_toOption_map h
  obtain ⟨groups, hgroups, hread⟩ := bind_eq_ok.mp hread
  obtain ⟨d, hdata, hread⟩ := bind_eq_ok.mp hread
  exact ⟨groups, d, hgroups, hdata, Except.ok.inj hread⟩

def oneGroup : String := "ro relative 1 0 switch 2 parabolic\n"

/-- A parameter, one that is tied to it, and an equation. -/
def tiedText : String := "k1 log factor 1 0 9 ro 1 0 1\n" ++
  "k2 tied_k1 factor 2 0 9 RO 1 0 1\nk3 = k1 * 2\n"

theorem parameters_of_tiedText : ∃ groups d,
    ParameterGroups.read "g.dat" oneGroup = .ok groups ∧ read "p.dat" tiedText groups = .ok d ∧
      d.names = ["k1", "k2"] ∧ groups.names.Nodup ∧
      ∃ ps, List.Forall₂ (fun line q => Parameter.ofLine? line = some q) (parameterLines tiedText) ps ∧
        ∀ q ∈ ps, q.group ∈ groups.names ∧ ∀ parent, q.parent = some parent → parent ∈ d.names := by
  have hread : (readNames oneGroup tiedText).toOption.map id = some ["k1", "k2"] := by
    decide +kernel
  obtain ⟨groups, d, hgroups, hdata, hnames⟩ := read_of_readNames hread
  obtain ⟨hdistinct, -, ps, hlines, -, hall⟩ := parameters_of_read hgroups hdata
  exact ⟨groups, d, hgroups, hdata, hnames, hdistinct, ps, hlines,
    fun q hq => ⟨(hall q hq).1, (hall q hq).2.2⟩⟩

/-- A parameter that is described twice, the second time with a value that is no number. -/
def twiceText : String := "k1 log factor 1 0 9 ro 1 0 1\n" ++
  "K1 log factor nan 0 9 ro 1 0 1\n"

/-- Neither a name that is there already nor a value that is not above its lower bound is refused. -/
theorem read_twiceText : ∃ groups d,
    ParameterGroups.read "g.dat" oneGroup = .ok groups ∧ read "p.dat" twiceText groups = .ok d ∧
      ¬ d.names.Nodup ∧ ∃ line ∈ parameterLines twiceText, ∃ q, Parameter.ofLine? line = some q ∧
        ¬ q.lower ≤ q.value := by
  have hread : (readNames oneGroup twiceText).toOption.map id = some ["k1", "k1"] := by
    decide +kernel
  obtain ⟨groups, d, hgroups, hdata, hnames⟩ := read_of_readNames hread
  have hline : "K1 log factor nan 0 9 ro 1 0 1" ∈ parameterLines twiceText := by
    decide +kernel
  refine ⟨groups, d, hgroups, hdata, by rw [hnames]; decide, _, hline, ?_⟩
  have hbelow : (Parameter.ofLine? "K1 log factor nan 0 9 ro 1 0 1").map
      (fun q => decide (q.lower ≤ q.value)) = some false := by
    decide +kernel
  obtain ⟨q, hq, hnot⟩ := Option.map_eq_some_iff.mp hbelow
  exact ⟨q, hq, of_decide_eq_false hnot⟩

end ParameterData

end Hydroseries.Pest
