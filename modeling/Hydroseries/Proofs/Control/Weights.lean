import Hydroseries.Proofs.Control.Blocks
import Hydroseries.Proofs.Outcome
import Hydroseries.Proofs.Params

/-!
# Lines on weights

In a block on the files of a calibration each observed entity has a run of lines: the observation,
its model, the equation of its weights, and perhaps bounds. A block is accepted only if each
observation has its model and its equation behind it (`Arranged`), but a line of bounds may stand
anywhere; one that stands behind no equation of its family is a stray one (`strays`).
-/

namespace Hydroseries

namespace Control

def observationKeyword (family : String) : String := "observation_" ++ family ++ "_name"

def modelKeyword (family : String) : String := "model_" ++ family ++ "_name"

/-! ## Keywords of the families -/

theorem observation_ne_model : ∀ family ∈ weightFamilies,
    observationKeyword family ≠ modelKeyword family := by decide

theorem observation_ne_equation : ∀ family ∈ weightFamilies, ∀ other ∈ weightFamilies,
    observationKeyword family ≠ equationKeyword other := by decide

theorem model_ne_equation : ∀ family ∈ weightFamilies, ∀ other ∈ weightFamilies,
    modelKeyword family ≠ equationKeyword other := by decide

theorem observation_ne_bounds : ∀ family ∈ weightFamilies, ∀ other ∈ weightFamilies,
    observationKeyword family ≠ boundsKeyword other := by decide

theorem model_ne_bounds : ∀ family ∈ weightFamilies, ∀ other ∈ weightFamilies,
    modelKeyword family ≠ boundsKeyword other := by decide

theorem equation_ne_bounds : ∀ family ∈ weightFamilies, ∀ other ∈ weightFamilies,
    equationKeyword family ≠ boundsKeyword other := by decide

theorem boundsKeyword_inj : ∀ family ∈ weightFamilies, ∀ other ∈ weightFamilies,
    boundsKeyword family = boundsKeyword other → family = other := by decide

theorem find?_observation : ∀ family ∈ weightFamilies,
    (weightFamilies.find? fun k =>
      decide (observationKeyword family = "observation_" ++ k ++ "_name")) = some family := by
  decide

theorem find?_equation : ∀ family ∈ weightFamilies,
    (weightFamilies.find? fun k => decide (equationKeyword family = equationKeyword k)) =
      some family := by
  decide

/-! ## Runs of lines -/

/-- Each observation of a family has its model and its equation behind it. -/
def Arranged (family : String) (lines : List Line) : Prop :=
  ∀ front o rest, lines = front ++ o :: rest → o.keyword = observationKeyword family →
    ∃ m e more, rest = m :: e :: more ∧ m.keyword = modelKeyword family ∧
      e.keyword = equationKeyword family

variable {family : String} {lines front rest behind : List Line} {l o m e : Line}

theorem of_requireNext {n : Nat} {next : Option Line} {needed after : String}
    (h : requireNext n next needed after = .ok ()) : ∃ l, next = some l ∧ l.keyword = needed := by
  unfold requireNext at h
  split at h
  next hany =>
    obtain ⟨l, hl, hkey⟩ := (Option.any_eq_true _ _).mp hany
    exact ⟨l, hl, by simpa using hkey⟩
  · cases h

/-- A line that is accepted has its companions, and the lines behind it are accepted. -/
theorem boundsNotices_cons {origin : Origin} {notices : List Notice}
    (h : boundsNotices origin (l :: rest) = .ok notices) :
    (∃ later, boundsNotices origin rest = .ok later) ∧
    ∀ family ∈ weightFamilies, l.keyword = observationKeyword family →
      ∃ m e more, rest = m :: e :: more ∧ m.keyword = modelKeyword family ∧
        e.keyword = equationKeyword family := by
  rw [boundsNotices] at h
  split at h
  next hnone =>
    obtain ⟨here, -, h⟩ := bind_eq_ok.mp h
    obtain ⟨later, hlater, -⟩ := bind_eq_ok.mp h
    refine ⟨⟨later, hlater⟩, fun family hfamily ho => ?_⟩
    rw [ho, find?_observation family hfamily] at hnone
    cases hnone
  next family hfind =>
    obtain ⟨_, hmodel, h⟩ := bind_eq_ok.mp h
    obtain ⟨_, hequation, h⟩ := bind_eq_ok.mp h
    obtain ⟨m, hm, hmkey⟩ := of_requireNext hmodel
    obtain ⟨e, he, hekey⟩ := of_requireNext hequation
    refine ⟨?_, fun family' hfamily ho => ?_⟩
    · split at h
      all_goals
        obtain ⟨here, -, h⟩ := bind_eq_ok.mp h
        obtain ⟨later, hlater, -⟩ := bind_eq_ok.mp h
        exact ⟨later, hlater⟩
    · rw [ho, find?_observation family' hfamily] at hfind
      obtain rfl := Option.some.inj hfind
      match rest, hm, he with
      | m' :: e' :: more, hm, he =>
        obtain rfl := Option.some.inj hm
        obtain rfl := Option.some.inj he
        exact ⟨m', e', more, rfl, hmkey, hekey⟩

/-- The lines of a block that is accepted are arranged. -/
theorem arranged_of_boundsNotices {origin : Origin} {notices : List Notice}
    (hfamily : family ∈ weightFamilies) (h : boundsNotices origin lines = .ok notices) :
    Arranged family lines := by
  intro front o rest hlines ho
  induction front generalizing lines notices with
  | nil =>
    subst hlines
    exact (boundsNotices_cons h).2 family hfamily ho
  | cons l front ih =>
    subst hlines
    obtain ⟨later, hlater⟩ := (boundsNotices_cons h).1
    exact ih hlater rfl

theorem Arranged.tail (h : Arranged family (l :: lines)) : Arranged family lines := by
  intro front o rest hlines ho
  exact h (l :: front) o rest (by rw [hlines]; rfl) ho

/-- A run ends before the next one begins. -/
theorem Arranged.upTo (hfamily : family ∈ weightFamilies)
    (h : Arranged family (lines ++ o :: rest)) (ho : o.keyword = observationKeyword family) :
    Arranged family lines := by
  intro front o' rest' hlines ho'
  subst hlines
  have hmodel := observation_ne_model family hfamily
  have hequation := observation_ne_equation family hfamily family hfamily
  obtain ⟨m, e, more, hrest, hm, he⟩ := h front o' (rest' ++ o :: rest) (by simp) ho'
  match rest', hrest with
  | [], hrest => exact absurd (ho.symm.trans ((List.cons.inj hrest).1 ▸ hm)) hmodel
  | [_], hrest =>
    have hcons := (List.cons.inj (List.cons.inj hrest).2).1
    exact absurd (ho.symm.trans (hcons ▸ he)) hequation
  | m' :: e' :: more', hrest =>
    obtain ⟨hfirst, hrest⟩ := List.cons.inj hrest
    obtain ⟨hsecond, -⟩ := List.cons.inj hrest
    exact ⟨m', e', more', rfl, hfirst ▸ hm, hsecond ▸ he⟩

theorem length_textsAt_cons (key : String) (l : Line) (lines : List Line) :
    (textsAt key (l :: lines)).length =
      (if l.keyword = key then 1 else 0) + (textsAt key lines).length := by
  rw [textsAt_cons]
  split
  · rw [List.length_cons, Nat.add_comm]
  · rw [Nat.zero_add]

theorem length_textsAt_tail_le (key : String) (lines : List Line) :
    (textsAt key lines.tail).length ≤ (textsAt key lines).length := by
  cases lines with
  | nil => exact Nat.le_refl _
  | cons l lines =>
    rw [length_textsAt_cons, List.tail_cons]
    exact Nat.le_add_left ..

/-- There are at least as many models and equations as observations. The first line is no model of
one of them, and the second one no equation. -/
theorem Arranged.length_le (h : Arranged family lines) :
    (textsAt (observationKeyword family) lines).length ≤
      (textsAt (modelKeyword family) lines.tail).length ∧
    (textsAt (observationKeyword family) lines).length ≤
      (textsAt (equationKeyword family) lines.tail.tail).length := by
  induction lines with
  | nil => exact ⟨Nat.le_refl _, Nat.le_refl _⟩
  | cons l lines ih =>
    obtain ⟨hmodels, hequations⟩ := ih h.tail
    rw [length_textsAt_cons, List.tail_cons]
    by_cases ho : l.keyword = observationKeyword family
    · obtain ⟨m, e, more, rfl, hm, he⟩ := h [] l lines rfl ho
      simp only [List.tail_cons, length_textsAt_cons, if_pos ho, if_pos hm, if_pos he] at *
      omega
    · have hmodel := length_textsAt_tail_le (modelKeyword family) lines
      have hequation := length_textsAt_tail_le (equationKeyword family) lines.tail
      have hequation' := length_textsAt_tail_le (equationKeyword family) lines
      rw [if_neg ho, Nat.zero_add]
      cases lines with
      | nil => exact ⟨Nat.le_refl _, Nat.le_refl _⟩
      | cons l' lines =>
        simp only [List.tail_cons] at *
        omega

/-- If there are not more models and equations than observations, this is so up to any of these. -/
theorem Arranged.length_eq (hfamily : family ∈ weightFamilies)
    (h : Arranged family (front ++ o :: rest)) (ho : o.keyword = observationKeyword family)
    (hmodels : (textsAt (modelKeyword family) (front ++ o :: rest)).length =
      (textsAt (observationKeyword family) (front ++ o :: rest)).length)
    (hequations : (textsAt (equationKeyword family) (front ++ o :: rest)).length =
      (textsAt (observationKeyword family) (front ++ o :: rest)).length) :
    (textsAt (modelKeyword family) front).length =
      (textsAt (observationKeyword family) front).length ∧
    (textsAt (equationKeyword family) front).length =
      (textsAt (observationKeyword family) front).length := by
  have hrest : Arranged family (o :: rest) := by
    intro front' o' rest' hlines ho'
    exact h (front ++ front') o' rest' (by rw [List.append_assoc, hlines]) ho'
  obtain ⟨hfrontModels, hfrontEquations⟩ := (h.upTo hfamily ho).length_le
  obtain ⟨hrestModels, hrestEquations⟩ := hrest.length_le
  have hle := length_textsAt_tail_le (modelKeyword family) front
  have hle' := length_textsAt_tail_le (modelKeyword family) (o :: rest)
  have hle₁ := length_textsAt_tail_le (equationKeyword family) front
  have hle₂ := length_textsAt_tail_le (equationKeyword family) front.tail
  have hle₃ := length_textsAt_tail_le (equationKeyword family) (o :: rest)
  have hle₄ := length_textsAt_tail_le (equationKeyword family) (o :: rest).tail
  simp only [textsAt_append, List.length_append] at hmodels hequations
  omega

/-! ## Lines of bounds -/

/-- The lines of bounds that stand behind no equation of their family; `due` says whether the line
before the first one is such an equation. -/
def straysFrom (family : String) (due : Bool) : List Line → List Line
  | [] => []
  | l :: rest =>
    (if l.keyword = boundsKeyword family ∧ due = false then [l] else []) ++
      straysFrom family (l.keyword = equationKeyword family) rest

/-- The lines of bounds that stand behind no equation of their family. -/
def strays (family : String) (lines : List Line) : List Line := straysFrom family false lines

/-- The bounds of an equation: those on the line behind it, or loose ones. -/
def boundsBehind (family : String) (behind : List Line) : String :=
  match behind.head? with
  | some l => if l.keyword = boundsKeyword family then l.joined else Text.join " " looseBounds
  | none => Text.join " " looseBounds

theorem insertBounds_cons_of_equation (hfamily : family ∈ weightFamilies)
    (hl : l.keyword = equationKeyword family) :
    insertBounds (l :: rest) =
      if rest.head?.any fun l => l.keyword = boundsKeyword family then l :: insertBounds rest
      else l :: ⟨boundsKeyword family, looseBounds⟩ :: insertBounds rest := by
  rw [insertBounds, hl, find?_equation family hfamily]

theorem insertBounds_cons (hl : ∀ family ∈ weightFamilies, l.keyword ≠ equationKeyword family) :
    insertBounds (l :: rest) = l :: insertBounds rest := by
  have hnone : (weightFamilies.find? fun k => decide (l.keyword = equationKeyword k)) = none := by
    simpa using hl
  rw [insertBounds, hnone]

/-- Only lines of bounds are put in. -/
theorem textsAt_insertBounds {key : String}
    (hkey : ∀ family ∈ weightFamilies, boundsKeyword family ≠ key) (lines : List Line) :
    textsAt key (insertBounds lines) = textsAt key lines := by
  induction lines with
  | nil => rfl
  | cons l lines ih =>
    by_cases hl : ∃ family ∈ weightFamilies, l.keyword = equationKeyword family
    · obtain ⟨family, hfamily, hl⟩ := hl
      rw [insertBounds_cons_of_equation hfamily hl, textsAt_cons, ← ih]
      split
      · rw [textsAt_cons]
      · rw [textsAt_cons, textsAt_cons, if_neg (hkey family hfamily)]
    · push Not at hl
      rw [insertBounds_cons hl, textsAt_cons, textsAt_cons, ih]

/-- Lines that do not begin with bounds are treated for themselves. -/
theorem insertBounds_append
    (hrest : ∀ l ∈ rest.head?, ∀ family ∈ weightFamilies, l.keyword ≠ boundsKeyword family) :
    insertBounds (front ++ rest) = insertBounds front ++ insertBounds rest := by
  induction front with
  | nil => rfl
  | cons l front ih =>
    rw [List.cons_append]
    by_cases hl : ∃ family ∈ weightFamilies, l.keyword = equationKeyword family
    · obtain ⟨family, hfamily, hl⟩ := hl
      have hhead : ((front ++ rest).head?.any fun l => l.keyword = boundsKeyword family) =
          front.head?.any fun l => l.keyword = boundsKeyword family := by
        cases front with
        | cons l front => rfl
        | nil =>
          rw [List.nil_append, List.head?_nil, Option.any_none, Option.any_eq_false]
          exact fun l hl => by simpa using hrest l hl family hfamily
      rw [insertBounds_cons_of_equation hfamily hl, insertBounds_cons_of_equation hfamily hl, hhead,
        ih]
      split <;> rfl
    · push Not at hl
      rw [insertBounds_cons hl, insertBounds_cons hl, ih, List.cons_append]

/-- There are bounds for each equation, and there are the stray ones. The bounds that are due to the
line before the first one are not counted twice. -/
theorem length_insertBounds (hfamily : family ∈ weightFamilies) (due : Bool) (lines : List Line) :
    (textsAt (boundsKeyword family) (insertBounds lines)).length =
      (textsAt (equationKeyword family) lines).length + (straysFrom family due lines).length +
        if due ∧ lines.head?.any (fun l => l.keyword = boundsKeyword family) then 1 else 0 := by
  induction lines generalizing due with
  | nil => simp [insertBounds, straysFrom]
  | cons l lines ih =>
    have hown := equation_ne_bounds family hfamily family hfamily
    rw [length_textsAt_cons, straysFrom, List.length_append]
    by_cases hl : ∃ other ∈ weightFamilies, l.keyword = equationKeyword other
    · obtain ⟨other, hother, hl⟩ := hl
      have hbounds := equation_ne_bounds other hother family hfamily
      rw [insertBounds_cons_of_equation hother hl]
      by_cases heq : other = family
      · subst heq
        have hrest := ih true
        by_cases hhead : (lines.head?.any fun l => l.keyword = boundsKeyword other) = true
        · simp [length_textsAt_cons, hl, hhead, hbounds] at hrest ⊢
          omega
        · simp [length_textsAt_cons, hl, hhead, hbounds] at hrest ⊢
          omega
      · have hequation : equationKeyword other ≠ equationKeyword family := by
          intro hsame
          have hfind := find?_equation other hother
          rw [hsame, find?_equation family hfamily] at hfind
          exact heq (Option.some.inj hfind).symm
        have hinserted : boundsKeyword other ≠ boundsKeyword family := fun h =>
          heq (boundsKeyword_inj other hother family hfamily h)
        have hrest := ih false
        split <;> simp [length_textsAt_cons, hl, hbounds, hequation, hinserted] at hrest ⊢ <;> omega
    · push Not at hl
      have hrest := ih false
      have hequation := hl family hfamily
      rw [insertBounds_cons hl, length_textsAt_cons]
      by_cases hbounds : l.keyword = boundsKeyword family
      · cases due <;> simp [hbounds, hown.symm] at hrest ⊢ <;> omega
      · simp [hbounds, hequation] at hrest ⊢
        omega

/-! ## Collected texts -/

theorem getElem?_textsAt {key : String} (hl : l.keyword = key) :
    (textsAt key (front ++ l :: rest))[(textsAt key front).length]? = some l.joined := by
  rw [textsAt_append, textsAt_cons, if_pos hl]
  simp

/-- Behind the bounds of the lines before an equation stand its own. -/
theorem textsAt_bounds (hfamily : family ∈ weightFamilies)
    (ho : o.keyword = observationKeyword family) (hm : m.keyword = modelKeyword family)
    (he : e.keyword = equationKeyword family) (front behind : List Line) :
    ∃ more, textsAt (boundsKeyword family) (insertBounds (front ++ o :: m :: e :: behind)) =
      textsAt (boundsKeyword family) (insertBounds front) ++
        boundsBehind family behind :: more := by
  have hob : o.keyword ≠ boundsKeyword family := ho ▸ observation_ne_bounds _ hfamily _ hfamily
  have hmb : m.keyword ≠ boundsKeyword family := hm ▸ model_ne_bounds _ hfamily _ hfamily
  have heb : e.keyword ≠ boundsKeyword family := he ▸ equation_ne_bounds _ hfamily _ hfamily
  have hinsert : insertBounds (front ++ o :: m :: e :: behind) =
      insertBounds front ++ o :: m :: insertBounds (e :: behind) := by
    rw [insertBounds_append, insertBounds_cons, insertBounds_cons]
    · exact fun other hother => hm ▸ model_ne_equation _ hfamily _ hother
    · exact fun other hother => ho ▸ observation_ne_equation _ hfamily _ hother
    · intro l hl other hother
      obtain rfl := Option.some.inj hl
      exact ho ▸ observation_ne_bounds _ hfamily _ hother
  rw [hinsert, textsAt_append, textsAt_cons, if_neg hob, textsAt_cons,
    if_neg hmb, insertBounds_cons_of_equation hfamily he, boundsBehind]
  cases behind with
  | nil =>
    rw [if_neg (by simp), textsAt_cons, textsAt_cons, if_neg heb, if_pos rfl]
    exact ⟨_, rfl⟩
  | cons l behind =>
    by_cases hl : l.keyword = boundsKeyword family
    · have hown : insertBounds (l :: behind) = l :: insertBounds behind := by
        refine insertBounds_cons fun other hother => ?_
        exact hl ▸ (equation_ne_bounds _ hother _ hfamily).symm
      rw [if_pos (by simpa using hl), textsAt_cons, if_neg heb, hown, textsAt_cons,
        if_pos hl]
      exact ⟨textsAt (boundsKeyword family) (insertBounds behind), by simp [hl]⟩
    · rw [if_neg (by simpa using hl), textsAt_cons, textsAt_cons, if_neg heb, if_pos rfl]
      exact ⟨textsAt (boundsKeyword family) (insertBounds (l :: behind)), by simp [hl, Line.joined]⟩

/-- The model and the equation of a run stand where its observation does, each under its keyword. -/
theorem Arranged.texts_of_run (hfamily : family ∈ weightFamilies)
    (h : Arranged family (front ++ o :: m :: e :: behind))
    (ho : o.keyword = observationKeyword family) (hm : m.keyword = modelKeyword family)
    (he : e.keyword = equationKeyword family)
    (hmodels : (textsAt (modelKeyword family) (front ++ o :: m :: e :: behind)).length =
      (textsAt (observationKeyword family) (front ++ o :: m :: e :: behind)).length)
    (hequations : (textsAt (equationKeyword family) (front ++ o :: m :: e :: behind)).length =
      (textsAt (observationKeyword family) (front ++ o :: m :: e :: behind)).length) :
    (textsAt (modelKeyword family) (front ++ o :: m :: e :: behind))[
      (textsAt (observationKeyword family) front).length]? = some m.joined ∧
    (textsAt (equationKeyword family) (front ++ o :: m :: e :: behind))[
      (textsAt (observationKeyword family) front).length]? = some e.joined := by
  obtain ⟨hfrontModels, hfrontEquations⟩ := h.length_eq hfamily ho hmodels hequations
  have hom : o.keyword ≠ modelKeyword family := ho ▸ observation_ne_model _ hfamily
  have hoe : o.keyword ≠ equationKeyword family := ho ▸ observation_ne_equation _ hfamily _ hfamily
  have hme : m.keyword ≠ equationKeyword family := hm ▸ model_ne_equation _ hfamily _ hfamily
  constructor
  · rw [← hfrontModels, textsAt_append, textsAt_cons, if_neg hom, textsAt_cons, if_pos hm]
    simp
  · rw [← hfrontEquations, textsAt_append, textsAt_cons, if_neg hoe, textsAt_cons, if_neg hme,
      textsAt_cons, if_pos he]
    simp

/-- At the place of its equation a run has the bounds behind that, if no stray ones stand before it,
and otherwise some of those before it. -/
theorem bounds_of_run (hfamily : family ∈ weightFamilies)
    (ho : o.keyword = observationKeyword family) (hm : m.keyword = modelKeyword family)
    (he : e.keyword = equationKeyword family) (front behind : List Line) :
    (strays family front = [] →
      (textsAt (boundsKeyword family) (insertBounds (front ++ o :: m :: e :: behind)))[
        (textsAt (equationKeyword family) front).length]? = some (boundsBehind family behind)) ∧
    (strays family front ≠ [] → ∃ text,
      (textsAt (boundsKeyword family) (insertBounds front))[
        (textsAt (equationKeyword family) front).length]? = some text ∧
      (textsAt (boundsKeyword family) (insertBounds (front ++ o :: m :: e :: behind)))[
        (textsAt (equationKeyword family) front).length]? = some text) := by
  obtain ⟨more, hmore⟩ := textsAt_bounds hfamily ho hm he front behind
  have hcount : (textsAt (boundsKeyword family) (insertBounds front)).length =
      (textsAt (equationKeyword family) front).length + (strays family front).length := by
    rw [length_insertBounds hfamily false front, if_neg (by simp), Nat.add_zero, strays]
  rw [hmore]
  constructor
  · intro hnone
    rw [hnone, List.length_nil, Nat.add_zero] at hcount
    rw [← hcount, List.getElem?_append_right (Nat.le_refl _), Nat.sub_self]
    rfl
  · intro hsome
    have hpositive : 0 < (strays family front).length := List.length_pos_iff.mpr hsome
    have hbefore : (textsAt (equationKeyword family) front).length <
        (textsAt (boundsKeyword family) (insertBounds front)).length := by
      omega
    rw [List.getElem?_append_left hbefore]
    exact ⟨_, List.getElem?_eq_getElem hbefore, List.getElem?_eq_getElem hbefore⟩

/-! ## Blocks of a text -/

theorem mem_insertBounds (h : l ∈ insertBounds lines) :
    l ∈ lines ∨ ∃ family, l = ⟨boundsKeyword family, looseBounds⟩ := by
  induction lines with
  | nil => cases h
  | cons l' lines ih =>
    by_cases hl : ∃ family ∈ weightFamilies, l'.keyword = equationKeyword family
    · obtain ⟨family, hfamily, hl⟩ := hl
      rw [insertBounds_cons_of_equation hfamily hl] at h
      split at h <;> grind
    · push Not at hl
      rw [insertBounds_cons hl] at h
      grind

/-- No bounds are put in behind the line that opens a block. -/
theorem insertBounds_start (hl : l.keyword = "start") :
    insertBounds (l :: lines) = l :: insertBounds lines := by
  have hne : ∀ family ∈ weightFamilies, "start" ≠ equationKeyword family := by decide
  exact insertBounds_cons fun family hfamily => hl ▸ hne family hfamily

/-- The block on the files of a calibration is run once. -/
theorem unroll_pest {b : Block} {out : List Invocation × List Notice}
    (hcommand : b.command = "write_pest_files") (h : unroll b = .ok out) :
    (∃ notices, boundsNotices b.origin b.body = .ok notices) ∧
      out.1 = [⟨b.title, b.startLine, ((insertBounds b.body).drop 1).foldl collectLine []⟩] := by
  unfold unroll at h
  simp only [hcommand, if_true] at h
  obtain ⟨notices, hnotices, h⟩ := bind_eq_ok.mp h
  exact ⟨⟨notices, hnotices⟩, by rw [← Except.ok.inj h]; rfl⟩

/-- The lines of a block on the files of a calibration, and its only invocation: the lines are
arranged, and they are collected with the bounds that are put in. None of them is blank. -/
theorem lines_of_pest {source : String} {blocks : List Block} {b : Block}
    {out : List Invocation × List Notice} (hblocks : blocksOf source = .ok blocks) (hb : b ∈ blocks)
    (hcommand : b.command = "write_pest_files") (hunroll : unroll b = .ok out) :
    (∀ family ∈ weightFamilies, Arranged family (b.body.drop 1)) ∧
    (∀ i ∈ out.1, i.command = b.title ∧
      i.entries = (insertBounds (b.body.drop 1)).foldl collectLine []) ∧
    ∀ l ∈ insertBounds (b.body.drop 1), Text.isAllBlank l.joined = false := by
  obtain ⟨start, entries, hbody, hstart, hentries⟩ := entries_of_blocksOf hblocks hb
  obtain ⟨⟨notices, hnotices⟩, hout⟩ := unroll_pest hcommand hunroll
  rw [hbody] at hnotices hout ⊢
  rw [insertBounds_start hstart] at hout
  rw [List.drop_one, List.tail_cons]
  refine ⟨fun family hfamily => (arranged_of_boundsNotices hfamily hnotices).tail, ?_, ?_⟩
  · intro i hi
    rw [hout, List.mem_singleton] at hi
    subst hi
    exact ⟨rfl, rfl⟩
  · intro l hl
    rcases mem_insertBounds hl with hl | ⟨family, rfl⟩
    · obtain ⟨hvalues, hwords⟩ := hentries l hl
      exact Text.isAllBlank_join hvalues hwords
    · have hloose : Text.isAllBlank (Text.join " " looseBounds) = false := by decide +kernel
      exact hloose

end Control

end Hydroseries
