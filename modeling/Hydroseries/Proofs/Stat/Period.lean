import Hydroseries.Proofs.Outcome
import Hydroseries.Proofs.Time.Month
import Hydroseries.Stat.Period
import Mathlib.Data.List.Chain

/-!
# Periods of a record

A period is the days from its first to its last one; months that are pooled are the same month of
all years. The periods of a record leave no day out and share none: each day of the record lies in
exactly one of them (`spans_keys`), and the value of a period is taken of the values on its own days
(`statistics_eq_ok`).
-/

namespace Hydroseries

open Calendar (daysInMonth nextMonth)

/-! ## The days of a period -/

namespace PeriodKey

/-- The last day of the month that a period ends in. -/
def lastDay (k : PeriodKey) : Date := .ofCivil ⟨k.1, k.2, daysInMonth k.1 k.2⟩

/-- The number of the month that a period ends in. -/
def lastMonth (k : PeriodKey) : Int := 12 * k.1 + k.2

end PeriodKey

open PeriodKey (lastDay lastMonth)

namespace Period

variable {p : Period} {k k' last : PeriodKey} {d : Date} {fuel : Nat} {α : Type}

/-- Years end with a month of the calendar. -/
def Proper : Period → Prop
  | years endMonth => 1 ≤ endMonth ∧ endMonth ≤ 12
  | months | pooledMonths => True

/-- The keys of the periods. -/
structure HasKey (p : Period) (k : PeriodKey) : Prop where
  one_le : 1 ≤ k.2
  le_twelve : k.2 ≤ 12
  pooled : p = pooledMonths → k.1 = pooledYear
  endMonth : ∀ m, p = years m → k.2 = m

/-- The first day of a period. A year begins after the month that ends the year before. -/
def firstDay (p : Period) (k : PeriodKey) : Date :=
  match p with
  | years _ => .ofCivil ⟨(nextMonth (k.1 - 1) k.2).1, (nextMonth (k.1 - 1) k.2).2, 1⟩
  | months | pooledMonths => .ofCivil ⟨k.1, k.2, 1⟩

/-- The day lies in the period. A pooled month has its days in all years. -/
def Covers (p : Period) (k : PeriodKey) (d : Date) : Prop :=
  if p = pooledMonths then d.civil.month = k.2
  else (p.firstDay k).day ≤ d.day ∧ d.day ≤ (lastDay k).day

instance (p : Period) (k : PeriodKey) (d : Date) : Decidable (p.Covers k d) :=
  inferInstanceAs (Decidable (if p = pooledMonths then _ else _))

def firstMonth (p : Period) (k : PeriodKey) : Int :=
  match p with
  | years _ => lastMonth k - 11
  | months | pooledMonths => lastMonth k

theorem lastDay_day (hk : p.HasKey k) :
    (lastDay k).day = Date.monthBegin (lastMonth k + 1) - 1 := by
  rw [lastMonth, Date.monthBegin_next _ hk.one_le hk.le_twelve, lastDay, Date.ofCivil_day]

theorem firstDay_day (hk : p.HasKey k) : (p.firstDay k).day = Date.monthBegin (p.firstMonth k) := by
  have hone := hk.one_le
  cases p with
  | months | pooledMonths => exact (Date.monthBegin_of_month _ hk.one_le hk.le_twelve).symm
  | years m =>
    rw [firstDay, Date.ofCivil_nextMonth _ hk.one_le hk.le_twelve,
      ← Date.monthBegin_next _ hk.one_le hk.le_twelve, firstMonth, lastMonth]
    congr 1
    omega

/-- A period has the days whose month is one of its months. -/
theorem covers_iff_months (hk : p.HasKey k) (hp : p ≠ pooledMonths) :
    p.Covers k d ↔ p.firstMonth k ≤ d.monthNumber ∧ d.monthNumber ≤ lastMonth k := by
  rw [Covers, if_neg hp, firstDay_day hk, Date.monthBegin_le_iff, lastDay_day hk,
    Int.le_sub_one_iff, ← not_le, Date.monthBegin_le_iff, not_le, Int.lt_add_one_iff]

/-- The key of a day is that of the period that the day lies in. -/
theorem covers_iff (hk : p.HasKey k) : p.Covers k d ↔ p.key d = k := by
  have hone := hk.one_le
  have htwelve := hk.le_twelve
  have hmonth := d.civil_month_mem
  obtain ⟨year, month⟩ := k
  cases p with
  | pooledMonths =>
    obtain rfl : year = pooledYear := hk.pooled rfl
    rw [Covers, if_pos rfl, key, Prod.mk.injEq, and_iff_right rfl]
  | months =>
    rw [covers_iff_months hk (by rintro ⟨⟩), firstMonth, lastMonth, Date.monthNumber, key, Prod.mk.injEq]
    dsimp only at *
    omega
  | years m =>
    obtain rfl : month = m := hk.endMonth m rfl
    rw [covers_iff_months hk (by rintro ⟨⟩), firstMonth, lastMonth, Date.monthNumber, key]
    dsimp only at *
    split <;> rw [Prod.mk.injEq] <;> omega

theorem hasKey_key (hp : p.Proper) (d : Date) : p.HasKey (p.key d) := by
  have hmonth := d.civil_month_mem
  cases p with
  | months => exact ⟨hmonth.1, hmonth.2, by rintro ⟨⟩, by rintro _ ⟨⟩⟩
  | pooledMonths => exact ⟨hmonth.1, hmonth.2, fun _ => rfl, by rintro _ ⟨⟩⟩
  | years m =>
    rw [key]
    split <;> exact ⟨hp.1, hp.2, by rintro ⟨⟩, fun _ hm => Period.years.inj hm⟩

theorem covers_key (hp : p.Proper) (d : Date) : p.Covers (p.key d) d :=
  (covers_iff (hasKey_key hp d)).mpr rfl

/-! ## The order of periods -/

theorem before_iff (hk : p.HasKey k) (hk' : p.HasKey k') :
    PeriodKey.before k k' = true ↔ lastMonth k < lastMonth k' := by
  have hone := hk.one_le
  have hone' := hk'.one_le
  have htwelve := hk.le_twelve
  have htwelve' := hk'.le_twelve
  simp only [PeriodKey.before, lastMonth, Bool.or_eq_true, Bool.and_eq_true, decide_eq_true_eq,
    beq_iff_eq]
  omega

theorem lastMonth_inj (hk : p.HasKey k) (hk' : p.HasKey k') (h : lastMonth k = lastMonth k') :
    k = k' := by
  have hone := hk.one_le
  have hone' := hk'.one_le
  have htwelve := hk.le_twelve
  have htwelve' := hk'.le_twelve
  simp only [lastMonth] at h
  ext
  · omega
  · omega

theorem hasKey_nextKey (hk : p.HasKey k) (hp : p ≠ pooledMonths) : p.HasKey (p.nextKey k) := by
  have hone := hk.one_le
  have htwelve := hk.le_twelve
  cases p with
  | pooledMonths => exact absurd rfl hp
  | years m => exact ⟨hk.one_le, hk.le_twelve, by rintro ⟨⟩, hk.endMonth⟩
  | months =>
    rw [nextKey, nextMonth]
    split
    · exact ⟨le_refl 1, (by decide : 1 ≤ 12), by rintro ⟨⟩, by rintro _ ⟨⟩⟩
    · exact ⟨by dsimp only; omega, by dsimp only; omega, by rintro ⟨⟩, by rintro _ ⟨⟩⟩

/-- The next period begins with the month after the last one. -/
theorem firstMonth_nextKey (p : Period) (k : PeriodKey) :
    p.firstMonth (p.nextKey k) = lastMonth k + 1 := by
  cases p with
  | months | pooledMonths =>
    simp only [firstMonth, lastMonth, nextKey, nextMonth]
    split <;> push_cast <;> omega
  | years m =>
    simp only [firstMonth, lastMonth, nextKey]
    omega

theorem firstMonth_le (p : Period) (k : PeriodKey) : p.firstMonth k ≤ lastMonth k := by
  cases p <;> simp only [firstMonth] <;> omega

theorem lastMonth_lt_nextKey (p : Period) (k : PeriodKey) :
    lastMonth k < lastMonth (p.nextKey k) := by
  have hfirst := p.firstMonth_nextKey k
  have hle := p.firstMonth_le (p.nextKey k)
  omega

/-- The next period begins the day after a period ends. -/
theorem firstDay_nextKey (hk : p.HasKey k) (hp : p ≠ pooledMonths) :
    (p.firstDay (p.nextKey k)).day = (lastDay k).day + 1 := by
  rw [firstDay_day (hasKey_nextKey hk hp), firstMonth_nextKey, lastDay_day hk]
  omega

/-- No period ends between a period and the next. -/
theorem lastMonth_nextKey_le (hk : p.HasKey k) (hk' : p.HasKey k') (h : lastMonth k < lastMonth k') :
    lastMonth (p.nextKey k) ≤ lastMonth k' := by
  cases p with
  | months | pooledMonths =>
    have hnext := firstMonth_nextKey .months k
    simp only [firstMonth] at hnext
    exact hnext ▸ h
  | years m =>
    have hm := hk.endMonth m rfl
    have hm' := hk'.endMonth m rfl
    simp only [lastMonth, nextKey] at *
    omega

/-! ## From the first period to the last -/

theorem head?_keysFrom (p : Period) (last : PeriodKey) (fuel : Nat) (k : PeriodKey) :
    (p.keysFrom last fuel k).head? = some k := by
  unfold keysFrom
  split
  · rfl
  · split <;> rfl

theorem isChain_keysFrom (p : Period) (last : PeriodKey) (fuel : Nat) (k : PeriodKey) :
    (p.keysFrom last fuel k).IsChain fun a b => b = p.nextKey a := by
  induction fuel generalizing k with
  | zero => exact .singleton k
  | succ fuel ih =>
    unfold keysFrom
    split
    · refine .cons (ih _) fun b hb => ?_
      rw [head?_keysFrom] at hb
      exact (Option.some.inj hb).symm
    · exact .singleton k

section KeysFrom

variable (hp : p ≠ pooledMonths) (hk : p.HasKey k) (hlast : p.HasKey last)
  (hle : lastMonth k ≤ lastMonth last) (hfuel : lastMonth last - lastMonth k ≤ fuel)

include hp hk hlast hle hfuel

/-- The fuel lasts for all periods up to the last one. -/
theorem mem_keysFrom {k' : PeriodKey} : k' ∈ p.keysFrom last fuel k ↔
    p.HasKey k' ∧ lastMonth k ≤ lastMonth k' ∧ lastMonth k' ≤ lastMonth last := by
  induction fuel generalizing k with
  | zero =>
    rw [keysFrom, List.mem_singleton]
    constructor
    · rintro rfl
      exact ⟨hk, le_refl _, hle⟩
    · rintro ⟨hk', hlow, hhigh⟩
      exact lastMonth_inj hk' hk (by omega)
  | succ fuel ih =>
    have hlt := p.lastMonth_lt_nextKey k
    have hnext := hasKey_nextKey hk hp
    unfold keysFrom
    split
    next hbefore =>
      rw [before_iff hk hlast] at hbefore
      have hle' := lastMonth_nextKey_le hk hlast hbefore
      rw [List.mem_cons, ih hnext hle' (by omega)]
      constructor
      · rintro (rfl | ⟨hk', hlow, hhigh⟩)
        · exact ⟨hk, le_refl _, hle⟩
        · exact ⟨hk', by omega, hhigh⟩
      · rintro ⟨hk', hlow, hhigh⟩
        rcases eq_or_lt_of_le hlow with heq | hlt'
        · exact .inl (lastMonth_inj hk hk' heq).symm
        · exact .inr ⟨hk', lastMonth_nextKey_le hk hk' hlt', hhigh⟩
    next hbefore =>
      rw [before_iff hk hlast] at hbefore
      rw [List.mem_singleton]
      constructor
      · rintro rfl
        exact ⟨hk, le_refl _, hle⟩
      · rintro ⟨hk', hlow, hhigh⟩
        exact lastMonth_inj hk' hk (by omega)

theorem getLast?_keysFrom : (p.keysFrom last fuel k).getLast? = some last := by
  induction fuel generalizing k with
  | zero =>
    rw [keysFrom, List.getLast?_singleton, lastMonth_inj hk hlast (by omega)]
  | succ fuel ih =>
    have hlt := p.lastMonth_lt_nextKey k
    have hnext := hasKey_nextKey hk hp
    unfold keysFrom
    split
    next hbefore =>
      rw [before_iff hk hlast] at hbefore
      have hle' := lastMonth_nextKey_le hk hlast hbefore
      rw [List.getLast?_cons, ih hnext hle' (by omega)]
      rfl
    next hbefore =>
      rw [before_iff hk hlast] at hbefore
      rw [List.getLast?_singleton, lastMonth_inj hk hlast (by omega)]

end KeysFrom

/-! ## The values of a period -/

section Values

variable {points : List (Timestamp × α)}

/-- The values on the days of a period, in the order of the record. -/
def valuesIn (p : Period) (k : PeriodKey) (points : List (Timestamp × α)) : List α :=
  (points.filter fun q => decide (p.Covers k q.1.date)).map Prod.snd

/-- The values of the days with a key. -/
def valuesAt (p : Period) (k : PeriodKey) (points : List (Timestamp × α)) : List α :=
  (points.filter fun q => decide (p.key q.1.date = k)).map Prod.snd

theorem valuesIn_eq (hk : p.HasKey k) : p.valuesIn k points = p.valuesAt k points := by
  unfold valuesIn valuesAt
  congr 1
  exact List.filter_congr fun q _ => decide_eq_decide.mpr (covers_iff hk)

theorem valuesAt_ne_nil : p.valuesAt k points ≠ [] ↔ ∃ q ∈ points, p.key q.1.date = k := by
  rw [valuesAt, Ne, List.map_eq_nil_iff, List.filter_eq_nil_iff]
  simp

/-- Each value is added to the group of its key. -/
theorem find?_grouped (points : List (Timestamp × α)) (m : OrderedMap PeriodKey (List α)) :
    (points.foldl (fun m q => addTo m (p.key q.1.date) q.2) m).find? k =
      if p.valuesAt k points = [] then m.find? k
      else some ((m.find? k).getD [] ++ p.valuesAt k points) := by
  induction points generalizing m with
  | nil => rfl
  | cons q points ih =>
    rw [List.foldl_cons, ih, addTo, OrderedMap.find?_insert]
    by_cases hkey : p.key q.1.date = k
    · have hcons : p.valuesAt k (q :: points) = q.2 :: p.valuesAt k points := by
        simp [valuesAt, hkey]
      rw [hcons, if_pos hkey.symm, if_neg (List.cons_ne_nil _ _), hkey]
      split
      next hnil => rw [hnil]
      next => simp
    · have hskip : p.valuesAt k (q :: points) = p.valuesAt k points := by
        simp [valuesAt, hkey]
      rw [hskip, if_neg (Ne.symm hkey)]

theorem nodup_grouped (points : List (Timestamp × α)) {m : OrderedMap PeriodKey (List α)}
    (hm : m.keys.Nodup) :
    (points.foldl (fun m q => addTo m (p.key q.1.date) q.2) m).keys.Nodup := by
  induction points generalizing m with
  | nil => exact hm
  | cons q points ih => exact ih (OrderedMap.nodup_insert hm _ _)

/-- The groups are the keys of the record, each with its values. -/
theorem mem_groups {vs : List α} :
    (k, vs) ∈ p.groups points ↔ p.valuesAt k points ≠ [] ∧ vs = p.valuesAt k points := by
  have hnodup := nodup_grouped (p := p) points (m := .empty) .nil
  have hfind := find?_grouped (p := p) (k := k) points .empty
  rw [OrderedMap.find?_empty, Option.getD_none, List.nil_append] at hfind
  rw [groups, List.mem_mergeSort]
  constructor
  · intro hmem
    rw [OrderedMap.find?_of_mem hnodup hmem] at hfind
    split at hfind
    · cases hfind
    next hne => exact ⟨hne, Option.some.inj hfind⟩
  · rintro ⟨hne, rfl⟩
    rw [if_neg hne] at hfind
    exact OrderedMap.mem_of_find? hfind

theorem hasKey_of_mem_groups (hp : p.Proper) {e : PeriodKey × List α} (he : e ∈ p.groups points) :
    p.HasKey e.1 := by
  obtain ⟨q, -, hkey⟩ := valuesAt_ne_nil.mp (mem_groups.mp he).1
  exact hkey ▸ hasKey_key hp q.1.date

theorem mem_keys_groups : k ∈ (p.groups points).map Prod.fst ↔ ∃ q ∈ points, p.key q.1.date = k := by
  rw [← valuesAt_ne_nil, List.mem_map]
  constructor
  · rintro ⟨e, he, rfl⟩
    exact (mem_groups.mp he).1
  · intro hne
    exact ⟨(k, _), mem_groups.mpr ⟨hne, rfl⟩, rfl⟩

/-- The groups are in the order of their periods. -/
theorem pairwise_groups (points : List (Timestamp × α)) (hp : p.Proper) :
    (p.groups points).Pairwise fun a b => lastMonth a.1 < lastMonth b.1 := by
  have hsorted : (p.groups points).Pairwise fun a b => (!PeriodKey.before b.1 a.1) = true := by
    refine List.pairwise_mergeSort (fun a b c => ?_) (fun a b => ?_) _
    · simp only [PeriodKey.before, Bool.not_eq_true', Bool.or_eq_false_iff, Bool.and_eq_false_iff,
        decide_eq_false_iff_not, beq_eq_false_iff_ne]
      omega
    · simp only [PeriodKey.before, Bool.or_eq_true, Bool.not_eq_true', Bool.or_eq_false_iff,
        Bool.and_eq_false_iff, decide_eq_false_iff_not, beq_eq_false_iff_ne]
      omega
  have hdistinct : (p.groups points).Pairwise fun a b => a.1 ≠ b.1 := by
    have hnodup := nodup_grouped (p := p) points (m := .empty) .nil
    have hperm := (List.mergeSort_perm (points.foldl (fun m q => addTo m (p.key q.1.date) q.2)
      .empty).entries fun a b => !PeriodKey.before b.1 a.1).map Prod.fst
    exact List.pairwise_map.mp (hperm.nodup_iff.mpr hnodup)
  refine (hsorted.and hdistinct).imp_of_mem fun {a b} ha hb hab => ?_
  have hka := hasKey_of_mem_groups hp ha
  have hkb := hasKey_of_mem_groups hp hb
  have hle : ¬ lastMonth b.1 < lastMonth a.1 := by
    rw [← before_iff hkb hka]
    simpa using hab.1
  have hne : lastMonth a.1 ≠ lastMonth b.1 := fun heq => hab.2 (lastMonth_inj hka hkb heq)
  omega

/-- Between the first group and the last lie all others, and the fuel of the walk from one to the
other lasts. -/
theorem keys_groups_cases (points : List (Timestamp × α)) (hp : p.Proper)
    (hpooled : p ≠ pooledMonths) :
    (points = [] ∧ p.keys (p.groups points) = []) ∨ ∃ first last fuel,
      p.keys (p.groups points) = p.keysFrom last fuel first ∧
      (∃ q ∈ points, p.key q.1.date = first) ∧ (∃ q ∈ points, p.key q.1.date = last) ∧
      lastMonth last - lastMonth first ≤ (fuel : Nat) ∧
      ∀ q ∈ points, lastMonth first ≤ lastMonth (p.key q.1.date) ∧
        lastMonth (p.key q.1.date) ≤ lastMonth last := by
  have hsorted := pairwise_groups points hp
  have hmem : ∀ q ∈ points, ∃ e ∈ p.groups points, e.1 = p.key q.1.date := fun q hq =>
    List.mem_map.mp (mem_keys_groups.mpr ⟨q, hq, rfl⟩)
  cases hhead : (p.groups points).head? with
  | none =>
    have hnil := List.head?_eq_none_iff.mp hhead
    refine .inl ⟨List.eq_nil_iff_forall_not_mem.mpr fun q hq => ?_, ?_⟩
    · obtain ⟨e, he, -⟩ := hmem q hq
      rw [hnil] at he
      cases he
    · rw [hnil]
      cases p <;> rfl
  | some first =>
    obtain ⟨rest, hgroups⟩ := List.head?_eq_some_iff.mp hhead
    have hne : p.groups points ≠ [] := hgroups ▸ List.cons_ne_nil _ _
    have hlast := List.getLast?_eq_some_getLast hne
    generalize (p.groups points).getLast hne = last at hlast
    have hfirstmem := List.mem_of_head? hhead
    have hlastmem := List.mem_of_getLast? hlast
    have hkeys : p.keys (p.groups points) =
        p.keysFrom last.1 ((last.1.1 - first.1.1 + 1).toNat * 12) first.1 := by
      unfold keys
      rw [hhead, hlast]
      cases p with
      | pooledMonths => exact absurd rfl hpooled
      | months | years _ => rfl
    have hbounds : ∀ e ∈ p.groups points,
        lastMonth first.1 ≤ lastMonth e.1 ∧ lastMonth e.1 ≤ lastMonth last.1 := by
      intro e he
      constructor
      · rw [hgroups] at hsorted he
        rcases List.mem_cons.mp he with rfl | he
        · exact le_refl _
        · exact (List.rel_of_pairwise_cons hsorted he).le
      · obtain ⟨front, hfront⟩ := List.getLast?_eq_some_iff.mp hlast
        rw [hfront] at hsorted he
        rcases List.mem_append.mp he with he | he
        · exact ((List.pairwise_append.mp hsorted).2.2 e he last List.mem_cons_self).le
        · rw [List.mem_singleton.mp he]
    have hfirst := hasKey_of_mem_groups hp hfirstmem
    have hend := hasKey_of_mem_groups hp hlastmem
    refine .inr ⟨first.1, last.1, _, hkeys, mem_keys_groups.mp (List.mem_map_of_mem hfirstmem),
      mem_keys_groups.mp (List.mem_map_of_mem hlastmem), ?_, fun q hq => ?_⟩
    · have hle := (hbounds first hfirstmem).2
      have hone := hfirst.one_le
      have htwelve := hend.le_twelve
      simp only [lastMonth] at *
      push_cast
      omega
    · obtain ⟨e, he, hkey⟩ := hmem q hq
      exact hkey ▸ hbounds e he

theorem hasKey_of_mem_keys (hp : p.Proper) (hk : k ∈ p.keys (p.groups points)) : p.HasKey k := by
  by_cases hpooled : p = pooledMonths
  · subst hpooled
    obtain ⟨e, he, rfl⟩ := List.mem_map.mp (show k ∈ (groups _ points).map Prod.fst from hk)
    exact hasKey_of_mem_groups hp he
  · rcases keys_groups_cases points hp hpooled with ⟨-, hnil⟩ |
      ⟨first, last, fuel, hkeys, ⟨q, hq, rfl⟩, ⟨q', -, rfl⟩, hfuel, hall⟩
    · rw [hnil] at hk
      cases hk
    · rw [hkeys, mem_keysFrom hpooled (hasKey_key hp _) (hasKey_key hp _) (hall q hq).2 hfuel] at hk
      exact hk.1

/-- The key of each value is among the periods. -/
theorem key_mem_keys (hp : p.Proper) {q : Timestamp × α} (hq : q ∈ points) :
    p.key q.1.date ∈ p.keys (p.groups points) := by
  by_cases hpooled : p = pooledMonths
  · subst hpooled
    exact mem_keys_groups.mpr ⟨q, hq, rfl⟩
  · rcases keys_groups_cases points hp hpooled with ⟨rfl, -⟩ |
      ⟨first, last, fuel, hkeys, ⟨q', hq', rfl⟩, ⟨q'', -, rfl⟩, hfuel, hall⟩
    · cases hq
    · rw [hkeys, mem_keysFrom hpooled (hasKey_key hp _) (hasKey_key hp _) (hall q' hq').2 hfuel]
      exact ⟨hasKey_key hp _, hall q hq⟩

/-- The periods are in the order of their months. -/
theorem pairwise_keys (hp : p.Proper) :
    (p.keys (p.groups points)).Pairwise fun a b => lastMonth a < lastMonth b := by
  by_cases hpooled : p = pooledMonths
  · subst hpooled
    exact List.pairwise_map.mpr (pairwise_groups points hp)
  · rcases keys_groups_cases points hp hpooled with ⟨-, hnil⟩ | ⟨_, _, _, hkeys, -⟩
    · rw [hnil]
      exact .nil
    · have hchain := isChain_keysFrom p
      rw [hkeys, ← List.pairwise_map (f := lastMonth), ← List.isChain_iff_pairwise,
        List.isChain_map]
      refine (hchain _ _ _).imp fun a b hb => ?_
      rw [hb]
      exact p.lastMonth_lt_nextKey a

/-! ## The periods of a record -/

/-- The periods of some days: each day lies in exactly one of them, the first and the last of them
have some of the days, and each begins the day after the one before ends. Of pooled months, all have
some of the days. -/
structure Spans (p : Period) (days : List Date) (periods : List PeriodKey) : Prop where
  hasKey : ∀ k ∈ periods, p.HasKey k
  unique : ∀ d ∈ days, ∃! k, k ∈ periods ∧ p.Covers k d
  first : ∀ k, periods.head? = some k → ∃ d ∈ days, p.Covers k d
  last : ∀ k, periods.getLast? = some k → ∃ d ∈ days, p.Covers k d
  adjoin : p ≠ pooledMonths → periods.IsChain fun k k' => (p.firstDay k').day = (lastDay k).day + 1
  pooled : p = pooledMonths → ∀ k ∈ periods, ∃ d ∈ days, p.Covers k d

theorem covered_of_key (hp : p.Proper) (h : ∃ q ∈ points, p.key q.1.date = k) :
    ∃ d ∈ points.map fun q => q.1.date, p.Covers k d := by
  obtain ⟨q, hq, rfl⟩ := h
  exact ⟨_, List.mem_map.mpr ⟨q, hq, rfl⟩, covers_key hp _⟩

theorem spans_keys (hp : p.Proper) :
    p.Spans (points.map fun q => q.1.date) (p.keys (p.groups points)) := by
  have hunique : ∀ d ∈ points.map fun q => q.1.date,
      ∃! k, k ∈ p.keys (p.groups points) ∧ p.Covers k d := by
    intro d hd
    obtain ⟨q, hq, rfl⟩ := List.mem_map.mp hd
    refine ⟨_, ⟨key_mem_keys hp hq, covers_key hp _⟩, ?_⟩
    rintro k ⟨hk, hcovers⟩
    exact ((covers_iff (hasKey_of_mem_keys hp hk)).mp hcovers).symm
  by_cases hpooled : p = pooledMonths
  · have hheld : ∀ k ∈ p.keys (p.groups points), ∃ d ∈ points.map fun q => q.1.date,
        p.Covers k d := by
      subst hpooled
      exact fun k hk => covered_of_key hp (mem_keys_groups.mp hk)
    exact ⟨fun k hk => hasKey_of_mem_keys hp hk, hunique, fun k hk => hheld k (List.mem_of_head? hk),
      fun k hk => hheld k (List.mem_of_getLast? hk), fun h => absurd hpooled h, fun _ => hheld⟩
  · refine ⟨fun k hk => hasKey_of_mem_keys hp hk, hunique, fun k hk => ?_, fun k hk => ?_,
      fun _ => ?_, fun h => absurd h hpooled⟩
    all_goals
      rcases keys_groups_cases points hp hpooled with ⟨-, hnil⟩ |
        ⟨first, last, fuel, hkeys, hfirst, hlast, hfuel, hall⟩
    · rw [hnil] at hk
      cases hk
    · rw [hkeys, head?_keysFrom] at hk
      exact Option.some.inj hk ▸ covered_of_key hp hfirst
    · rw [hnil] at hk
      cases hk
    · obtain ⟨q, hq, rfl⟩ := hfirst
      obtain ⟨q', hq', rfl⟩ := hlast
      rw [hkeys, getLast?_keysFrom hpooled (hasKey_key hp _) (hasKey_key hp _) (hall q hq).2 hfuel]
        at hk
      exact Option.some.inj hk ▸ covered_of_key hp ⟨q', hq', rfl⟩
    · rw [hnil]
      exact .nil
    · have hhas : ∀ k ∈ p.keys (p.groups points), p.HasKey k := fun k hk =>
        hasKey_of_mem_keys hp hk
      rw [hkeys] at hhas ⊢
      refine (isChain_keysFrom p last fuel first).imp_of_mem_imp fun a b ha _ hab => ?_
      rw [hab]
      exact firstDay_nextKey (hhas a ha) hpooled

end Values

/-! ## The moments of periods -/

/-- The day at which the value of a period is put. -/
def stampDay (p : Period) (at_ : PeriodStamp) (k : PeriodKey) : Date :=
  if p ≠ pooledMonths ∧ at_ = .start then p.firstDay k else lastDay k

theorem monthStart?_eq_some {year : Int} {month : Nat} {t : Timestamp}
    (h : monthStart? year month = some t) :
    t = .ofDate (.ofCivil ⟨year, month, 1⟩) 0 ∧
      (Date.ofCivil ⟨year, month, 1⟩).inCalendar = true := by
  obtain ⟨d, hd, rfl⟩ := Option.map_eq_some_iff.mp h
  have hin := Date.inCalendar_of_ofYmd? hd
  obtain ⟨rfl, -⟩ := Date.ofYmd?_eq_some hd
  exact ⟨rfl, hin⟩

theorem monthEnd?_eq_some (hk : p.HasKey k) {t : Timestamp} (h : monthEnd? k.1 k.2 = some t) :
    t = .ofDate (lastDay k) 0 ∧ (lastDay k).inCalendar = true := by
  obtain ⟨d, hd, rfl⟩ := Option.map_eq_some_iff.mp h
  obtain ⟨rfl, hin⟩ := Date.lastDayOfMonth?_eq_ofCivil hk.one_le hd
  exact ⟨rfl, hin⟩

/-- A year starts with the month after the one that ends the year before. -/
theorem stamp?_years_start (m : Nat) (k : PeriodKey) : (years m).stamp? k .start =
    monthStart? (nextMonth (k.1 - 1) m).1 (nextMonth (k.1 - 1) m).2 := by
  unfold nextMonth
  split
  next htwelve =>
    subst htwelve
    rw [Int.sub_add_cancel]
    rfl
  next hne =>
    unfold stamp?
    split
    next h _ => cases h
    next h _ => exact absurd (Period.years.inj h) hne
    next h _ => rw [Period.years.inj h]
    next hnot => exact absurd rfl fun h => hnot m h rfl

/-- The value of a period is put at the midnight that begins its day. -/
theorem stamp?_eq_some {at_ : PeriodStamp} {t : Timestamp} (hk : p.HasKey k)
    (h : p.stamp? k at_ = some t) :
    t = .ofDate (p.stampDay at_ k) 0 ∧ (p.stampDay at_ k).inCalendar = true := by
  unfold stampDay
  split
  next hstart =>
    obtain ⟨hpooled, rfl⟩ := hstart
    cases p with
    | pooledMonths => exact absurd rfl hpooled
    | months => exact monthStart?_eq_some h
    | years m =>
      have hm := hk.endMonth m rfl
      rw [stamp?_years_start] at h
      rw [firstDay, hm]
      exact monthStart?_eq_some h
  next hend =>
    refine monthEnd?_eq_some hk ?_
    unfold stamp? at h
    split at h
    · exact absurd ⟨by rintro ⟨⟩, rfl⟩ hend
    · exact absurd ⟨by rintro ⟨⟩, rfl⟩ hend
    · exact absurd ⟨by rintro ⟨⟩, rfl⟩ hend
    · exact h

/-- Periods that end one after the other are put one after the other. -/
theorem stampDay_lt {at_ : PeriodStamp} (hk : p.HasKey k) (hk' : p.HasKey k')
    (h : lastMonth k < lastMonth k') : (p.stampDay at_ k).day < (p.stampDay at_ k').day := by
  unfold stampDay
  split
  · rw [firstDay_day hk, firstDay_day hk']
    refine Date.monthBegin_lt_monthBegin.mpr ?_
    cases p <;> simp only [firstMonth] <;> omega
  · have hlt := Date.monthBegin_lt_monthBegin.mpr (Int.add_lt_add_right h 1)
    rw [lastDay_day hk, lastDay_day hk']
    omega

/-- The point of a period: its moment, and the statistic of the values on its days. -/
def point (p : Period) (at_ : PeriodStamp) (s : Statistic) (points : List (Timestamp × Double))
    (k : PeriodKey) : Timestamp × Option Double :=
  (.ofDate (p.stampDay at_ k) 0, s.value? (p.valuesIn k points))

/-- Too few values have no statistic. -/
theorem value?_nil (s : Statistic) : s.value? ([] : List Double) = none := by
  cases s with
  | median => simp [Statistic.value?, Stat.median?, Stat.quantile?, Arith.sort]
  | sum | mean | stdDev | maximum | minimum | range => rfl

section Table

variable {at_ : PeriodStamp} {s : Statistic} {points : List (Timestamp × Double)}
  {table : List (Timestamp × Option Double)}

/-- The statistic of a group is that of the values in its period. -/
theorem value?_lookup (hk : p.HasKey k) : ((p.groups points).lookup k).bind s.value? =
    s.value? (p.valuesIn k points) := by
  rw [valuesIn_eq hk]
  cases hfind : (p.groups points).lookup k with
  | none =>
    have hnil : p.valuesAt k points = [] := by
      by_contra hne
      have hother := List.lookup_eq_none_iff.mp hfind _ (mem_groups.mpr ⟨hne, rfl⟩)
      simp at hother
    rw [hnil, value?_nil]
    rfl
  | some vs =>
    obtain ⟨before, after, hgroups, -⟩ := List.lookup_eq_some_iff.mp hfind
    have hmem : (k, vs) ∈ p.groups points := by simp [hgroups]
    rw [(mem_groups.mp hmem).2]
    rfl

/-- The points are those of the periods, in their order, and lie in the calendar. -/
theorem statistics_eq_ok (hp : p.Proper) (h : p.statistics at_ s points = .ok table) :
    table = (p.keys (p.groups points)).map (p.point at_ s points) ∧
      ∀ e ∈ table, e.1.date.inCalendar = true := by
  refine eq_map_of_mapM_and h fun k hk e he => ?_
  have hkey := hasKey_of_mem_keys hp hk
  split at he
  next t hstamp =>
    obtain ⟨rfl, hin⟩ := stamp?_eq_some hkey hstamp
    rw [value?_lookup hkey] at he
    obtain rfl := Except.ok.inj he
    exact ⟨rfl, by rwa [Timestamp.date_midnight]⟩
  · cases he

/-- The points of the periods increase in time. -/
theorem increasing_points (hp : p.Proper) :
    Increasing (((p.keys (p.groups points)).map (p.point at_ s points)).map Prod.fst) := by
  rw [List.map_map, Increasing, List.pairwise_map]
  refine (pairwise_keys hp).imp_of_mem fun {a b} ha hb hlt => ?_
  exact Timestamp.midnight_lt_midnight.mpr
    (stampDay_lt (hasKey_of_mem_keys hp ha) (hasKey_of_mem_keys hp hb) hlt)

end Table

end Period

end Hydroseries
