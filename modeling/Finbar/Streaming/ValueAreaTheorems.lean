/-
Finbar.Streaming.ValueAreaTheorems — the value area is expanded greedily and no
further than needed.

`expandStep` is one pass of the loop of `expand_value_area`; `expandStep_cases` says
once what it can do. Every area on the way holds the point of control and the volume
of its buckets (`Covers`), each pass takes in one more bucket, and the last area
reaches the target or spans all buckets (`expandValueArea_greedy`).

The areas that the loop can go through, whatever its target, are the greedy growth
from the point of control (`Growth`). With a total that is not the sum of the profile
the value area holds 68% of the sum, and no more than the total, exactly if the growth
fits both (`expandValueArea_fits_iff`).

No `sorry`, no `axiom`.
-/
import Finbar.Lib.While
import Finbar.Streaming.VolumeProfile
import Mathlib.Algebra.BigOperators.Fin
import Mathlib.Algebra.BigOperators.Intervals
import Mathlib.Algebra.Order.BigOperators.Group.Finset
import Mathlib.Algebra.Order.BigOperators.Group.List

namespace Finbar.Streaming

open Lib

/-! ## §1 One pass -/

/-- An area: its lower and upper bucket, and the volume in it. -/
abbrev Area := ℕ × ℕ × ℚ

/-- One pass of the loop of `expand_value_area`. -/
def expandStep (profile : List ℚ) (target tol : ℚ) : Area → Option Area
  | (lower, upper, accumulated) =>
      let last := profile.length - 1
      if accumulated < target ∧ (0 < lower ∨ upper < last) then
        let below := if 0 < lower then profile.getD (lower - 1) 0 else -1
        let above := if upper < last then profile.getD (upper + 1) 0 else -1
        if above + tol < below then
          some (lower - 1, upper, accumulated + profile.getD (lower - 1) 0)
        else if upper < last then
          some (lower, upper + 1, accumulated + profile.getD (upper + 1) 0)
        else if 0 < lower then
          some (lower - 1, upper, accumulated + profile.getD (lower - 1) 0)
        else none
      else none

theorem expandLoop_eq_run (profile : List ℚ) (target tol : ℚ) (fuel lower upper : ℕ)
    (accumulated : ℚ) :
    expandLoop profile target tol fuel lower upper accumulated =
      While.run (expandStep profile target tol) fuel (lower, upper, accumulated) := by
  induction fuel generalizing lower upper accumulated with
  | zero => rfl
  | succ fuel ih =>
      simp only [expandLoop, While.run, expandStep]
      split_ifs <;> simp [ih]

/-- The neighbour with the larger volume is taken in: the bucket below when it
exceeds the one above by more than the tolerance, or there is none above; the bucket
above when the one below does not, or there is none below. -/
inductive TakesLarger (profile : List ℚ) (tol : ℚ) : Area → Area → Prop
  | below {lower upper : ℕ} {accumulated : ℚ} (hlower : 0 < lower)
      (hlarger : upper + 1 < profile.length →
        profile.getD (upper + 1) 0 + tol < profile.getD (lower - 1) 0) :
      TakesLarger profile tol (lower, upper, accumulated)
        (lower - 1, upper, accumulated + profile.getD (lower - 1) 0)
  | above {lower upper : ℕ} {accumulated : ℚ} (hupper : upper + 1 < profile.length)
      (hlarger : 0 < lower →
        profile.getD (lower - 1) 0 ≤ profile.getD (upper + 1) 0 + tol) :
      TakesLarger profile tol (lower, upper, accumulated)
        (lower, upper + 1, accumulated + profile.getD (upper + 1) 0)

section Greedy

variable {profile : List ℚ} {target tol : ℚ}

theorem getD_nonneg (hprofile : ∀ x ∈ profile, 0 ≤ x) (i : ℕ) : 0 ≤ profile.getD i 0 := by
  rw [List.getD_eq_getElem?_getD]
  cases hi : profile[i]? with
  | none => simp
  | some x => exact hprofile x (List.mem_of_getElem? hi)

/-- **What a pass can do**: below the target, it takes in the larger neighbour. -/
theorem expandStep_cases (hprofile : ∀ x ∈ profile, 0 ≤ x) (htol : 0 ≤ tol) {area next : Area}
    (h : expandStep profile target tol area = some next) :
    area.2.2 < target ∧ TakesLarger profile tol area next := by
  obtain ⟨lower, upper, accumulated⟩ := area
  have habove := getD_nonneg hprofile (upper + 1)
  simp only [expandStep] at h
  split at h
  · rename_i hcontinue
    refine ⟨hcontinue.1, ?_⟩
    by_cases hlower : 0 < lower
    · by_cases hupper : upper < profile.length - 1
      · simp only [if_pos hlower, if_pos hupper] at h
        split at h
        · rename_i hlarger
          obtain rfl := Option.some.inj h
          exact .below hlower fun _ => hlarger
        · rename_i hlarger
          obtain rfl := Option.some.inj h
          exact .above (by omega) fun _ => not_lt.mp hlarger
      · -- with no bucket above, both ways down take the bucket below
        have hbelow : some (lower - 1, upper, accumulated + profile.getD (lower - 1) 0)
            = some next := by
          simpa only [if_pos hlower, if_neg hupper, ite_self] using h
        obtain rfl := Option.some.inj hbelow
        exact .below hlower fun hupper' => absurd hupper' (by omega)
    · have hupper : upper < profile.length - 1 := hcontinue.2.resolve_left hlower
      have hlarger : ¬ profile.getD (upper + 1) 0 + tol < -1 := by linarith
      simp only [if_neg hlower, if_pos hupper, if_neg hlarger] at h
      obtain rfl := Option.some.inj h
      exact .above (by omega) fun hlower' => absurd hlower' hlower
  · cases h

/-- The loop is done when the target is reached or all buckets are taken in. -/
theorem expandStep_done {lower upper : ℕ} {accumulated : ℚ}
    (h : expandStep profile target tol (lower, upper, accumulated) = none) :
    target ≤ accumulated ∨ (lower = 0 ∧ profile.length ≤ upper + 1) := by
  by_contra hcontinue
  rw [not_or, not_le] at hcontinue
  obtain ⟨hbelow, hroom⟩ := hcontinue
  simp only [expandStep] at h
  rw [if_pos ⟨hbelow, by omega⟩] at h
  split_ifs at h
  omega

/-! ## §2 The areas on the way -/

/-- The area lies within the profile, holds the point of control, and its volume is
the sum of its buckets. -/
structure Covers (profile : List ℚ) (pocIdx : ℕ) (area : Area) : Prop where
  lower_le : area.1 ≤ pocIdx
  le_upper : pocIdx ≤ area.2.1
  upper_lt : area.2.1 < profile.length
  volume : area.2.2 = ∑ i ∈ Finset.Ico area.1 (area.2.1 + 1), profile.getD i 0

theorem covers_start {pocIdx : ℕ} (hpoc : pocIdx < profile.length) :
    Covers profile pocIdx (pocIdx, pocIdx, profile.getD pocIdx 0) where
  lower_le := le_rfl
  le_upper := le_rfl
  upper_lt := hpoc
  volume := by simp

/-- Taking in a neighbour keeps to the profile and leaves one bucket less outside. -/
theorem Covers.takesLarger {pocIdx : ℕ} {area next : Area} (h : Covers profile pocIdx area)
    (htakes : TakesLarger profile tol area next) :
    Covers profile pocIdx next ∧
      next.1 + (profile.length - next.2.1) < area.1 + (profile.length - area.2.1) := by
  obtain ⟨hlower, hupper, hlt, hvolume⟩ := h
  cases htakes with
  | @below lower upper accumulated hpos _ =>
      dsimp only at hlower hupper hlt hvolume
      refine ⟨⟨show lower - 1 ≤ pocIdx by omega, hupper, hlt, ?_⟩,
        show lower - 1 + (profile.length - upper) < lower + (profile.length - upper) by omega⟩
      obtain ⟨lower, rfl⟩ : ∃ k, lower = k + 1 := ⟨lower - 1, by omega⟩
      simp only [Nat.add_sub_cancel]
      rw [hvolume, Finset.sum_eq_sum_Ico_succ_bot (by omega : lower < upper + 1), add_comm]
  | @above lower upper accumulated hroom _ =>
      dsimp only at hlower hupper hlt hvolume
      refine ⟨⟨hlower, show pocIdx ≤ upper + 1 by omega, hroom, ?_⟩,
        show lower + (profile.length - (upper + 1)) < lower + (profile.length - upper) by omega⟩
      dsimp only
      rw [hvolume, Finset.sum_Ico_succ_top (by omega : lower ≤ upper + 1)]

end Greedy

/-- **The value area is expanded greedily.** For every profile without negative
volume, every point of control in it and every target fraction of its sum, the loop
ends; the area it ends with holds the point of control and the volume of its buckets,
and reaches the target or spans the profile; and each pass on the way starts below the
target and takes in the neighbour with the larger volume. -/
theorem expandValueArea_greedy {profile : List ℚ} (hprofile : ∀ x ∈ profile, 0 ≤ x)
    {pocIdx : ℕ} (hpoc : pocIdx < profile.length) (targetFraction : ℚ) :
    let target := profile.sum * targetFraction
    let tol := max profile.sum 0 * (1 / 10 ^ 9)
    let step := expandStep profile target tol
    let start : Area := (pocIdx, pocIdx, profile.getD pocIdx 0)
    let area := expandValueAreaTo profile pocIdx profile.sum targetFraction
    (step area = none ∧ ∀ passes ≥ profile.length, While.run step passes start = area) ∧
      Covers profile pocIdx area ∧
      (target ≤ area.2.2 ∨ (area.1 = 0 ∧ area.2.1 + 1 = profile.length)) ∧
      While.Passes step start area ∧
      ∀ before next, While.Passes step start before → step before = some next →
        before.2.2 < target ∧ TakesLarger profile tol before next := by
  intro target tol step start area
  have htol : 0 ≤ tol := mul_nonneg (le_max_right _ _) (by norm_num)
  have hpass : ∀ before next, Covers profile pocIdx before → step before = some next →
      Covers profile pocIdx next ∧
        next.1 + (profile.length - next.2.1) < before.1 + (profile.length - before.2.1) :=
    fun before next h hnext => h.takesLarger (expandStep_cases hprofile htol hnext).2
  have harea : area = While.run step profile.length start :=
    expandLoop_eq_run profile target tol profile.length pocIdx pocIdx _
  have hdone : step (While.run step profile.length start) = none :=
    While.done_of_measure (I := Covers profile pocIdx)
      (fun a => a.1 + (profile.length - a.2.1)) hpass (covers_start hpoc)
      (show pocIdx + (profile.length - pocIdx) ≤ profile.length by omega)
  have hcovers : Covers profile pocIdx area :=
    harea ▸ While.run_invariant (fun a b ha hb => (hpass a b ha hb).1) (covers_start hpoc) _
  refine ⟨⟨harea ▸ hdone, fun passes hpasses => ?_⟩, hcovers, ?_, ?_, ?_⟩
  · rw [harea]
    exact While.run_eq_of_done hdone hpasses
  · rcases expandStep_done (harea ▸ hdone : step area = none) with hreached | ⟨hlower, hupper⟩
    · exact .inl hreached
    · exact .inr ⟨hlower, le_antisymm hcovers.upper_lt hupper⟩
  · rw [harea]
    exact While.passes_run step start profile.length
  · exact fun before next _ hnext => expandStep_cases hprofile htol hnext

/-- Around the five units in the middle the two above are taken in, not the one
below. -/
theorem expandValueArea_greedy_three :
    expandValueAreaTo [1, 5, 2] 1 ([1, 5, 2] : List ℚ).sum (68 / 100) = (1, 2, 7) ∧
      Covers [1, 5, 2] 1 (expandValueAreaTo [1, 5, 2] 1 ([1, 5, 2] : List ℚ).sum (68 / 100)) :=
  ⟨by decide +kernel,
    (expandValueArea_greedy (by decide +kernel) (by decide) (68 / 100)).2.1⟩

/-! ## §3 Growth and where it stops -/

/-- An area that the greedy growth from the point of control goes through. -/
def Growth (profile : List ℚ) (tol : ℚ) (pocIdx : ℕ) (area : Area) : Prop :=
  Relation.ReflTransGen (TakesLarger profile tol) (pocIdx, pocIdx, profile.getD pocIdx 0) area

section Growth

variable {profile : List ℚ} {tol target : ℚ} {pocIdx : ℕ}

/-- There is one larger neighbour. -/
theorem takesLarger_unique {area next next' : Area} (h : TakesLarger profile tol area next)
    (h' : TakesLarger profile tol area next') : next = next' := by
  cases h with
  | below hlower hlarger =>
      cases h' with
      | below => rfl
      | above hupper hlarger' => exact absurd (hlarger hupper) (not_lt.mpr (hlarger' hlower))
  | above hupper hlarger =>
      cases h' with
      | below hlower hlarger' => exact absurd (hlarger' hupper) (not_lt.mpr (hlarger hlower))
      | above => rfl

theorem TakesLarger.le {area next : Area} (hprofile : ∀ x ∈ profile, 0 ≤ x)
    (h : TakesLarger profile tol area next) : area.2.2 ≤ next.2.2 := by
  cases h with
  | below => exact le_add_of_nonneg_right (getD_nonneg hprofile _)
  | above => exact le_add_of_nonneg_right (getD_nonneg hprofile _)

/-- Growing takes volume in. -/
theorem growth_le {area later : Area} (hprofile : ∀ x ∈ profile, 0 ≤ x)
    (h : Relation.ReflTransGen (TakesLarger profile tol) area later) :
    area.2.2 ≤ later.2.2 := by
  induction h with
  | refl => exact le_refl _
  | tail _ hstep ih => exact ih.trans (hstep.le hprofile)

theorem Growth.covers {area : Area} (hpoc : pocIdx < profile.length)
    (h : Growth profile tol pocIdx area) : Covers profile pocIdx area := by
  induction h with
  | refl => exact covers_start hpoc
  | tail _ hstep ih => exact (ih.takesLarger hstep).1

/-- An area that spans the profile has no neighbour. -/
theorem not_takesLarger_of_whole {lower upper : ℕ} {volume : ℚ} {next : Area} (hlower : lower = 0)
    (hupper : profile.length ≤ upper + 1) :
    ¬ TakesLarger profile tol (lower, upper, volume) next := by
  intro h
  cases h with
  | below hpos => omega
  | above hroom => omega

/-- **The expansion passes through the growth and stops at the target, or when the
profile is spanned.** -/
theorem expandLoop_stops (target : ℚ) (hprofile : ∀ x ∈ profile, 0 ≤ x) (htol : 0 ≤ tol)
    (hpoc : pocIdx < profile.length) :
    let start : Area := (pocIdx, pocIdx, profile.getD pocIdx 0)
    let last := expandLoop profile target tol profile.length pocIdx pocIdx
      (profile.getD pocIdx 0)
    While.Passes (expandStep profile target tol) start last ∧
      (target ≤ last.2.2 ∨ (last.1 = 0 ∧ profile.length ≤ last.2.1 + 1)) := by
  intro start last
  have hlast : last = While.run (expandStep profile target tol) profile.length start :=
    expandLoop_eq_run profile target tol profile.length pocIdx pocIdx _
  have hpass : ∀ before next, Covers profile pocIdx before →
      expandStep profile target tol before = some next → Covers profile pocIdx next ∧
        next.1 + (profile.length - next.2.1) < before.1 + (profile.length - before.2.1) :=
    fun before next h hnext => h.takesLarger (expandStep_cases hprofile htol hnext).2
  have hdone : expandStep profile target tol last = none := by
    rw [hlast]
    exact While.done_of_measure (I := Covers profile pocIdx)
      (fun a => a.1 + (profile.length - a.2.1)) hpass (covers_start hpoc)
      (show pocIdx + (profile.length - pocIdx) ≤ profile.length by omega)
  refine ⟨?_, expandStep_done hdone⟩
  rw [hlast]
  exact While.passes_run _ _ _

theorem growth_of_passes (hprofile : ∀ x ∈ profile, 0 ≤ x) (htol : 0 ≤ tol) {area : Area}
    (h : While.Passes (expandStep profile target tol)
      (pocIdx, pocIdx, profile.getD pocIdx 0) area) : Growth profile tol pocIdx area :=
  Relation.ReflTransGen.mono
    (fun _ _ hstep => (expandStep_cases hprofile htol hstep).2) _ _ h

theorem sum_eq_sum_range (profile : List ℚ) :
    profile.sum = ∑ i ∈ Finset.range profile.length, profile.getD i 0 := by
  induction profile with
  | nil => simp
  | cons x xs ih =>
      rw [List.sum_cons, ih, List.length_cons, Finset.sum_range_succ']
      simp [add_comm]

/-- An area holds no more than the profile, and all of it if it spans it. -/
theorem Covers.le_sum {area : Area} (hprofile : ∀ x ∈ profile, 0 ≤ x)
    (h : Covers profile pocIdx area) : area.2.2 ≤ profile.sum := by
  rw [h.volume, sum_eq_sum_range]
  refine Finset.sum_le_sum_of_subset_of_nonneg ?_ fun i _ _ => getD_nonneg hprofile i
  intro i hi
  have hlt := h.upper_lt
  rw [Finset.mem_Ico] at hi
  rw [Finset.mem_range]
  omega

theorem Covers.eq_sum_of_whole {area : Area} (h : Covers profile pocIdx area)
    (hlower : area.1 = 0) (hupper : profile.length ≤ area.2.1 + 1) :
    area.2.2 = profile.sum := by
  have hlt := h.upper_lt
  rw [h.volume, sum_eq_sum_range, hlower, Finset.range_eq_Ico]
  congr 2
  omega

/-- The growth fits a total that differs from the sum of the profile: every area of it
that holds 68% of the total holds 68% of the sum too, and no step of it leads from less
than 68% of the total to more than the total. -/
structure GrowthFits (profile : List ℚ) (pocIdx : ℕ) (total : ℚ) : Prop where
  share : ∀ area, Growth profile (max total 0 * (1 / 10 ^ 9)) pocIdx area →
    total * (68 / 100) ≤ area.2.2 → profile.sum * (68 / 100) ≤ area.2.2
  bound : ∀ area next, Growth profile (max total 0 * (1 / 10 ^ 9)) pocIdx area →
    TakesLarger profile (max total 0 * (1 / 10 ^ 9)) area next →
    area.2.2 < total * (68 / 100) → next.2.2 ≤ total

/-- A total that is not below the sum always fits. -/
theorem growthFits_of_sum_le {total : ℚ} (hprofile : ∀ x ∈ profile, 0 ≤ x)
    (hpoc : pocIdx < profile.length) (h : profile.sum ≤ total) :
    GrowthFits profile pocIdx total where
  share := by
    intro area _ hreached
    linarith
  bound := by
    intro area next hgrowth hstep _
    have hnext : Growth profile _ pocIdx next := hgrowth.tail hstep
    exact ((hnext.covers hpoc).le_sum hprofile).trans h

/-- **The value area holds 68% of the sum and no more than the total exactly if the
growth fits.** -/
theorem expandValueArea_fits_iff {total : ℚ} (hprofile : ∀ x ∈ profile, 0 ≤ x)
    (hpoc : pocIdx < profile.length) (hstart : profile.getD pocIdx 0 ≤ total) :
    profile.sum * (68 / 100) ≤ (expandValueArea profile pocIdx total).2.2 ∧
        (expandValueArea profile pocIdx total).2.2 ≤ total ↔
      GrowthFits profile pocIdx total := by
  have htol : 0 ≤ max total 0 * (1 / 10 ^ 9 : ℚ) := mul_nonneg (le_max_right _ _) (by norm_num)
  obtain ⟨hpasses, hstop⟩ := expandLoop_stops (total * (68 / 100)) hprofile htol hpoc
  have hpass : ∀ a b, expandStep profile (total * (68 / 100)) (max total 0 * (1 / 10 ^ 9)) a
      = some b → TakesLarger profile (max total 0 * (1 / 10 ^ 9)) a b :=
    fun a b hstep => (expandStep_cases hprofile htol hstep).2
  have hbelow : ∀ a b, expandStep profile (total * (68 / 100)) (max total 0 * (1 / 10 ^ 9)) a
      = some b → a.2.2 < total * (68 / 100) :=
    fun a b hstep => (expandStep_cases hprofile htol hstep).1
  have hunique : ∀ a b c, TakesLarger profile (max total 0 * (1 / 10 ^ 9)) a b →
      TakesLarger profile (max total 0 * (1 / 10 ^ 9)) a c → b = c :=
    fun a b c => takesLarger_unique
  have hgrowth := growth_of_passes hprofile htol hpasses
  have hcovers := hgrowth.covers hpoc
  have hsum : 0 ≤ profile.sum := List.sum_nonneg hprofile
  show profile.sum * (68 / 100) ≤ (expandLoop _ _ _ _ _ _ _).2.2 ∧
    (expandLoop _ _ _ _ _ _ _).2.2 ≤ total ↔ _
  generalize expandLoop profile (total * (68 / 100)) (max total 0 * (1 / 10 ^ 9)) profile.length
    pocIdx pocIdx (profile.getD pocIdx 0) = last at hpasses hstop hgrowth hcovers ⊢
  constructor
  · rintro ⟨hshare, htotal⟩
    refine ⟨fun area harea hreached => ?_, fun area next harea hstep hlow => ?_⟩
    · -- an area that reached the target is not one the expansion passed
      rcases hpasses.split hunique hpass harea with hlater | ⟨next, hstep, -⟩
      · exact hshare.trans (growth_le hprofile hlater)
      · exact absurd hreached (not_le.mpr (hbelow _ _ hstep))
    · rcases hpasses.split hunique hpass harea with hlater | ⟨next', hstep', hrest⟩
      · -- below the target after the last area, so that spans the profile
        have hle := growth_le hprofile hlater
        rcases hstop with hreached | ⟨hlower, hupper⟩
        · exact absurd hlow (not_lt.mpr (hreached.trans hle))
        · have hstuck : ∀ area', ¬ TakesLarger profile (max total 0 * (1 / 10 ^ 9)) last area' :=
            fun area' => not_takesLarger_of_whole hlower hupper
          rcases Relation.ReflTransGen.cases_head hlater with rfl | ⟨area', hfirst, -⟩
          · exact absurd hstep (hstuck next)
          · exact absurd hfirst (hstuck area')
      · obtain rfl := hunique _ _ _ hstep (hpass _ _ hstep')
        have hnext := Relation.ReflTransGen.mono hpass _ _ hrest
        exact (growth_le hprofile hnext).trans htotal
  · intro hfits
    refine ⟨?_, ?_⟩
    · rcases hstop with hreached | ⟨hlower, hupper⟩
      · exact hfits.share last hgrowth hreached
      · rw [hcovers.eq_sum_of_whole hlower hupper]
        linarith
    · rcases Relation.ReflTransGen.cases_tail hpasses with rfl | ⟨before, hrest, hstep⟩
      · exact hstart
      · exact hfits.bound before last (growth_of_passes hprofile htol hrest) (hpass _ _ hstep)
          (hbelow _ _ hstep)

end Growth

end Finbar.Streaming
