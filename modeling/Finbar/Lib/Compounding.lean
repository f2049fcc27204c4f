/-
Finbar.Lib.Compounding — growth over consecutive periods, and what rounding the
growth factors does to their product.

Items carry the key of their period and a value. A period grows from the last
value before it to its own last value. The growth factors of the first periods
multiply up to the value reached (`prod_growth_mul`), so the growth of a coarser
period is the product of those of the finer ones in it (`prod_growth_fine`).
Factors that are off by at most some bounds have a product that is off by at
most what the bounds add to the product of the factors (`abs_prod_sub_prod_le`).

No `sorry`, no `axiom`.
-/
import Mathlib.Algebra.BigOperators.Group.List.Basic
import Mathlib.Algebra.Order.BigOperators.GroupWithZero.List
import Mathlib.Algebra.Order.Field.Basic
import Mathlib.Data.List.Induction
import Mathlib.Data.List.Sort
import Mathlib.Tactic.Linarith
import Mathlib.Tactic.Ring

namespace Lib.Compounding

/-! ## §1 Periods -/

section Periods

variable {α κ ι F : Type} [LinearOrder κ] [LinearOrder ι] [Field F] {key : α → κ} {value : α → F}
  {xs : List α} {ks : List κ}

/-- The last value of the items that satisfy `p`, the first value of all if there are none. -/
def reached (value : α → F) (xs : List α) (p : α → Bool) : F :=
  ((xs.filter p).map value).getLast?.getD ((xs.map value).head?.getD 0)

/-- The last value of a period. -/
def closing (key : α → κ) (value : α → F) (xs : List α) (k : κ) : F :=
  reached value xs fun x => decide (key x = k)

/-- The last value before a period, the first one of all if nothing is before it. -/
def opening (key : α → κ) (value : α → F) (xs : List α) (k : κ) : F :=
  reached value xs fun x => decide (key x < k)

/-- The growth factor of a period. -/
def growth (key : α → κ) (value : α → F) (xs : List α) (k : κ) : F :=
  closing key value xs k / opening key value xs k

/-- The periods of the items, in order. -/
structure Periods (key : α → κ) (xs : List α) (ks : List κ) : Prop where
  sorted : ks.Pairwise (· < ·)
  mem_iff : ∀ k, k ∈ ks ↔ k ∈ xs.map key

/-- Distinct keys, sorted. -/
theorem periods_insertionSort {keys : List κ} (hnodup : keys.Nodup)
    (hmem : ∀ k, k ∈ keys ↔ k ∈ xs.map key) : Periods key xs (keys.insertionSort (· ≤ ·)) where
  sorted := by
    have hperm := List.perm_insertionSort (· ≤ ·) keys
    have hne : (keys.insertionSort (· ≤ ·)).Nodup := hperm.nodup_iff.mpr hnodup
    exact (List.pairwise_insertionSort (· ≤ ·) keys).imp₂ (fun _ _ => lt_of_le_of_ne) hne
  mem_iff k := by rw [(List.perm_insertionSort (· ≤ ·) keys).mem_iff, hmem]

theorem Periods.nodup (h : Periods key xs ks) : ks.Nodup :=
  h.sorted.imp fun hlt => hlt.ne

/-- The first period begins with the first item. -/
theorem Periods.head?_filter {k : κ} (h : Periods key xs (k :: ks))
    (hxs : (xs.map key).Pairwise (· ≤ ·)) :
    (xs.filter fun x => decide (key x = k)).head? = xs.head? := by
  cases xs with
  | nil => rfl
  | cons x xs =>
      obtain ⟨y, hy, hyk⟩ := List.mem_map.mp ((h.mem_iff k).mp List.mem_cons_self)
      have hxk : key x ≤ k := by
        rw [← hyk]
        rcases List.mem_cons.mp hy with rfl | hy
        · exact le_refl _
        · exact (List.pairwise_cons.mp hxs).1 _ (List.mem_map_of_mem hy)
      have hkx : k ≤ key x := by
        rcases List.mem_cons.mp ((h.mem_iff _).mpr (List.mem_map_of_mem List.mem_cons_self))
          with heq | hlater
        · exact heq.ge
        · exact ((List.pairwise_cons.mp h.sorted).1 _ hlater).le
      have hx : decide (key x = k) = true := decide_eq_true (le_antisymm hxk hkx)
      rw [List.filter_cons, if_pos hx]
      rfl

theorem reached_congr {p q : α → Bool} (h : ∀ x ∈ xs, p x = q x) :
    reached value xs p = reached value xs q := by
  unfold reached
  rw [List.filter_congr h]

theorem reached_of_none {p : α → Bool} (h : ∀ x ∈ xs, ¬ p x) :
    reached value xs p = (xs.map value).head?.getD 0 := by
  unfold reached
  rw [List.filter_eq_nil_iff.mpr h]
  rfl

/-- What holds of every value holds of the ones reached. -/
theorem reached_induction {P : F → Prop} (h : ∀ x ∈ xs, P (value x)) (hne : xs ≠ [])
    (p : α → Bool) : P (reached value xs p) := by
  unfold reached
  cases hlast : ((xs.filter p).map value).getLast? with
  | some v =>
      obtain ⟨x, hx, rfl⟩ := List.mem_map.mp (List.mem_of_getLast? hlast)
      exact h x (List.mem_of_mem_filter hx)
  | none =>
      cases xs with
      | nil => exact absurd rfl hne
      | cons x xs => exact h x List.mem_cons_self

/-- In order, the items that satisfy what earlier items satisfy too come first. -/
theorem filter_append_filter_not {R : α → α → Prop} {p : α → Bool} (h : xs.Pairwise R)
    (hp : ∀ x y, R x y → p y → p x) : xs.filter p ++ xs.filter (fun x => !p x) = xs := by
  induction xs with
  | nil => rfl
  | cons x xs ih =>
      obtain ⟨hx, hxs⟩ := List.pairwise_cons.mp h
      by_cases hpx : p x
      · rw [List.filter_cons_of_pos hpx, List.filter_cons_of_neg (by simp [hpx]), List.cons_append,
          ih hxs]
      · have hnone : ∀ y ∈ xs, ¬ p y := fun y hy hpy => hpx (hp x y (hx y hy) hpy)
        rw [List.filter_cons_of_neg hpx, List.filter_cons_of_pos (by simp [hpx]),
          List.filter_eq_nil_iff.mpr hnone, List.nil_append,
          List.filter_eq_self.mpr fun y hy => by simp [hnone y hy]]

/-- In order, the items up to a period are those before it and then its own. -/
theorem filter_le_eq (h : (xs.map key).Pairwise (· ≤ ·)) (k : κ) :
    xs.filter (fun x => decide (key x ≤ k)) =
      xs.filter (fun x => decide (key x < k)) ++ xs.filter fun x => decide (key x = k) := by
  have hsorted : (xs.filter fun x => decide (key x ≤ k)).Pairwise fun x y => key x ≤ key y :=
    (List.pairwise_map.mp h).filter _
  rw [← filter_append_filter_not (p := fun x => decide (key x < k)) hsorted
    fun x y hle hlt => decide_eq_true (hle.trans_lt (of_decide_eq_true hlt)), List.filter_filter,
    List.filter_filter]
  congr 1
  · refine List.filter_congr fun x _ => ?_
    rw [Bool.eq_iff_iff]
    simp only [Bool.and_eq_true, decide_eq_true_eq]
    exact ⟨fun hx => hx.1, fun hx => ⟨hx, hx.le⟩⟩
  · refine List.filter_congr fun x _ => ?_
    rw [Bool.eq_iff_iff]
    simp only [Bool.and_eq_true, Bool.not_eq_true', decide_eq_true_eq, decide_eq_false_iff_not]
    exact ⟨fun hx => le_antisymm hx.2 (not_lt.mp hx.1), fun hx => ⟨hx.not_lt, hx.le⟩⟩

/-- The last value of a period is the one reached by its end. -/
theorem closing_eq_reached (h : (xs.map key).Pairwise (· ≤ ·)) {k : κ} (hk : k ∈ xs.map key) :
    closing key value xs k = reached value xs fun x => decide (key x ≤ k) := by
  obtain ⟨x, hx, hxk⟩ := List.mem_map.mp hk
  have hne : (xs.filter fun x => decide (key x = k)).map value ≠ [] :=
    List.ne_nil_of_mem (List.mem_map_of_mem (List.mem_filter.mpr ⟨hx, decide_eq_true hxk⟩))
  unfold closing reached
  rw [filter_le_eq h, List.map_append, List.getLast?_append_of_ne_nil _ hne]

/-! ## §2 Telescoping -/

/-- What is reached after the first periods is where the next one opens. -/
theorem opening_eq_reached (h : Periods key xs ks) {done rest : List κ} {k : κ}
    (hks : ks = done ++ k :: rest) :
    opening key value xs k = reached value xs fun x => decide (key x ∈ done) := by
  have hsorted := h.sorted
  rw [hks, List.pairwise_append, List.pairwise_cons] at hsorted
  refine reached_congr fun x hx => ?_
  have hmem : key x ∈ ks := (h.mem_iff _).mpr (List.mem_map_of_mem hx)
  rw [hks, List.mem_append, List.mem_cons] at hmem
  refine decide_eq_decide.mpr ⟨fun hlt => ?_, fun hdone => ?_⟩
  · rcases hmem with hdone | heq | hrest
    · exact hdone
    · exact absurd heq hlt.ne
    · exact absurd (hsorted.2.1.1 _ hrest) hlt.not_gt
  · exact hsorted.2.2 _ hdone _ List.mem_cons_self

/-- What is reached after the periods up to one is what that one closes with. -/
theorem closing_eq_reached_prefix (h : Periods key xs ks) (hxs : (xs.map key).Pairwise (· ≤ ·))
    {done rest : List κ} {k : κ} (hks : ks = done ++ k :: rest) :
    closing key value xs k = reached value xs fun x => decide (key x ∈ done ++ [k]) := by
  have hsorted := h.sorted
  rw [hks, List.pairwise_append, List.pairwise_cons] at hsorted
  have hk : k ∈ xs.map key := by
    rw [← h.mem_iff, hks]
    exact List.mem_append_right _ List.mem_cons_self
  rw [closing_eq_reached hxs hk]
  refine reached_congr fun x hx => ?_
  have hmem : key x ∈ ks := (h.mem_iff _).mpr (List.mem_map_of_mem hx)
  rw [hks, List.mem_append, List.mem_cons] at hmem
  rw [decide_eq_decide, List.mem_append, List.mem_singleton]
  refine ⟨fun hle => ?_, fun hdone => ?_⟩
  · rcases hmem with hdone | heq | hrest
    · exact .inl hdone
    · exact .inr heq
    · exact absurd (hsorted.2.1.1 _ hrest) hle.not_gt
  · rcases hdone with hdone | heq
    · exact (hsorted.2.2 _ hdone _ List.mem_cons_self).le
    · exact heq.le

/-- **The growth factors of the first periods** multiply up to the value reached. -/
theorem prod_growth_mul (h : Periods key xs ks) (hxs : (xs.map key).Pairwise (· ≤ ·))
    (hvalue : ∀ x ∈ xs, value x ≠ 0) {done rest : List κ} (hks : ks = done ++ rest) :
    (done.map (growth key value xs)).prod * (xs.map value).head?.getD 0 =
      reached value xs fun x => decide (key x ∈ done) := by
  induction done using List.reverseRecOn generalizing rest with
  | nil =>
      rw [List.map_nil, List.prod_nil, one_mul, reached_of_none fun x _ => by simp]
  | append_singleton done k ih =>
      rw [List.append_assoc, List.singleton_append] at hks
      have hk : k ∈ xs.map key := by
        rw [← h.mem_iff, hks]
        exact List.mem_append_right _ List.mem_cons_self
      have hne : xs ≠ [] := by
        rintro rfl
        cases hk
      have hopen : opening key value xs k ≠ 0 :=
        reached_induction (P := fun v => v ≠ 0) hvalue hne _
      rw [List.map_append, List.prod_append, List.map_singleton, List.prod_singleton, mul_assoc,
        mul_comm (growth key value xs k), ← mul_assoc, ih hks, ← opening_eq_reached h hks,
        ← closing_eq_reached_prefix h hxs hks, growth, mul_div_cancel₀ _ hopen]

/-- **All growth factors** multiply up to the last value over the first. -/
theorem prod_growth (h : Periods key xs ks) (hxs : (xs.map key).Pairwise (· ≤ ·))
    (hvalue : ∀ x ∈ xs, value x ≠ 0) {first last : α} (hfirst : xs.head? = some first)
    (hlast : xs.getLast? = some last) :
    (ks.map (growth key value xs)).prod = value last / value first := by
  have hprod := prod_growth_mul h hxs hvalue (List.append_nil ks).symm
  have hall : reached value xs (fun x => decide (key x ∈ ks)) = value last := by
    unfold reached
    rw [List.filter_eq_self.mpr fun x hx =>
      decide_eq_true ((h.mem_iff _).mpr (List.mem_map_of_mem hx)), List.getLast?_map, hlast]
    rfl
  rw [hall, List.head?_map, hfirst, Option.map_some, Option.getD_some] at hprod
  rw [eq_div_iff (hvalue first (List.mem_of_head? hfirst)), hprod]

/-- **The growth of a coarser period** is the product of those of the finer ones in it. -/
theorem prod_growth_fine {coarse : κ → ι} (hcoarse : Monotone coarse) (h : Periods key xs ks)
    (hxs : (xs.map key).Pairwise (· ≤ ·)) (hvalue : ∀ x ∈ xs, value x ≠ 0) {y : ι}
    (hy : y ∈ xs.map (coarse ∘ key)) :
    ((ks.filter fun k => decide (coarse k = y)).map (growth key value xs)).prod =
      growth (coarse ∘ key) value xs y := by
  have hks : (ks.map coarse).Pairwise (· ≤ ·) := by
    rw [List.pairwise_map]
    exact h.sorted.imp fun hlt => hcoarse hlt.le
  have hxs' : (xs.map (coarse ∘ key)).Pairwise (· ≤ ·) := by
    rw [← List.map_map, List.pairwise_map]
    exact hxs.imp fun hle => hcoarse hle
  have hne : xs ≠ [] := by
    rintro rfl
    cases hy
  generalize hbefore : ks.filter (fun k => decide (coarse k < y)) = before
  generalize hwithin : ks.filter (fun k => decide (coarse k = y)) = within
  have hupTo : ks.filter (fun k => decide (coarse k ≤ y)) = before ++ within := by
    rw [filter_le_eq hks, hbefore, hwithin]
  have hmem : ∀ x ∈ xs, key x ∈ ks := fun x hx => (h.mem_iff _).mpr (List.mem_map_of_mem hx)
  -- The periods up to the end of `y` come first, in order.
  have hsplit : ks = (before ++ within) ++ ks.filter fun k => !decide (coarse k ≤ y) := by
    rw [← hupTo]
    exact (filter_append_filter_not h.sorted fun j k hlt hk =>
      decide_eq_true ((hcoarse hlt.le).trans (of_decide_eq_true hk))).symm
  have hclosing : closing (coarse ∘ key) value xs y =
      reached value xs fun x => decide (key x ∈ before ++ within) := by
    rw [closing_eq_reached hxs' hy, ← hupTo]
    refine reached_congr fun x hx => ?_
    rw [decide_eq_decide, List.mem_filter, and_iff_right (hmem x hx), decide_eq_true_eq]
    rfl
  have hopening : opening (coarse ∘ key) value xs y =
      reached value xs fun x => decide (key x ∈ before) := by
    rw [← hbefore]
    refine reached_congr fun x hx => ?_
    rw [decide_eq_decide, List.mem_filter, and_iff_right (hmem x hx), decide_eq_true_eq]
    rfl
  have hfirst := prod_growth_mul h hxs hvalue (hsplit.trans (List.append_assoc _ _ _))
  have hboth := prod_growth_mul h hxs hvalue hsplit
  have hopen : opening (coarse ∘ key) value xs y ≠ 0 :=
    reached_induction (P := fun v => v ≠ 0) hvalue hne _
  rw [List.map_append, List.prod_append, mul_comm (List.prod _), mul_assoc, hfirst, ← hopening,
    ← hclosing] at hboth
  rw [growth, eq_div_iff hopen, hboth]

end Periods

/-! ## §3 Factors that are off -/

section Errors

variable {α F : Type} [Field F] [LinearOrder F] [IsStrictOrderedRing F]

/-- **Factors that are off by at most some bounds** have a product that is off by at most
what the bounds add to the product. -/
theorem abs_prod_sub_prod_le {xs : List α} {factor measured bound : α → F}
    (hfactor : ∀ x ∈ xs, 0 ≤ factor x) (hbound : ∀ x ∈ xs, |measured x - factor x| ≤ bound x) :
    |(xs.map measured).prod - (xs.map factor).prod| ≤
      (xs.map fun x => factor x + bound x).prod - (xs.map factor).prod := by
  induction xs with
  | nil => simp
  | cons x xs ih =>
      obtain ⟨hx, hxs⟩ := List.forall_mem_cons.mp hfactor
      obtain ⟨hbx, hbxs⟩ := List.forall_mem_cons.mp hbound
      have hrest := ih hxs hbxs
      have hprod : 0 ≤ (xs.map factor).prod := List.prod_nonneg (by simpa using hxs)
      rw [List.map_cons, List.map_cons, List.map_cons, List.prod_cons, List.prod_cons,
        List.prod_cons]
      generalize (xs.map measured).prod = m at hrest ⊢
      generalize (xs.map factor).prod = f at hrest hprod ⊢
      generalize (xs.map fun x => factor x + bound x).prod = b at hrest ⊢
      have hm : |m| ≤ b := by
        have htriangle := abs_add_le (m - f) f
        rw [sub_add_cancel, abs_of_nonneg hprod] at htriangle
        linarith
      have hsplit : measured x * m - factor x * f =
          (measured x - factor x) * m + factor x * (m - f) := by ring
      calc |measured x * m - factor x * f|
          ≤ |(measured x - factor x) * m| + |factor x * (m - f)| := by
            rw [hsplit]
            exact abs_add_le _ _
        _ = |measured x - factor x| * |m| + factor x * |m - f| := by
            rw [abs_mul, abs_mul, abs_of_nonneg hx]
        _ ≤ bound x * b + factor x * (b - f) :=
            add_le_add (mul_le_mul hbx hm (abs_nonneg m) ((abs_nonneg _).trans hbx))
              (mul_le_mul_of_nonneg_left hrest hx)
        _ = (factor x + bound x) * b - factor x * f := by ring

end Errors

end Lib.Compounding
