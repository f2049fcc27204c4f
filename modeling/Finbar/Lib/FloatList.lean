/-
Finbar.Lib.FloatList — sums and extremes of lists of floats.

Finite floats stay finite. An infinity in a list of numbers and infinities is its sum
and its maximum. A float is blown when it is infinite or NaN: without `-inf` a sum is
blown as soon as one item is, and what is blown divided by what is blown is NaN.

No `sorry`, no `axiom`.
-/
import Finbar.Lib.PyValue
import Mathlib.Algebra.BigOperators.Group.List.Basic
import Mathlib.Tactic.Linarith

namespace Lib.Python.PyFloat

/-! ## §1 Kinds of floats -/

/-- A number or `+inf`. -/
def Upper (x : PyFloat) : Prop := x = posInf ∨ ∃ q, x = fin q

/-- `+inf` or NaN. -/
def Blown (x : PyFloat) : Prop := x = posInf ∨ x = nan

theorem upper_fin (q : ℚ) : Upper (fin q) := .inr ⟨q, rfl⟩

theorem upper_posInf : Upper posInf := .inl rfl

/-- A list of numbers has their rationals. -/
theorem exists_map_fin {xs : List PyFloat} (h : ∀ x ∈ xs, ∃ q, x = fin q) :
    ∃ qs : List ℚ, xs = qs.map fin := by
  induction xs with
  | nil => exact ⟨[], rfl⟩
  | cons x xs ih =>
      obtain ⟨⟨q, rfl⟩, hxs⟩ := List.forall_mem_cons.mp h
      obtain ⟨qs, rfl⟩ := ih hxs
      exact ⟨q :: qs, rfl⟩

/-! ## §2 Sums -/

theorem Upper.add {x y : PyFloat} (hx : Upper x) (hy : Upper y) : Upper (x.add y) := by
  rcases hx with rfl | ⟨p, rfl⟩ <;> rcases hy with rfl | ⟨q, rfl⟩
  · exact upper_posInf
  · exact upper_posInf
  · exact upper_posInf
  · exact upper_fin _

theorem posInf_add {y : PyFloat} (hy : Upper y) : posInf.add y = posInf := by
  rcases hy with rfl | ⟨q, rfl⟩ <;> rfl

theorem add_posInf {x : PyFloat} (hx : Upper x) : x.add posInf = posInf := by
  rcases hx with rfl | ⟨q, rfl⟩ <;> rfl

theorem sum_map_fin (qs : List ℚ) : sum (qs.map fin) = fin qs.sum := by
  have hfrom : ∀ p, (qs.map fin).foldl PyFloat.add (fin p) = fin (p + qs.sum) := by
    induction qs with
    | nil => simp
    | cons q qs ih =>
        intro p
        rw [List.map_cons, List.foldl_cons, List.sum_cons, ← add_assoc]
        exact ih (p + q)
  rw [sum, hfrom, zero_add]

/-- **An infinity is the sum.** -/
theorem sum_of_posInf {xs : List PyFloat} (hxs : ∀ x ∈ xs, Upper x) (h : posInf ∈ xs) :
    sum xs = posInf := by
  have hstay : ∀ ys : List PyFloat, (∀ y ∈ ys, Upper y) →
      ys.foldl PyFloat.add posInf = posInf := by
    intro ys hys
    induction ys with
    | nil => rfl
    | cons y ys ih =>
        obtain ⟨hy, hys⟩ := List.forall_mem_cons.mp hys
        rw [List.foldl_cons, posInf_add hy, ih hys]
  have hfrom : ∀ acc, Upper acc → xs.foldl PyFloat.add acc = posInf := by
    induction xs with
    | nil => cases h
    | cons x xs ih =>
        intro acc hacc
        obtain ⟨hx, hrest⟩ := List.forall_mem_cons.mp hxs
        rw [List.foldl_cons]
        rcases List.mem_cons.mp h with rfl | hmem
        · rw [add_posInf hacc, hstay xs hrest]
        · exact ih hrest hmem _ (hacc.add hx)
  exact hfrom _ (upper_fin 0)

theorem add_ne_negInf {x y : PyFloat} (hx : x ≠ negInf) (hy : y ≠ negInf) :
    x.add y ≠ negInf := by
  cases x <;> cases y <;> simp_all [PyFloat.add]

theorem Blown.add {x y : PyFloat} (hx : Blown x) (hy : y ≠ negInf) : Blown (x.add y) := by
  rcases hx with rfl | rfl <;> cases y <;> simp_all [PyFloat.add, Blown]

theorem Blown.add_left {x y : PyFloat} (hx : x ≠ negInf) (hy : Blown y) : Blown (x.add y) := by
  rcases hy with rfl | rfl <;> cases x <;> simp_all [PyFloat.add, Blown]

/-- **A sum is blown when an item is.** -/
theorem blown_sum {xs : List PyFloat} (hxs : ∀ x ∈ xs, x ≠ negInf) {x : PyFloat}
    (hmem : x ∈ xs) (hx : Blown x) : Blown (sum xs) := by
  have hstay : ∀ (ys : List PyFloat) (acc : PyFloat), (∀ y ∈ ys, y ≠ negInf) → Blown acc →
      Blown (ys.foldl PyFloat.add acc) := by
    intro ys
    induction ys with
    | nil => exact fun acc _ hacc => hacc
    | cons y ys ih =>
        intro acc hys hacc
        obtain ⟨hy, hys⟩ := List.forall_mem_cons.mp hys
        exact ih _ hys (hacc.add hy)
  have hfrom : ∀ acc, acc ≠ negInf → Blown (xs.foldl PyFloat.add acc) := by
    induction xs with
    | nil => cases hmem
    | cons y xs ih =>
        intro acc hacc
        obtain ⟨hy, hrest⟩ := List.forall_mem_cons.mp hxs
        rw [List.foldl_cons]
        rcases List.mem_cons.mp hmem with rfl | hmem
        · exact hstay xs _ hrest (.add_left hacc hx)
        · exact ih hrest hmem _ (add_ne_negInf hacc hy)
  exact hfrom _ (by decide)

theorem blown_div {x y : PyFloat} (hx : Blown x) (hy : Blown y) : x.div y = nan := by
  rcases hx with rfl | rfl <;> rcases hy with rfl | rfl <;> rfl

theorem not_le_zero_of_blown {x : PyFloat} (hx : Blown x) : x.le (fin 0) = false := by
  rcases hx with rfl | rfl <;> rfl

/-! ## §3 Extremes -/

/-- A fold over numbers that moves on only along an order ends at a number that the first one
is before. -/
theorem foldl_pick_fin (before : ℚ → ℚ → Prop) (picks : PyFloat → PyFloat → Bool)
    (hrefl : ∀ q, before q q) (htrans : ∀ {q p m}, before q p → before p m → before q m)
    (hpicks : ∀ {q p}, picks (fin q) (fin p) = true → before q p) (q : ℚ) (qs : List ℚ) :
    ∃ m, (qs.map fin).foldl (fun best y => if picks best y then y else best) (fin q) = fin m ∧
      before q m := by
  induction qs generalizing q with
  | nil => exact ⟨q, rfl, hrefl q⟩
  | cons p qs ih =>
      rw [List.map_cons, List.foldl_cons]
      by_cases hpick : picks (fin q) (fin p) = true
      · obtain ⟨m, hm, hpm⟩ := ih p
        rw [if_pos hpick]
        exact ⟨m, hm, htrans (hpicks hpick) hpm⟩
      · rw [if_neg hpick]
        exact ih q

/-- The maximum of numbers is one that is not below the first, and the minimum one that is not
above it. -/
theorem extremes_map_fin (q : ℚ) (qs : List ℚ) :
    (∃ m, maxOf (fin q) (qs.map fin) = fin m ∧ q ≤ m) ∧
      ∃ m, minOf (fin q) (qs.map fin) = fin m ∧ m ≤ q :=
  ⟨foldl_pick_fin (· ≤ ·) PyFloat.lt le_refl le_trans (fun h => (of_decide_eq_true h).le) q qs,
    foldl_pick_fin (· ≥ ·) (fun best y => y.lt best) le_refl (fun h h' => h'.trans h)
      (fun h => (of_decide_eq_true h).le) q qs⟩

/-- **An infinity is the maximum.** -/
theorem maxOf_of_posInf {x : PyFloat} {xs : List PyFloat} (hxs : ∀ y ∈ x :: xs, Upper y)
    (h : posInf ∈ x :: xs) : maxOf x xs = posInf := by
  induction xs generalizing x with
  | nil => exact (List.mem_singleton.mp h).symm
  | cons y xs ih =>
      obtain ⟨hx, hrest⟩ := List.forall_mem_cons.mp hxs
      obtain ⟨hy, hxs'⟩ := List.forall_mem_cons.mp hrest
      rw [maxOf, List.foldl_cons]
      by_cases hlt : x.lt y
      · rw [if_pos hlt]
        refine ih hrest ?_
        rcases List.mem_cons.mp h with rfl | hmem
        · cases y <;> cases hlt
        · exact hmem
      · rw [if_neg hlt]
        refine ih (List.forall_mem_cons.mpr ⟨hx, hxs'⟩) ?_
        rcases List.mem_cons.mp h with rfl | hmem
        · exact List.mem_cons_self
        · rcases List.mem_cons.mp hmem with rfl | hmem
          · rcases hx with rfl | ⟨q, rfl⟩
            · exact List.mem_cons_self
            · exact absurd rfl hlt
          · exact List.mem_cons_of_mem _ hmem

/-- The minimum is one of the items. -/
theorem minOf_mem (x : PyFloat) (xs : List PyFloat) : minOf x xs ∈ x :: xs := by
  induction xs generalizing x with
  | nil => exact List.mem_cons_self
  | cons y xs ih =>
      rw [minOf, List.foldl_cons]
      split
      · exact List.mem_cons_of_mem _ (ih y)
      · rcases List.mem_cons.mp (ih x) with h | h
        · exact List.mem_cons.mpr (.inl h)
        · exact List.mem_cons_of_mem _ (List.mem_cons_of_mem _ h)

theorem posInf_sub {y : PyFloat} (hy : Upper y) : Blown (posInf.sub y) := by
  rcases hy with rfl | ⟨q, rfl⟩
  · exact .inr rfl
  · exact .inl rfl

end Lib.Python.PyFloat
