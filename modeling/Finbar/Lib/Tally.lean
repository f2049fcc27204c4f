/-
Finbar.Lib.Tally — counting items at their places, and prefix sums.

`tally n place xs` counts the items at each of `n` places. A place has as many
as `countP` finds there (`tally_getElem?`), so the sum of the counts from one
place to another is the number of items between them (`sub_prefixSum_tally`),
and the sum of all is the number of items that have a place (`sum_tally`).

No `sorry`, no `axiom`.
-/
import Mathlib.Algebra.BigOperators.Group.List.Basic
import Mathlib.Algebra.Order.Ring.Nat
import Mathlib.Data.List.Induction

namespace Lib

/-! ## §1 Prefix sums -/

/-- The sums of the first 0, 1, 2, … numbers. -/
def prefixSums (ns : List ℕ) : List ℕ :=
  ns.scanl (· + ·) 0

theorem prefixSums_getElem? {ns : List ℕ} {i : ℕ} (h : i ≤ ns.length) :
    (prefixSums ns)[i]? = some (ns.take i).sum := by
  unfold prefixSums
  rw [List.getElem?_scanl, if_pos h, List.sum_eq_foldl]

/-- One more number adds itself. -/
theorem sum_take_succ {ns : List ℕ} {i n : ℕ} (h : ns[i]? = some n) :
    (ns.take (i + 1)).sum = (ns.take i).sum + n := by
  rw [List.take_add_one, h, Option.toList_some, List.sum_append, List.sum_singleton]

/-! ## §2 Tallies -/

section Tally

variable {α : Type*} {place : α → Option ℕ} {xs : List α} {n : ℕ}

/-- The counts with one item more. -/
def countAt (place : α → Option ℕ) (counts : List ℕ) (x : α) : List ℕ :=
  match place x with
  | some i => counts.modify i (· + 1)
  | none => counts

/-- The number of items at each of `n` places. -/
def tally (n : ℕ) (place : α → Option ℕ) (xs : List α) : List ℕ :=
  xs.foldl (countAt place) (List.replicate n 0)

@[simp] theorem length_countAt (place : α → Option ℕ) (counts : List ℕ) (x : α) :
    (countAt place counts x).length = counts.length := by
  unfold countAt
  split
  · exact List.length_modify _ _ _
  · rfl

theorem tally_concat (n : ℕ) (place : α → Option ℕ) (xs : List α) (x : α) :
    tally n place (xs ++ [x]) = countAt place (tally n place xs) x := by
  unfold tally
  rw [List.foldl_append]
  rfl

@[simp] theorem length_tally (n : ℕ) (place : α → Option ℕ) (xs : List α) :
    (tally n place xs).length = n := by
  induction xs using List.reverseRecOn with
  | nil => exact List.length_replicate
  | append_singleton xs x ih => rw [tally_concat, length_countAt, ih]

/-- **A place has the items that are there.** -/
theorem tally_getElem? {i : ℕ} (h : i < n) :
    (tally n place xs)[i]? = some (xs.countP fun x => place x = some i) := by
  induction xs using List.reverseRecOn with
  | nil =>
      show (List.replicate n 0)[i]? = some 0
      rw [List.getElem?_replicate, if_pos h]
  | append_singleton xs x ih =>
      rw [tally_concat, List.countP_append, List.countP_singleton, countAt]
      cases hplace : place x with
      | none => simp [ih]
      | some j =>
          by_cases hj : j = i
          · rw [hj]
            simp [ih]
          · simp [ih, hj]

/-- The items placed below a bound. -/
def below (place : α → Option ℕ) (bound : ℕ) (x : α) : Bool :=
  (place x).any (· < bound)

/-- The items placed from `lo` on and below `hi`. -/
def between (place : α → Option ℕ) (lo hi : ℕ) (x : α) : Bool :=
  (place x).any fun i => lo ≤ i ∧ i < hi

/-- What is below one place and what is from there on and below another. -/
theorem countP_below_eq_add (place : α → Option ℕ) (xs : List α) {lo hi : ℕ} (h : lo ≤ hi) :
    xs.countP (below place hi) =
      xs.countP (below place lo) + xs.countP (between place lo hi) := by
  induction xs with
  | nil => rfl
  | cons x xs ih =>
      rw [List.countP_cons, List.countP_cons, List.countP_cons, ih]
      have hx : (if below place hi x = true then 1 else 0) =
          (if below place lo x = true then 1 else 0) +
            if between place lo hi x = true then 1 else 0 := by
        unfold below between
        cases place x with
        | none => simp
        | some i =>
            rw [Option.any_some, Option.any_some, Option.any_some]
            simp only [decide_eq_true_eq]
            split <;> split <;> split <;> omega
      omega

theorem between_succ_iff (place : α → Option ℕ) (k : ℕ) (x : α) :
    between place k (k + 1) x ↔ place x = some k := by
  unfold between
  cases place x with
  | none => simp
  | some i =>
      rw [Option.any_some, decide_eq_true_eq, Option.some.injEq]
      omega

theorem countP_below_succ (place : α → Option ℕ) (xs : List α) (k : ℕ) :
    xs.countP (below place (k + 1)) =
      xs.countP (below place k) + xs.countP fun x => place x = some k := by
  rw [countP_below_eq_add place xs (Nat.le_succ k)]
  refine congrArg _ (List.countP_congr fun x _ => ?_)
  rw [between_succ_iff, decide_eq_true_eq]

/-- The counts of the first places are the items placed below. -/
theorem sum_take_tally {k : ℕ} (h : k ≤ n) :
    ((tally n place xs).take k).sum = xs.countP (below place k) := by
  induction k with
  | zero =>
      rw [List.take_zero, List.sum_nil, eq_comm, List.countP_eq_zero]
      intro x _
      unfold below
      cases place x <;> simp
  | succ k ih => rw [sum_take_succ (tally_getElem? h), ih (by omega), countP_below_succ]

/-- **The sum of the counts** is the number of items that have a place. -/
theorem sum_tally (n : ℕ) (place : α → Option ℕ) (xs : List α) :
    (tally n place xs).sum = xs.countP (below place n) := by
  rw [← sum_take_tally (Nat.le_refl n),
    List.take_of_length_le (Nat.le_of_eq (length_tally n place xs))]

/-- Every item has a place, so that every one is counted. -/
theorem sum_tally_of_forall (h : ∀ x ∈ xs, below place n x) :
    (tally n place xs).sum = xs.length := by
  rw [sum_tally, List.countP_eq_length]
  exact h

/-- **The difference of two prefix sums** of the counts is the number of items between
the two places. -/
theorem sub_prefixSum_tally {lo hi : ℕ} (hlo : lo ≤ hi) (hhi : hi ≤ n) :
    ((prefixSums (tally n place xs)).getD hi 0 : ℤ) - (prefixSums (tally n place xs)).getD lo 0 =
      xs.countP (between place lo hi) := by
  have hlength := length_tally n place xs
  rw [List.getD_eq_getElem?_getD, List.getD_eq_getElem?_getD,
    prefixSums_getElem? (by omega), prefixSums_getElem? (by omega), sum_take_tally hhi,
    sum_take_tally (Nat.le_trans hlo hhi), Option.getD_some, Option.getD_some,
    countP_below_eq_add place xs hlo]
  push_cast
  exact add_sub_cancel_left _ _

end Tally

end Lib
