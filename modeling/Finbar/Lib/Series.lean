/-
Finbar.Lib.Series — columns of a frame as lists: `shift(1)` and `ffill()`.

A missing cell is `none`. The lemmas say what stands in a row: the previous
row's cell after a shift, and the last cell that is not missing after a
forward fill. `rowsBefore` are the rows a rolling computation looks back on;
they are the same in a frame that starts later or ends earlier. `foldl_fill` is
a column that a loop fills cell by cell.

No `sorry`, no `axiom`.
-/
import Mathlib.Data.List.Basic

namespace Lib.Series

variable {α β : Type}

/-! ## §1 Shifting -/

/-- `shift(1)`: every cell one row later. -/
def shift (cells : List α) : List (Option α) :=
  (none :: cells.map some).dropLast

theorem length_shift (cells : List α) : (shift cells).length = cells.length := by
  simp [shift]

/-- Every row but the first has the cell of the previous one. -/
theorem shift_getElem?_succ {cells : List α} {i : ℕ} (h : i + 1 < cells.length) :
    (shift cells)[i + 1]? = some cells[i]? := by
  have hlast : i + 1 < (none :: cells.map some).length - 1 := by simpa using h
  have hi : i < cells.length := Nat.lt_of_succ_lt h
  have hcell : cells[i]? = some cells[i] := List.getElem?_eq_getElem hi
  rw [shift, List.getElem?_dropLast, if_pos hlast, List.getElem?_cons_succ, List.getElem?_map,
    hcell]
  rfl

/-! ## §2 Filling -/

/-- `ffill()` after a cell. -/
def ffillFrom (last : Option α) : List (Option α) → List (Option α)
  | [] => []
  | cell :: cells => cell.or last :: ffillFrom (cell.or last) cells

/-- `ffill()`: a missing cell gets the last one that is not. -/
def ffill (cells : List (Option α)) : List (Option α) :=
  ffillFrom none cells

@[simp] theorem length_ffillFrom (last : Option α) (cells : List (Option α)) :
    (ffillFrom last cells).length = cells.length := by
  induction cells generalizing last with
  | nil => rfl
  | cons cell cells ih => simp [ffillFrom, ih]

/-- After a cell that is not missing none is. -/
theorem isSome_of_mem_ffillFrom {last : Option α} (h : last.isSome) {cells : List (Option α)} :
    ∀ cell ∈ ffillFrom last cells, cell.isSome := by
  induction cells generalizing last with
  | nil => exact fun _ hcell => nomatch hcell
  | cons cell cells ih =>
      have hfilled : (cell.or last).isSome := by simp [h]
      intro found hfound
      rcases List.mem_cons.mp hfound with rfl | hfound
      · exact hfilled
      · exact ih hfilled found hfound

/-- A column whose first cell is not missing has none missing once filled. -/
theorem isSome_of_mem_ffill {first : α} {cells : List (Option α)} :
    ∀ cell ∈ ffill (some first :: cells), cell.isSome := by
  intro cell hcell
  rcases List.mem_cons.mp hcell with rfl | hcell
  · rfl
  · exact isSome_of_mem_ffillFrom (by rfl) cell hcell

/-! ## §3 Looking back -/

/-- `cells.iloc[i - k : i]`: the `k` rows before row `i`. -/
def rowsBefore (k i : ℕ) (cells : List α) : List α :=
  (cells.take i).drop (i - k)

theorem rowsBefore_take {k i n : ℕ} (h : i ≤ n) (cells : List α) :
    rowsBefore k i (cells.take n) = rowsBefore k i cells := by
  rw [rowsBefore, rowsBefore, List.take_take, Nat.min_eq_left h]

theorem rowsBefore_drop {k i : ℕ} (h : k ≤ i) (d : ℕ) (cells : List α) :
    rowsBefore k i (cells.drop d) = rowsBefore k (d + i) cells := by
  rw [rowsBefore, rowsBefore, List.take_drop, List.drop_drop, Nat.add_sub_assoc h]

/-! ## §4 Marks -/

section Marks

variable (place : ℕ → ℕ) (fires : ℕ → Bool) (rows : List ℕ) (result : List Bool)

/-- Marking a place for each row that fires: a place is marked if it was, or if a row
that fires marks it. -/
theorem foldl_mark_getElem? (c : ℕ) :
    (rows.foldl (fun result i => if fires i then result.set (place i) true else result) result)[c]?
      = result[c]?.map fun mark => mark || rows.any fun i => fires i && decide (place i = c) := by
  induction rows generalizing result with
  | nil => simp
  | cons i rows ih =>
      rw [List.foldl_cons, ih]
      cases hfires : fires i with
      | false => simp [hfires]
      | true =>
          by_cases hc : place i = c
          · rw [if_pos rfl, hc, List.getElem?_set_self']
            cases result[c]? with
            | none => rfl
            | some mark => simp [hfires, hc]
          · rw [if_pos rfl, List.getElem?_set_ne hc]
            simp [hc]

theorem length_foldl_mark :
    (rows.foldl (fun result i => if fires i then result.set (place i) true else result)
      result).length = result.length := by
  induction rows generalizing result with
  | nil => rfl
  | cons i rows ih =>
      rw [List.foldl_cons, ih]
      split
      · exact List.length_set
      · rfl

end Marks

/-- `result.iloc[i] = True`, for the rows from `lookback` on that fire. -/
def flagFrom (lookback n : ℕ) (fires : ℕ → Bool) : List Bool :=
  (List.range' lookback (n - lookback)).foldl
    (fun result i => if fires i then result.set i true else result)
    (List.replicate n false)

/-- **A flag** is set in the rows that are looked at and fire. -/
theorem flagFrom_getElem? (lookback : ℕ) {n i : ℕ} (hi : i < n) (fires : ℕ → Bool) :
    (flagFrom lookback n fires)[i]? = some (decide (lookback ≤ i) && fires i) := by
  have hfires : ((List.range' lookback (n - lookback)).any fun j => fires j && decide (j = i))
      = (decide (lookback ≤ i) && fires i) := by
    rw [Bool.eq_iff_iff]
    simp only [List.any_eq_true, List.mem_range'_1, Bool.and_eq_true, decide_eq_true_eq]
    constructor
    · rintro ⟨j, hj, hfires, rfl⟩
      exact ⟨hj.1, hfires⟩
    · rintro ⟨hle, hfires⟩
      exact ⟨i, ⟨hle, by omega⟩, hfires, rfl⟩
  rw [flagFrom, foldl_mark_getElem? (fun j => j), List.getElem?_replicate, if_pos hi,
    Option.map_some, Bool.false_or, hfires]

theorem length_flagFrom (lookback n : ℕ) (fires : ℕ → Bool) :
    (flagFrom lookback n fires).length = n := by
  rw [flagFrom, length_foldl_mark (fun j => j), List.length_replicate]

/-! ## §5 Filled cells -/

/-- A cell that is set. -/
theorem set_map_range (n j : ℕ) (f : ℕ → α) (value : α) :
    ((List.range n).map f).set j value =
      (List.range n).map fun i => if i = j then value else f i := by
  refine List.ext_getElem? fun i => ?_
  rw [List.getElem?_set, List.getElem?_map, List.getElem?_map, List.length_map, List.length_range]
  by_cases hj : j = i
  · subst hj
    by_cases hlt : j < n
    · simp [hlt]
    · simp [hlt]
  · by_cases hlt : i < n
    · simp [hj, Ne.symm hj, hlt]
    · simp [hj, hlt]

/-- Filling the cells of a column one after the other, where there is a value. -/
theorem foldl_fill (cell : ℕ → Option α) (n start passes : ℕ) :
    (List.range' start passes).foldl
        (fun column i => if (cell i).isSome then column.set i (cell i) else column)
        (List.replicate n none) =
      (List.range n).map fun i => if start ≤ i ∧ i < start + passes then cell i else none := by
  induction passes with
  | zero =>
      rw [List.range'_zero, List.foldl_nil, List.eq_replicate_iff.mpr ⟨List.length_map _, ?_⟩,
        List.length_range]
      intro entry hentry
      obtain ⟨i, -, rfl⟩ := List.mem_map.mp hentry
      exact if_neg (by omega)
  | succ passes ih =>
      rw [List.range'_1_concat, List.foldl_append, ih, List.foldl_cons, List.foldl_nil]
      split
      · rw [set_map_range]
        refine List.map_congr_left fun i _ => ?_
        by_cases hi : i = start + passes
        · rw [if_pos hi, if_pos ⟨by omega, by omega⟩, hi]
        · rw [if_neg hi]
          exact if_congr (by omega) rfl rfl
      · next hnone =>
          refine List.map_congr_left fun i _ => ?_
          by_cases hi : i = start + passes
          · rw [if_neg (by omega), if_pos ⟨by omega, by omega⟩, hi,
              Option.not_isSome_iff_eq_none.mp hnone]
          · exact if_congr (by omega) rfl rfl

end Lib.Series
