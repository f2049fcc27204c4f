/-
Finbar.Lib.Causal — columns that never look ahead.

A column is computed from the rows of a frame, one cell for each row. It is causal
if rows that are appended later leave the cells that are there as they are
(`Causal`): what it shows in a row is what a frame shows that ends with the row.
Columns whose cells are computed one by one from the rows up to their own are
causal (`of_cells`), and so are columns made of causal columns.

A causal column that looks back on `k` rows only (`LooksBack`) shows in the last row
of a window longer than `k` what it shows in the last row of the whole frame
(`LooksBack.getLast?_window`), so that the window is enough to compute it.

No `sorry`, no `axiom`.
-/
import Mathlib.Data.List.Basic
import Mathlib.Data.List.DropRight

namespace Lib

variable {ρ σ α β : Type}

/-! ## §1 Columns -/

/-- A column with one cell for each row, which rows appended later do not
change. -/
structure Causal (column : List ρ → List α) : Prop where
  length : ∀ rows, (column rows).length = rows.length
  keeps : ∀ rows later, (column (rows ++ later)).take rows.length = column rows

namespace Causal

/-- The cell of a row is that of the frame that ends with it. -/
theorem getElem?_of_take {column : List ρ → List α} (h : Causal column) (rows : List ρ) {i n : ℕ}
    (hi : i < n) : (column (rows.take n))[i]? = (column rows)[i]? := by
  have hkeeps := h.keeps (rows.take n) (rows.drop n)
  rw [List.take_append_drop] at hkeeps
  rw [← hkeeps]
  by_cases hlt : i < (rows.take n).length
  · rw [List.getElem?_take_of_lt hlt]
  · have hge : rows.length ≤ i := by
      rw [List.length_take] at hlt
      omega
    rw [List.getElem?_eq_none, List.getElem?_eq_none]
    · rwa [h.length]
    · rw [List.length_take]
      omega

/-- A column whose cells the later rows leave alone. -/
theorem of_cells {column : List ρ → List α} (hlength : ∀ rows, (column rows).length = rows.length)
    (hcell : ∀ rows later i, i < rows.length →
      (column (rows ++ later))[i]? = (column rows)[i]?) : Causal column := by
  refine ⟨hlength, fun rows later => List.ext_getElem? fun i => ?_⟩
  rw [List.getElem?_take]
  split
  · rename_i hi
    exact hcell rows later i hi
  · rename_i hi
    rw [List.getElem?_eq_none]
    rw [hlength]
    exact Nat.le_of_not_lt hi

/-- Cells that are changed one by one. -/
theorem map {column : List ρ → List α} (h : Causal column) (f : α → β) :
    Causal fun rows => (column rows).map f := by
  refine ⟨fun rows => by rw [List.length_map, h.length], fun rows later => ?_⟩
  rw [← List.map_take, h.keeps]

/-- A causal column of a causal column. -/
theorem comp {column : List ρ → List σ} {next : List σ → List α} (hnext : Causal next)
    (h : Causal column) : Causal fun rows => next (column rows) := by
  refine ⟨fun rows => by rw [hnext.length, h.length], fun rows later => ?_⟩
  have hsplit := List.take_append_drop rows.length (column (rows ++ later))
  rw [h.keeps] at hsplit
  rw [← hsplit, ← h.length rows, hnext.keeps]

/-- Two causal columns side by side. -/
theorem zip {left : List ρ → List α} {right : List ρ → List β} (hleft : Causal left)
    (hright : Causal right) : Causal fun rows => (left rows).zip (right rows) := by
  refine ⟨fun rows => by rw [List.length_zip, hleft.length, hright.length, Nat.min_self],
    fun rows later => ?_⟩
  have hzip : ((left (rows ++ later)).zip (right (rows ++ later))).take rows.length =
      ((left (rows ++ later)).take rows.length).zip ((right (rows ++ later)).take rows.length) :=
    List.take_zipWith
  rw [hzip, hleft.keeps, hright.keeps]

end Causal

/-! ## §2 Looking back -/

/-- A causal column whose cells see no more than the `k` rows before their own. -/
structure LooksBack (k : ℕ) (column : List ρ → List α) : Prop extends Causal column where
  forgets : ∀ rows d i, k ≤ i → (column rows)[d + i]? = (column (rows.drop d))[i]?

namespace LooksBack

variable {k l : ℕ}

/-- A column that is computed cell by cell, from a row on. -/
theorem of_cells {column : List ρ → List α} {f : List ρ → ℕ → α}
    (hlength : ∀ rows, (column rows).length = rows.length)
    (hcolumn : ∀ rows i, i < rows.length → (column rows)[i]? = some (f rows i))
    (htake : ∀ rows n i, i < n → f (rows.take n) i = f rows i)
    (hdrop : ∀ rows d i, k ≤ i → f (rows.drop d) i = f rows (d + i)) :
    LooksBack k column := by
  refine ⟨Causal.of_cells hlength fun rows later i hi => ?_, fun rows d i hi => ?_⟩
  · have hcell := htake (rows ++ later) rows.length i hi
    rw [List.take_left] at hcell
    rw [hcolumn _ _ hi, hcolumn _ _ (by rw [List.length_append]; omega), hcell]
  · by_cases hlt : d + i < rows.length
    · rw [hcolumn _ _ hlt, hcolumn _ _ (by rw [List.length_drop]; omega), hdrop rows d i hi]
    · rw [List.getElem?_eq_none, List.getElem?_eq_none]
      · rw [hlength, List.length_drop]
        omega
      · rw [hlength]
        omega

theorem mono {column : List ρ → List α} (h : LooksBack k column) (hkl : k ≤ l) :
    LooksBack l column :=
  ⟨h.toCausal, fun rows d i hi => h.forgets rows d i (hkl.trans hi)⟩

theorem map {column : List ρ → List α} (h : LooksBack k column) (f : α → β) :
    LooksBack k fun rows => (column rows).map f := by
  refine ⟨h.toCausal.map f, fun rows d i hi => ?_⟩
  rw [List.getElem?_map, List.getElem?_map, h.forgets rows d i hi]

/-- Two columns side by side look back as far as the one that looks further. -/
theorem zip {left : List ρ → List α} {right : List ρ → List β} (hleft : LooksBack k left)
    (hright : LooksBack l right) : LooksBack (max k l) fun rows => (left rows).zip (right rows) := by
  refine ⟨hleft.toCausal.zip hright.toCausal, fun rows d i hi => ?_⟩
  simp only [List.zip, List.getElem?_zipWith, hleft.forgets rows d i (by omega),
    hright.forgets rows d i (by omega)]

/-- Once a column looks back on enough rows, dropping rows of the frame drops its cells. -/
theorem drop {column : List ρ → List α} (h : LooksBack k column) (rows : List ρ) (d : ℕ) :
    (column rows).drop (d + k) = (column (rows.drop d)).drop k := by
  refine List.ext_getElem? fun i => ?_
  rw [List.getElem?_drop, List.getElem?_drop, Nat.add_assoc, h.forgets rows d (k + i) (by omega)]

/-- A column of a column looks back through both. -/
theorem comp {column : List ρ → List σ} {next : List σ → List α} (hnext : LooksBack l next)
    (h : LooksBack k column) : LooksBack (k + l) fun rows => next (column rows) := by
  refine ⟨hnext.toCausal.comp h.toCausal, fun rows d i hi => ?_⟩
  have hleft := hnext.forgets (column rows) (d + k) (i - k) (by omega)
  have hright := hnext.forgets (column (rows.drop d)) k (i - k) (by omega)
  rw [h.drop] at hleft
  have hi' : d + k + (i - k) = d + i := by omega
  have hk : k + (i - k) = i := by omega
  rw [← hi', hleft, ← hright, hk]

/-- **A window is enough.** The last cell over the last rows of a frame is that over all
of them, if the window is longer than the column looks back or holds the whole frame. -/
theorem getLast?_window {column : List ρ → List α} (h : LooksBack k column) (rows : List ρ)
    {w : ℕ} (hw : k < w) : (column (rows.rtake w)).getLast? = (column rows).getLast? := by
  rw [List.getLast?_eq_getElem?, List.getLast?_eq_getElem?, h.length, h.length, List.rtake]
  by_cases hlong : w ≤ rows.length
  · have hrow : rows.length - w + ((rows.drop (rows.length - w)).length - 1) = rows.length - 1 := by
      rw [List.length_drop]
      omega
    rw [← hrow, h.forgets]
    rw [List.length_drop]
    omega
  · rw [Nat.sub_eq_zero_of_le (by omega), List.drop_zero]

end LooksBack

end Lib
