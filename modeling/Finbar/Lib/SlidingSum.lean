/-
Finbar.Lib.SlidingSum — sums over the latest items, kept up by adding what
enters and subtracting what leaves.

`List.rtake` cuts the latest items out of a list; `rtake_concat_of_le` says what
one more item does to them. A bounded deque holds the latest items that were
pushed onto it, so a sum over it moves by the item that enters and the one it
drops (`Deque.sum_push`).

No `sorry`, no `axiom`.
-/
import Finbar.Lib.Deque
import Mathlib.Algebra.BigOperators.Group.List.Basic
import Mathlib.Algebra.Group.Basic
import Mathlib.Tactic.Abel

namespace Lib

/-! ## §1 The latest items -/

section Latest

variable {α : Type*} {xs : List α} {w : ℕ}

/-- While there are fewer than `w` items, the latest `w` are all of them. -/
theorem rtake_of_length_le (h : xs.length ≤ w) : xs.rtake w = xs := by
  rw [List.rtake, Nat.sub_eq_zero_of_le h, List.drop_zero]

theorem rtake_concat_of_lt (x : α) (h : xs.length < w) :
    (xs ++ [x]).rtake w = xs.rtake w ++ [x] := by
  have hlength : (xs ++ [x]).length ≤ w := by
    rw [List.length_append, List.length_singleton]
    omega
  rw [rtake_of_length_le hlength, rtake_of_length_le h.le]

/-- From then on one more item pushes the oldest of them out. -/
theorem rtake_concat_of_le (x : α) (hw : 0 < w) (h : w ≤ xs.length) :
    ∃ oldest rest, xs[xs.length - w]? = some oldest ∧ xs.rtake w = oldest :: rest ∧
      (xs ++ [x]).rtake w = rest ++ [x] := by
  have hlt : xs.length - w < xs.length := by omega
  refine ⟨xs[xs.length - w], xs.drop (xs.length - w + 1), List.getElem?_eq_getElem hlt,
    List.drop_eq_getElem_cons hlt, ?_⟩
  have hdrop : (xs ++ [x]).length - w = xs.length - w + 1 := by
    rw [List.length_append, List.length_singleton]
    omega
  rw [List.rtake, hdrop, List.drop_append_of_le_length (by omega)]

theorem length_rtake (xs : List α) (w : ℕ) : (xs.rtake w).length = min w xs.length := by
  rw [List.rtake, List.length_drop]
  omega

theorem map_rtake {β : Type*} (f : α → β) (xs : List α) (w : ℕ) :
    (xs.map f).rtake w = (xs.rtake w).map f := by
  rw [List.rtake, List.rtake, List.length_map, List.map_drop]

end Latest

/-! ## §2 Their sum -/

section Sum

variable {α : Type} {G : Type*} [AddCommGroup G]

/-- **A sum over the latest `w` items gains the item that enters and, once there
are `w`, loses the oldest of them.** -/
theorem sum_rtake_concat (xs : List G) (x : G) {w : ℕ} (hw : 0 < w) :
    ((xs ++ [x]).rtake w).sum =
      (if w ≤ xs.length then (xs.rtake w).sum - xs.getD (xs.length - w) 0
        else (xs.rtake w).sum) + x := by
  split
  · rename_i hfull
    obtain ⟨oldest, rest, holdest, hlatest, hnext⟩ := rtake_concat_of_le x hw hfull
    rw [hnext, hlatest, List.getD_eq_getElem?_getD, holdest, List.sum_append,
      List.sum_singleton, List.sum_cons, Option.getD_some]
    abel
  · rename_i hroom
    rw [rtake_concat_of_lt x (not_le.mp hroom), List.sum_append, List.sum_singleton]

/-- What a push drops from a sum over a deque. -/
def Deque.leaving (f : α → G) (d : Deque α) : G :=
  if d.isFull then (d.items.head?.map f).getD 0 else 0

/-- **A push moves a sum over a deque by the item that enters and the one that
leaves.** -/
theorem Deque.sum_push (f : α → G) {d : Deque α} (h : 0 < d.maxlen) (x : α) :
    ((d.push x).items.map f).sum = (d.items.map f).sum - d.leaving f + f x := by
  unfold leaving isFull length
  split
  · rename_i hfull
    have hlength : d.items.length = d.maxlen := beq_iff_eq.mp hfull
    cases hitems : d.items with
    | nil =>
        rw [hitems, List.length_nil] at hlength
        omega
    | cons oldest rest =>
        have hpush : (d.push x).items = rest ++ [x] := by
          have hone : d.items.length + 1 - d.maxlen = 1 := by omega
          show (d.items ++ [x]).drop (d.items.length + 1 - d.maxlen) = rest ++ [x]
          rw [hone, hitems, List.cons_append, List.drop_one, List.tail_cons]
        rw [hpush, List.map_append, List.sum_append, List.map_singleton, List.sum_singleton,
          List.map_cons, List.sum_cons, List.head?_cons, Option.map_some, Option.getD_some]
        abel
  · rename_i hroom
    have hle := d.length_le
    have hne : d.items.length ≠ d.maxlen := fun heq => hroom (beq_iff_eq.mpr heq)
    rw [Deque.items_push d x (by unfold length; omega), List.map_append, List.sum_append,
      List.map_singleton, List.sum_singleton, sub_zero]

end Sum

end Lib
