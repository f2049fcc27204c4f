/-
Finbar.Lib.Deque — a bounded double-ended queue, `deque(maxlen=n)`, as far as
it is appended to and read.

A `Deque` carries the proof that it holds at most `maxlen` items, so pushing
onto a full one drops the oldest (`length_push`).

No `sorry`, no `axiom`.
-/
import Mathlib.Data.List.Basic
import Mathlib.Data.List.DropRight
import Mathlib.Order.MinMax

namespace Lib

/-- `deque(maxlen=n)`, oldest item first. -/
structure Deque (α : Type) where
  maxlen : ℕ
  items : List α
  length_le : items.length ≤ maxlen

namespace Deque

variable {α : Type}

/-- The empty deque. -/
def empty (maxlen : ℕ) : Deque α where
  maxlen := maxlen
  items := []
  length_le := Nat.zero_le maxlen

/-- Append an item, dropping the oldest ones that no longer fit. -/
def push (d : Deque α) (x : α) : Deque α where
  maxlen := d.maxlen
  items := (d.items ++ [x]).drop (d.items.length + 1 - d.maxlen)
  length_le := by
    rw [List.length_drop, List.length_append, List.length_singleton]
    omega

/-- `while d and p(d[0]): d.popleft()`. -/
def popWhile (p : α → Bool) (d : Deque α) : Deque α where
  maxlen := d.maxlen
  items := d.items.dropWhile p
  length_le := (List.dropWhile_sublist p).length_le.trans d.length_le

/-- `clear()`. -/
def clear (d : Deque α) : Deque α := empty d.maxlen

/-- `len(d)`. -/
def length (d : Deque α) : ℕ := d.items.length

/-- `len(d) == d.maxlen`. -/
def isFull (d : Deque α) : Bool := d.length == d.maxlen

theorem ext_items {d e : Deque α} (hmaxlen : d.maxlen = e.maxlen) (hitems : d.items = e.items) :
    d = e := by
  cases d
  cases e
  cases hmaxlen
  cases hitems
  rfl

@[simp] theorem maxlen_empty (n : ℕ) : (empty n : Deque α).maxlen = n := rfl

@[simp] theorem maxlen_push (d : Deque α) (x : α) : (d.push x).maxlen = d.maxlen := rfl

@[simp] theorem maxlen_popWhile (p : α → Bool) (d : Deque α) :
    (d.popWhile p).maxlen = d.maxlen := rfl

/-- A deque with room keeps every item. -/
theorem items_push (d : Deque α) (x : α) (h : d.length < d.maxlen) :
    (d.push x).items = d.items ++ [x] := by
  have hzero : d.items.length + 1 - d.maxlen = 0 := by
    unfold length at h
    omega
  show (d.items ++ [x]).drop (d.items.length + 1 - d.maxlen) = d.items ++ [x]
  rw [hzero, List.drop_zero]

/-- Pushing onto the latest items of a list leaves the latest of the longer one. -/
theorem items_push_of_rtake {d : Deque α} {all : List α} (h : d.items = all.rtake d.maxlen)
    (x : α) : (d.push x).items = (all ++ [x]).rtake d.maxlen := by
  have hlength : d.items.length = min d.maxlen all.length := by
    rw [h, List.rtake, List.length_drop]
    omega
  show (d.items ++ [x]).drop (d.items.length + 1 - d.maxlen) = _
  rw [hlength, h, List.rtake, List.rtake, List.length_append, List.length_singleton]
  rcases le_total d.maxlen all.length with hle | hle
  · rw [min_eq_left hle]
    have hdrop : (all ++ [x]).drop (all.length - d.maxlen)
        = all.drop (all.length - d.maxlen) ++ [x] :=
      List.drop_append_of_le_length (Nat.sub_le _ _)
    rw [← hdrop, List.drop_drop]
    congr 1
    omega
  · rw [min_eq_right hle, Nat.sub_eq_zero_of_le hle, List.drop_zero]

/-- What was pushed last is last, in a deque that holds anything. -/
theorem getLast?_push {d : Deque α} (h : 0 < d.maxlen) (x : α) :
    (d.push x).items.getLast? = some x := by
  have hle := d.length_le
  unfold push
  rw [List.getLast?_drop, if_neg, List.getLast?_append, List.getLast?_singleton,
    Option.some_or]
  rw [List.length_append, List.length_singleton]
  omega

@[simp] theorem length_empty (n : ℕ) : (empty n : Deque α).length = 0 := rfl

@[simp] theorem clear_empty (n : ℕ) : (empty n : Deque α).clear = empty n := rfl

@[simp] theorem clear_push (d : Deque α) (x : α) : (d.push x).clear = d.clear := rfl

/-- A deque grows until it is full. -/
theorem length_push (d : Deque α) (x : α) :
    (d.push x).length = min (d.length + 1) d.maxlen := by
  have hle := d.length_le
  unfold push length
  rw [List.length_drop, List.length_append, List.length_singleton]
  omega

/-- The deque with every item mapped. -/
def map {β : Type} (f : α → β) (d : Deque α) : Deque β where
  maxlen := d.maxlen
  items := d.items.map f
  length_le := by
    rw [List.length_map]
    exact d.length_le

@[simp] theorem length_map {β : Type} (f : α → β) (d : Deque α) :
    (d.map f).length = d.length :=
  List.length_map f

@[simp] theorem maxlen_map {β : Type} (f : α → β) (d : Deque α) :
    (d.map f).maxlen = d.maxlen := rfl

theorem map_push {β : Type} (f : α → β) (d : Deque α) (x : α) :
    (d.push x).map f = (d.map f).push (f x) := by
  refine ext_items rfl ?_
  show ((d.items ++ [x]).drop (d.items.length + 1 - d.maxlen)).map f =
    (d.items.map f ++ [f x]).drop ((d.items.map f).length + 1 - d.maxlen)
  rw [List.map_drop, List.map_append, List.map_singleton, List.length_map]

end Deque

end Lib
