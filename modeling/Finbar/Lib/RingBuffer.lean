/-
Finbar.Lib.RingBuffer — a running sum over the latest items, which a circular
buffer holds.

The item pushed at position `i` is written to slot `i % slots.length`, over the
item that stood there `slots.length` pushes before; that one is subtracted.
`RingBuffer.Holds` links slots, position and sum with the items pushed so far. It
is kept by every push (`Holds.push`), the partly filled start included.

No `sorry`, no `axiom`.
-/
import Finbar.Lib.SlidingSum

namespace Lib

/-- A circular buffer of items with their running sum and the number of pushes. -/
structure RingBuffer (G : Type*) where
  slots : List G
  total : G
  count : ℕ

namespace RingBuffer

variable {G : Type*} [AddCommGroup G]

/-- An empty buffer of `w` slots. -/
def zeros (w : ℕ) : RingBuffer G where
  slots := List.replicate w 0
  total := 0
  count := 0

/-- Push an item. -/
def push (r : RingBuffer G) (x : G) : RingBuffer G :=
  let slot := r.count % r.slots.length
  { slots := r.slots.set slot x
    total := (if r.slots.length ≤ r.count then r.total - r.slots.getD slot 0 else r.total) + x
    count := r.count + 1 }

/-- What a buffer of `w` slots is after the pushes `xs`. -/
structure Holds (w : ℕ) (xs : List G) (r : RingBuffer G) : Prop where
  count : r.count = xs.length
  length : r.slots.length = w
  /-- Each of the latest `w` items stands in the slot of its position. -/
  slots : ∀ k, k < xs.length → xs.length ≤ k + w → r.slots[k % w]? = xs[k]?
  total : r.total = (xs.rtake w).sum

theorem Holds.zeros (w : ℕ) : Holds w [] (zeros w : RingBuffer G) where
  count := rfl
  length := List.length_replicate
  slots := fun k hk _ => absurd hk (Nat.not_lt_zero k)
  total := by
    rw [List.rtake_nil]
    rfl

/-- Two of the latest `w` positions never share a slot. -/
theorem slot_ne {w k n : ℕ} (hk : k < n) (hn : n < k + w) : k % w ≠ n % w := by
  intro heq
  have hdvd : (n - k) % w = 0 := Nat.sub_mod_eq_zero_of_mod_eq heq.symm
  rw [Nat.mod_eq_of_lt (by omega)] at hdvd
  omega

/-- **A push keeps slots, position and sum linked.** -/
theorem Holds.push {w : ℕ} {xs : List G} {r : RingBuffer G} (hw : 0 < w) (h : Holds w xs r)
    (x : G) : Holds w (xs ++ [x]) (r.push x) := by
  have hlength : (xs ++ [x]).length = xs.length + 1 := by
    rw [List.length_append, List.length_singleton]
  refine ⟨?_, ?_, ?_, ?_⟩
  · show r.count + 1 = (xs ++ [x]).length
    rw [h.count, hlength]
  · show (r.slots.set _ x).length = w
    rw [List.length_set, h.length]
  · intro k hk hwindow
    show (r.slots.set (r.count % r.slots.length) x)[k % w]? = (xs ++ [x])[k]?
    rw [hlength] at hk hwindow
    rw [h.count, h.length]
    rcases Nat.lt_succ_iff_lt_or_eq.mp hk with hlt | rfl
    · rw [List.getElem?_set_ne (Ne.symm (slot_ne hlt (by omega))), h.slots k hlt (by omega),
        List.getElem?_append_left hlt]
    · rw [List.getElem?_set_self (by rw [h.length]; exact Nat.mod_lt _ hw),
        List.getElem?_concat_length]
  · show (if r.slots.length ≤ r.count then _ else _) + x = _
    rw [sum_rtake_concat xs x hw, h.count, h.length, h.total]
    split
    · rename_i hfull
      -- the slot to be written is the one of the oldest item of the window
      have hslot : (xs.length - w) % w = xs.length % w := by
        rw [Nat.mod_eq_sub_mod hfull]
      have holdest := h.slots (xs.length - w) (by omega) (by omega)
      rw [hslot] at holdest
      rw [List.getD_eq_getElem?_getD, List.getD_eq_getElem?_getD, holdest]
    · rfl

end RingBuffer

end Lib
