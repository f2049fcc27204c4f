/-
Finbar.Lib.Window — windows of consecutive positions and what they cut out of
a list.

`Window.Ordered ws` says that the windows stand in increasing order and no two
of them share a position. What such windows cut out of a list, one after the
other, is a sublist of it (`Window.flatMap_cut_sublist`): every item at most
once, in its order. `pySlice` is Python's `xs[start:stop]`, which cuts a window
out as long as its bounds are not negative.

No `sorry`, no `axiom`.
-/
import Mathlib.Data.List.TakeDrop
import Mathlib.Data.Int.Order.Basic

namespace Lib

/-! ## §1 Windows -/

/-- The positions from `start` up to, and without, `stop`. -/
structure Window where
  start : ℤ
  stop : ℤ
  deriving DecidableEq

namespace Window

variable {v w : Window} {x : ℤ}

/-- The position lies in the window. -/
def Holds (w : Window) (x : ℤ) : Prop :=
  w.start ≤ x ∧ x < w.stop

/-- Every position of `v` lies before every position of `w`. -/
def Precedes (v w : Window) : Prop :=
  ∀ x y, v.Holds x → w.Holds y → x < y

/-- Windows in increasing order, no two of which share a position. -/
def Ordered (ws : List Window) : Prop :=
  ws.Pairwise Precedes

theorem precedes_of_stop_le (h : v.stop ≤ w.start) : v.Precedes w := by
  intro x y hx hy
  exact lt_of_lt_of_le hx.2 (le_trans h hy.1)

theorem precedes_of_left_empty (h : v.stop ≤ v.start) : v.Precedes w := by
  intro x y hx hy
  have := hx.1
  have := hx.2
  omega

theorem precedes_of_right_empty (h : w.stop ≤ w.start) : v.Precedes w := by
  intro x y hx hy
  have := hy.1
  have := hy.2
  omega

/-- Windows that share a position do not precede one another. -/
theorem not_precedes (hv : v.Holds x) (hw : w.Holds x) : ¬ v.Precedes w :=
  fun h => lt_irrefl x (h x x hv hw)

theorem Ordered.sublist {ws us : List Window} (h : Ordered ws) (hsub : us.Sublist ws) :
    Ordered us :=
  List.Pairwise.sublist hsub h

/-! ## §2 Cutting a list -/

variable {α : Type*}

/-- The items of a list at the positions of a window. -/
def cut (xs : List α) (w : Window) : List α :=
  (xs.take w.stop.toNat).drop w.start.toNat

theorem cut_of_empty (xs : List α) (h : w.stop ≤ w.start) : cut xs w = [] := by
  refine List.drop_eq_nil_of_le ?_
  rw [List.length_take]
  omega

/-- What ordered windows cut out, one after the other, is a sublist of what
lies from the first of their positions on. -/
theorem flatMap_cut_sublist_drop {xs : List α} {ws : List Window} (h : Ordered ws) {k : ℕ}
    (hk : ∀ w ∈ ws, ∀ x, w.Holds x → (k : ℤ) ≤ x) :
    (ws.flatMap (cut xs)).Sublist (xs.drop k) := by
  induction ws generalizing k with
  | nil => exact List.nil_sublist _
  | cons w ws ih =>
      obtain ⟨hw, hws⟩ := List.pairwise_cons.mp h
      rw [List.flatMap_cons]
      by_cases hempty : w.stop ≤ w.start
      · rw [cut_of_empty xs hempty, List.nil_append]
        exact ih hws fun u hu => hk u (List.mem_cons_of_mem w hu)
      · -- the rest lies behind the last position of `w`
        have hlast : w.Holds (w.stop - 1) := ⟨by omega, by omega⟩
        have hrest : ((ws.flatMap (cut xs)).Sublist (xs.drop w.stop.toNat)) := by
          refine ih hws ?_
          intro u hu x hx
          have := hw u hu (w.stop - 1) x hlast hx
          have := hk u (List.mem_cons_of_mem w hu) x hx
          omega
        have hfirst : (k : ℤ) ≤ w.start := hk w List.mem_cons_self w.start ⟨le_refl _, by omega⟩
        have hstop : (xs.take w.stop.toNat).drop k ++ xs.drop w.stop.toNat = xs.drop k := by
          rw [List.drop_take]
          have hsplit := List.drop_take_append_drop xs k (w.stop.toNat - k)
          rwa [show k + (w.stop.toNat - k) = w.stop.toNat by omega] at hsplit
        rw [← hstop]
        refine List.Sublist.append ?_ hrest
        have hcut : cut xs w = ((xs.take w.stop.toNat).drop k).drop (w.start.toNat - k) := by
          rw [List.drop_drop]
          unfold cut
          congr 1
          omega
        rw [hcut]
        exact List.drop_sublist _ _

/-- **Ordered windows cut every item out at most once.** -/
theorem flatMap_cut_sublist {xs : List α} {ws : List Window} (h : Ordered ws)
    (hnonneg : ∀ w ∈ ws, 0 ≤ w.start) : (ws.flatMap (cut xs)).Sublist xs := by
  refine flatMap_cut_sublist_drop (k := 0) h ?_
  intro w hw x hx
  exact le_trans (hnonneg w hw) hx.1

/-! ## §3 Slices -/

/-- `xs[start:stop]`: a negative bound counts from the end of the list. -/
def pySlice (xs : List α) (start stop : ℤ) : List α :=
  let position (i : ℤ) : ℕ := (if i < 0 then i + xs.length else i).toNat
  (xs.take (position stop)).drop (position start)

theorem pySlice_eq_cut (xs : List α) {start stop : ℤ} (hstart : 0 ≤ start) (hstop : 0 ≤ stop) :
    pySlice xs start stop = cut xs ⟨start, stop⟩ := by
  unfold pySlice cut
  dsimp only
  rw [if_neg (not_lt.mpr hstop), if_neg (not_lt.mpr hstart)]

end Window

end Lib
