/-
Finbar.Lib.Spacing — times that are a gap apart, and how many of them a window
holds.

`Spaced gap ts` says that consecutive times of a list are at least `gap` apart.
A closed window of length `span` then holds at most `⌊span / gap⌋ + 1` of them
(`Spaced.window_length_le`); evenly spaced times reach that number.

No `sorry`, no `axiom`.
-/
import Mathlib.Algebra.Order.Floor.Ring
import Mathlib.Data.List.Chain
import Mathlib.Data.Rat.Floor
import Mathlib.Tactic.Linarith

namespace Lib

/-- Consecutive times are at least `gap` apart. -/
def Spaced (gap : ℚ) (ts : List ℚ) : Prop :=
  ts.IsChain fun a b => gap ≤ b - a

/-- The times of a closed window. -/
def window (start span : ℚ) (ts : List ℚ) : List ℚ :=
  ts.filter fun t => decide (start ≤ t ∧ t ≤ start + span)

variable {gap start span : ℚ} {ts : List ℚ}

theorem mem_window {t : ℚ} :
    t ∈ window start span ts ↔ t ∈ ts ∧ start ≤ t ∧ t ≤ start + span := by
  unfold window
  rw [List.mem_filter, decide_eq_true_eq]

/-- With a gap that is not negative, any two times are that far apart. -/
theorem Spaced.pairwise (hgap : 0 ≤ gap) (h : Spaced gap ts) :
    ts.Pairwise fun a b => gap ≤ b - a := by
  have : IsTrans ℚ fun a b => gap ≤ b - a := ⟨fun a b c hab hbc => by linarith⟩
  exact List.isChain_iff_pairwise.mp h

/-- A time one gap later than every time so far keeps the spacing. -/
theorem Spaced.concat {t : ℚ} (h : Spaced gap ts) (ht : ∀ a ∈ ts, gap ≤ t - a) :
    Spaced gap (ts ++ [t]) := by
  unfold Spaced at h ⊢
  refine List.isChain_append.mpr ⟨h, List.isChain_singleton t, ?_⟩
  intro a ha b hb
  obtain rfl : t = b := by simpa using hb
  exact ht a (List.mem_of_mem_getLast? ha)

/-- Spaced times up to a bound lie a gap each behind the first. -/
theorem add_length_mul_le {first bound : ℚ} {rest : List ℚ}
    (h : (first :: rest).Pairwise fun a b => gap ≤ b - a)
    (hbound : ∀ t ∈ first :: rest, t ≤ bound) : first + rest.length * gap ≤ bound := by
  induction rest generalizing first with
  | nil => simpa using hbound first List.mem_cons_self
  | cons second rest ih =>
      obtain ⟨hfirst, hrest⟩ := List.pairwise_cons.mp h
      have hnext := ih hrest fun t ht => hbound t (List.mem_cons_of_mem first ht)
      have hgap := hfirst second List.mem_cons_self
      push_cast [List.length_cons]
      linarith

/-- **A window holds at most so many spaced times.** -/
theorem Spaced.window_length_le (hgap : 0 < gap) (h : Spaced gap ts) (start : ℚ)
    (hspan : 0 ≤ span) : ((window start span ts).length : ℤ) ≤ ⌊span / gap⌋ + 1 := by
  have hpairwise := (h.pairwise hgap.le).sublist
    (List.filter_sublist (p := fun t => decide (start ≤ t ∧ t ≤ start + span)))
  cases hwindow : window start span ts with
  | nil =>
      have : 0 ≤ ⌊span / gap⌋ := Int.floor_nonneg.mpr (div_nonneg hspan hgap.le)
      rw [List.length_nil]
      omega
  | cons first rest =>
      have hmem (t : ℚ) (ht : t ∈ first :: rest) : start ≤ t ∧ t ≤ start + span := by
        rw [← hwindow] at ht
        exact (mem_window.mp ht).2
      unfold window at hwindow
      rw [hwindow] at hpairwise
      have hlast := add_length_mul_le hpairwise fun t ht => (hmem t ht).2
      have hfirst := (hmem first List.mem_cons_self).1
      have hcount : (rest.length : ℤ) ≤ ⌊span / gap⌋ := by
        rw [Int.le_floor, le_div_iff₀ hgap]
        push_cast
        linarith
      rw [List.length_cons]
      push_cast
      omega

/-- Times one gap apart, from a first one on. -/
def evenly (first gap : ℚ) (n : ℕ) : List ℚ :=
  (List.range n).map fun i : ℕ => first + i * gap

theorem evenly_succ (first gap : ℚ) (n : ℕ) :
    evenly first gap (n + 1) = evenly first gap n ++ [first + n * gap] := by
  unfold evenly
  rw [List.range_succ, List.map_append, List.map_singleton]

/-- Evenly spaced times that all fit into a window. -/
theorem window_evenly {first : ℚ} {n : ℕ} (hgap : 0 ≤ gap) (h : n * gap ≤ span) :
    window first span (evenly first gap (n + 1)) = evenly first gap (n + 1) := by
  refine List.filter_eq_self.mpr ?_
  intro t ht
  obtain ⟨i, hi, rfl⟩ := List.mem_map.mp ht
  have hi' : (i : ℚ) ≤ n := Nat.cast_le.mpr (Nat.lt_succ_iff.mp (List.mem_range.mp hi))
  have hle : (i : ℚ) * gap ≤ n * gap := mul_le_mul_of_nonneg_right hi' hgap
  have hpos : 0 ≤ (i : ℚ) * gap := mul_nonneg (Nat.cast_nonneg i) hgap
  exact decide_eq_true ⟨by linarith, by linarith⟩

end Lib
