/-
Finbar.Lib.SlidingLog — a bounded deque that remembers the latest of some times.

Times are pushed as they come and popped once they are below a bound that only grows. A
deque remembers a list of times if it holds a tail of it, and is full or has lost times
below the bound alone (`Remembers`). A deque that is not full then holds every time from the
bound on (`Remembers.length_window`), even if it has been full before.

No `sorry`, no `axiom`.
-/
import Finbar.Lib.Deque
import Finbar.Lib.Spacing
import Mathlib.Data.List.TakeWhile

namespace Lib

variable {times : List ℚ} {d : Deque ℚ} {bound : ℚ}

/-- The deque holds the latest times, all of those from the bound on unless it is full. -/
def Remembers (times : List ℚ) (d : Deque ℚ) (bound : ℚ) : Prop :=
  ∃ old, times = old ++ d.items ∧ (d.length = d.maxlen ∨ ∀ t ∈ old, t < bound)

namespace Remembers

theorem empty (n : ℕ) (bound : ℚ) : Remembers [] (.empty n) bound :=
  ⟨[], rfl, .inr fun _ ht => nomatch ht⟩

theorem mono (h : Remembers times d bound) {bound' : ℚ} (hbound : bound ≤ bound') :
    Remembers times d bound' := by
  obtain ⟨old, htimes, hlost⟩ := h
  exact ⟨old, htimes, hlost.imp_right fun hold t ht => (hold t ht).trans_le hbound⟩

/-- What is popped is below the bound, and what was lost before it as well. -/
theorem popWhile (hsorted : times.Pairwise (· ≤ ·)) (h : Remembers times d bound) :
    Remembers times (d.popWhile fun t => decide (t < bound)) bound := by
  obtain ⟨old, rfl, hlost⟩ := h
  have hsplit : d.items.takeWhile (fun t => decide (t < bound)) ++
      d.items.dropWhile (fun t => decide (t < bound)) = d.items := List.takeWhile_append_dropWhile
  have hpopped : ∀ t ∈ d.items.takeWhile (fun t => decide (t < bound)), t < bound :=
    fun t ht => by simpa using List.mem_takeWhile_imp ht
  cases htake : d.items.takeWhile (fun t => decide (t < bound)) with
  | nil =>
      have hitems : (d.popWhile fun t => decide (t < bound)).items = d.items := by
        rwa [htake, List.nil_append] at hsplit
      exact ⟨old, by rw [hitems], hlost.imp_left fun hfull => by rw [Deque.length, hitems]; exact hfull⟩
  | cons first popped =>
      rw [htake] at hsplit hpopped
      have hfirst : first ∈ d.items := by
        rw [← hsplit]
        simp
      refine ⟨old ++ first :: popped, ?_, .inr fun t ht => ?_⟩
      · rw [List.append_assoc]
        exact congrArg (old ++ ·) hsplit.symm
      · rcases List.mem_append.mp ht with ht | ht
        · have hle := (List.pairwise_append.mp hsorted).2.2 t ht first hfirst
          exact hle.trans_lt (hpopped first List.mem_cons_self)
        · exact hpopped t ht

/-- A deque that is full forgets its oldest time for the new one. -/
theorem push (h : Remembers times d bound) (t : ℚ) : Remembers (times ++ [t]) (d.push t) bound := by
  obtain ⟨old, rfl, hlost⟩ := h
  by_cases hroom : d.length < d.maxlen
  · refine ⟨old, ?_, .inr (hlost.resolve_left hroom.ne)⟩
    rw [d.items_push t hroom, List.append_assoc]
  · refine ⟨old ++ (d.items ++ [t]).take (d.items.length + 1 - d.maxlen), ?_, .inl ?_⟩
    · rw [List.append_assoc, List.append_assoc]
      exact congrArg (old ++ ·) (List.take_append_drop _ _).symm
    · rw [Deque.length_push, Deque.maxlen_push]
      omega

/-- **A deque that is not full** holds every time from the bound on. -/
theorem length_window (h : Remembers times d bound) (hroom : d.length < d.maxlen) (span : ℚ) :
    (window bound span times).length ≤ d.length := by
  obtain ⟨old, rfl, hlost⟩ := h
  have hold := hlost.resolve_left hroom.ne
  have hnone : window bound span old = [] := by
    rw [window, List.filter_eq_nil_iff]
    intro t ht hwindow
    exact (hold t ht).not_ge (of_decide_eq_true hwindow).1
  have hsplit : window bound span (old ++ d.items) = window bound span d.items := by
    rw [window, List.filter_append]
    exact congrArg (· ++ window bound span d.items) hnone
  rw [hsplit]
  exact List.length_filter_le _ _

end Remembers

end Lib
