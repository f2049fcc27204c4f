/-
Finbar.Lib.Journal — append-only journals.

`Grows P xs ys` says that the journal `ys` is `xs` with entries appended
that all satisfy `P`. It is a preorder, so what single steps append, a whole
run appends.

A law says of an event which events may come before it. A history is lawful if every
one of its events obeys the law, given the events before it (`Lawful`); it stays
lawful when an event is appended that does (`Lawful.concat`).

No `sorry`, no `axiom`.
-/
import Mathlib.Data.List.Basic

/-! ## §1 Journals that grow -/

namespace Lib

variable {α : Type*} {P Q : α → Prop} {xs ys zs : List α}

/-- `ys` is `xs` with entries appended that all satisfy `P`. -/
def Grows (P : α → Prop) (xs ys : List α) : Prop :=
  ∃ new, ys = xs ++ new ∧ ∀ a ∈ new, P a

theorem Grows.of_eq (h : ys = xs) : Grows P xs ys :=
  ⟨[], by rw [h, List.append_nil], fun _ ha => nomatch ha⟩

theorem Grows.one {a : α} (h : P a) : Grows P xs (xs ++ [a]) := by
  refine ⟨[a], rfl, fun b hb => ?_⟩
  rw [List.mem_singleton.mp hb]
  exact h

theorem Grows.trans (h : Grows P xs ys) (h' : Grows P ys zs) : Grows P xs zs := by
  obtain ⟨new, rfl, hnew⟩ := h
  obtain ⟨new', rfl, hnew'⟩ := h'
  refine ⟨new ++ new', List.append_assoc xs new new', fun a ha => ?_⟩
  rcases List.mem_append.mp ha with ha | ha
  · exact hnew a ha
  · exact hnew' a ha

end Lib

/-! ## §2 Laws about the order of events -/

namespace Lib.History

variable {ε : Type} {law : List ε → ε → Prop} {history : List ε}

/-- Every event obeys the law, given those before it. -/
def Lawful (law : List ε → ε → Prop) (history : List ε) : Prop :=
  ∀ before event later, history = before ++ event :: later → law before event

theorem lawful_nil (law : List ε → ε → Prop) : Lawful law [] :=
  fun _ _ _ h => nomatch (List.append_eq_nil_iff.mp h.symm).2

/-- One more event. -/
theorem Lawful.concat (h : Lawful law history) {event : ε} (hevent : law history event) :
    Lawful law (history ++ [event]) := by
  intro before first later hsplit
  rcases List.eq_nil_or_concat later with rfl | ⟨init, last, rfl⟩
  · obtain ⟨rfl, heq⟩ := List.append_inj' hsplit rfl
    obtain rfl := List.singleton_inj.mp heq
    exact hevent
  · rw [List.concat_eq_append, ← List.cons_append, ← List.append_assoc] at hsplit
    exact h before first init (List.append_inj' hsplit rfl).1

end Lib.History
