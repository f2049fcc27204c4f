/-
Finbar.Lib.Calls — objects whose methods may raise.

A call takes a state and an input to the state it leaves, also when it raises,
and to the exception, if it raised. `Transactional` says of a run of calls what
is asked of an object that rejects input: the inputs it accepted, and only
they, are in its state. A run whose calls all return is transactional when the
state keeps up with the inputs (`Transactional.of_returns`).

No `sorry`, no `axiom`.
-/
import Finbar.Lib.Steps

namespace Lib.Calls

open Steps

variable {σ ι ε : Type*} {call : σ → ι → σ × Option ε} {s : σ} {inputs : List ι}

/-- The state a call leaves. -/
def leaves (call : σ → ι → σ × Option ε) (s : σ) (i : ι) : σ := (call s i).1

/-- The call returns. -/
def Returns (call : σ → ι → σ × Option ε) (s : σ) (i : ι) : Prop := (call s i).2 = none

/-- The call leaves the state as it was, if it raises. -/
def Restores (call : σ → ι → σ × Option ε) (s : σ) (i : ι) : Prop :=
  (call s i).2 ≠ none → (call s i).1 = s

/-- The inputs of the calls that return. -/
def accepted (call : σ → ι → σ × Option ε) : σ → List ι → List ι
  | _, [] => []
  | s, i :: inputs =>
      match call s i with
      | (s, none) => i :: accepted call s inputs
      | (s, some _) => accepted call s inputs

theorem accepted_of_returns (h : Along (leaves call) (Returns call) s inputs) :
    accepted call s inputs = inputs := by
  induction inputs generalizing s with
  | nil => rfl
  | cons i inputs ih =>
      have hnone : call s i = (leaves call s i, none) := Prod.ext rfl h.1
      unfold accepted
      rw [hnone]
      exact congrArg (List.cons i) (ih h.2)

/-- **What was rejected might as well not have been offered.** -/
theorem run_accepted (h : Along (leaves call) (Restores call) s inputs) :
    run (leaves call) s (accepted call s inputs) = run (leaves call) s inputs := by
  induction inputs generalizing s with
  | nil => rfl
  | cons i inputs ih =>
      have hrest := ih h.2
      unfold accepted
      rw [run_cons]
      cases hcall : call s i with
      | mk left raised =>
          have hleft : leaves call s i = left := congrArg Prod.fst hcall
          rw [hleft] at hrest ⊢
          cases raised with
          | none =>
              simp only [run_cons]
              rw [hleft, hrest]
          | some e =>
              -- the state before the call is the one it leaves
              have hsame : left = s := by
                have hrestored := h.1 (by rw [hcall]; exact Option.some_ne_none e)
                rwa [hcall] at hrestored
              subst hsame
              exact hrest

/-- At every place of a run the state is in keeping with the inputs accepted so
far, and is what it were if no other had been offered; no call that raises
changes it. -/
structure Transactional (call : σ → ι → σ × Option ε) (Aligned : σ → List ι → Prop) (s : σ)
    (inputs : List ι) : Prop where
  restores : Along (leaves call) (Restores call) s inputs
  aligned : ∀ k, Aligned (run (leaves call) s (inputs.take k)) (accepted call s (inputs.take k))
  unoffered : ∀ k, run (leaves call) s (accepted call s (inputs.take k)) =
    run (leaves call) s (inputs.take k)

/-- A run whose calls return, and keep an invariant of the inputs so far, is
transactional. -/
theorem Transactional.of_returns {Aligned I : σ → List ι → Prop} {C : σ → ι → Prop}
    (hstep : ∀ s seen i, I s seen → C s i →
      Returns call s i ∧ I (leaves call s i) (seen ++ [i]))
    (haligned : ∀ s seen, I s seen → Aligned s seen)
    (h : Along (leaves call) C s inputs) (hs : I s []) :
    Transactional call Aligned s inputs := by
  have hreturns : Along (leaves call) (Returns call) s inputs :=
    h.mono_seen _ (fun s seen i hI hC => (hstep s seen i hI hC).2)
      (fun s seen i hI hC => (hstep s seen i hI hC).1) hs
  have hrestores : Along (leaves call) (Restores call) s inputs :=
    hreturns.mono fun s i hreturn hraise => absurd hreturn hraise
  refine ⟨hrestores, fun k => ?_, fun k => run_accepted (hrestores.take k)⟩
  have hI := (h.take k).invariant_seen _ (fun s seen i hI hC => (hstep s seen i hI hC).2) hs
  rw [accepted_of_returns (hreturns.take k)]
  exact haligned _ _ hI

end Lib.Calls
