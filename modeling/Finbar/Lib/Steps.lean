/-
Finbar.Lib.Steps — runs of a step function under a condition on each step.

`Along step C s inputs` says that every step of the run from `s` meets `C`, a
condition on the state before the step and on the input. An invariant that the
steps meeting `C` keep is kept by the runs along `C` (`Along.invariant`).

No `sorry`, no `axiom`.
-/
import Mathlib.Data.List.Basic

namespace Lib.Steps

variable {σ ι : Type*} {step : σ → ι → σ} {C C' : σ → ι → Prop} {s : σ} {inputs : List ι}

/-- The state after a run. -/
def run (step : σ → ι → σ) (s : σ) (inputs : List ι) : σ :=
  inputs.foldl step s

@[simp] theorem run_nil (step : σ → ι → σ) (s : σ) : run step s [] = s := rfl

@[simp] theorem run_cons (step : σ → ι → σ) (s : σ) (i : ι) (inputs : List ι) :
    run step s (i :: inputs) = run step (step s i) inputs := rfl

theorem run_append (step : σ → ι → σ) (s : σ) (inputs inputs' : List ι) :
    run step s (inputs ++ inputs') = run step (run step s inputs) inputs' :=
  List.foldl_append

/-- Every step of the run meets the condition. -/
def Along (step : σ → ι → σ) (C : σ → ι → Prop) : σ → List ι → Prop
  | _, [] => True
  | s, i :: inputs => C s i ∧ Along step C (step s i) inputs

theorem Along.mono (h : Along step C s inputs) (hC : ∀ s i, C s i → C' s i) :
    Along step C' s inputs := by
  induction inputs generalizing s with
  | nil => trivial
  | cons i inputs ih => exact ⟨hC s i h.1, ih h.2⟩

/-- A run along the condition is one up to a place, and one from there. -/
theorem Along.of_append {inputs' : List ι} (h : Along step C s (inputs ++ inputs')) :
    Along step C s inputs ∧ Along step C (run step s inputs) inputs' := by
  induction inputs generalizing s with
  | nil => exact ⟨trivial, h⟩
  | cons i inputs ih => exact ⟨⟨h.1, (ih h.2).1⟩, (ih h.2).2⟩

/-- A condition on the inputs alone is met along every run over them. -/
theorem along_of_forall {P : ι → Prop} (h : ∀ i ∈ inputs, P i) :
    Along step (fun _ i => P i) s inputs := by
  induction inputs generalizing s with
  | nil => trivial
  | cons i inputs ih =>
      exact ⟨h i List.mem_cons_self, ih fun j hj => h j (List.mem_cons_of_mem i hj)⟩

/-- **The invariant rule.** -/
theorem Along.invariant {I : σ → Prop} (hstep : ∀ s i, I s → C s i → I (step s i))
    (h : Along step C s inputs) (hs : I s) : I (run step s inputs) := by
  induction inputs generalizing s with
  | nil => exact hs
  | cons i inputs ih => exact ih h.2 (hstep s i hs h.1)

/-- The invariant rule, for an invariant of the inputs so far as well. -/
theorem Along.invariant_seen {I : σ → List ι → Prop} (seen : List ι)
    (hstep : ∀ s seen i, I s seen → C s i → I (step s i) (seen ++ [i]))
    (h : Along step C s inputs) (hs : I s seen) : I (run step s inputs) (seen ++ inputs) := by
  induction inputs generalizing s seen with
  | nil => rwa [List.append_nil]
  | cons i inputs ih =>
      rw [List.append_cons]
      exact ih (seen ++ [i]) h.2 (hstep s seen i hs h.1)

/-- A condition that the steps meeting `C` meet as well, while an invariant of
the inputs so far holds. -/
theorem Along.mono_seen {I : σ → List ι → Prop} (seen : List ι)
    (hstep : ∀ s seen i, I s seen → C s i → I (step s i) (seen ++ [i]))
    (hC : ∀ s seen i, I s seen → C s i → C' s i)
    (h : Along step C s inputs) (hs : I s seen) : Along step C' s inputs := by
  induction inputs generalizing s seen with
  | nil => trivial
  | cons i inputs ih => exact ⟨hC s seen i hs h.1, ih (seen ++ [i]) h.2 (hstep s seen i hs h.1)⟩

/-- The run of a beginning of the inputs is along the condition as well. -/
theorem Along.take (h : Along step C s inputs) (k : ℕ) : Along step C s (inputs.take k) := by
  induction inputs generalizing s k with
  | nil => rw [List.take_nil]; trivial
  | cons i inputs ih =>
      cases k with
      | zero => trivial
      | succ k => exact ⟨h.1, ih h.2 k⟩

/-- Two conditions that agree while an invariant holds, which the steps meeting the
first keep, are met along the same runs. -/
theorem along_iff {I : σ → Prop} (hC : ∀ s i, I s → (C s i ↔ C' s i))
    (hstep : ∀ s i, I s → C s i → I (step s i)) (hs : I s) :
    Along step C s inputs ↔ Along step C' s inputs := by
  induction inputs generalizing s with
  | nil => rfl
  | cons i inputs ih =>
      constructor
      · intro h
        exact ⟨(hC s i hs).mp h.1, (ih (hstep s i hs h.1)).mp h.2⟩
      · intro h
        have hfirst := (hC s i hs).mpr h.1
        exact ⟨hfirst, (ih (hstep s i hs hfirst)).mpr h.2⟩

/-- A condition on the state a step leads to is met along the runs whose every later
state meets it. -/
theorem along_next_iff {P : σ → Prop} (hs : P s) :
    Along step (fun s i => P (step s i)) s inputs ↔ ∀ k, P (run step s (inputs.take k)) := by
  induction inputs generalizing s with
  | nil =>
      constructor
      · intro _ k
        rw [List.take_nil]
        exact hs
      · intro _
        trivial
  | cons i inputs ih =>
      constructor
      · intro h k
        cases k with
        | zero => exact hs
        | succ k => exact (ih h.1).mp h.2 k
      · intro h
        exact ⟨h 1, (ih (h 1)).mpr fun k => h (k + 1)⟩

/-- What every step keeps holds of the state and the inputs so far. -/
theorem run_seen {I : σ → List ι → Prop}
    (hstep : ∀ s seen i, I s seen → I (step s i) (seen ++ [i])) (hs : I s [])
    (inputs : List ι) : I (run step s inputs) inputs :=
  (along_of_forall fun _ _ => trivial).invariant_seen [] (C := fun _ _ => True)
    (fun s seen i h _ => hstep s seen i h) hs

end Lib.Steps
