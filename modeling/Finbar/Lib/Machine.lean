/-
Finbar.Lib.Machine — deterministic machines with outputs.

A step takes a state and an input to a state and an output. Two machines that
are related by a bisimulation answer the same inputs with the same outputs
(`Bisimulation.outputs_eq`). The relation may depend on the inputs still to
come, so that two states can be related for some futures only. Optional parts
of states are related by `Option.Rel`.

No `sorry`, no `axiom`.
-/
import Mathlib.Data.List.Basic

namespace Lib.Machine

variable {σ τ ι ω ρ : Type}

/-! ## §1 Runs -/

/-- The state after a sequence of inputs. -/
def after (step : σ → ι → σ × ω) (s : σ) (inputs : List ι) : σ :=
  inputs.foldl (fun s i => (step s i).1) s

/-- The outputs on a sequence of inputs. -/
def outputs (step : σ → ι → σ × ω) : σ → List ι → List ω
  | _, [] => []
  | s, i :: inputs => (step s i).2 :: outputs step (step s i).1 inputs

/-- What no step changes, no run changes. -/
theorem after_eq_of_step {step : σ → ι → σ × ω} (read : σ → ρ)
    (hstep : ∀ s i, read (step s i).1 = read s) (s : σ) (inputs : List ι) :
    read (after step s inputs) = read s := by
  induction inputs generalizing s with
  | nil => rfl
  | cons i inputs ih => exact (ih (step s i).1).trans (hstep s i)

/-- A part of the state that evolves by itself is, after a run, the fold of
its own step. -/
theorem after_fold {step : σ → ι → σ × ω} (read : σ → ρ) (next : ρ → ι → ρ)
    (hstep : ∀ s i, read (step s i).1 = next (read s) i) (s : σ) (inputs : List ι) :
    read (after step s inputs) = inputs.foldl next (read s) := by
  induction inputs generalizing s with
  | nil => rfl
  | cons i inputs ih =>
      rw [List.foldl_cons, ← hstep]
      exact ih (step s i).1

/-! ## §2 Bisimulation -/

/-- A relation between two machines, given the inputs to come, that equates
the next output and is kept by the next step. -/
structure Bisimulation (step : σ → ι → σ × ω) (step' : τ → ι → τ × ω)
    (R : List ι → σ → τ → Prop) : Prop where
  output : ∀ {i inputs s t}, R (i :: inputs) s t → (step s i).2 = (step' t i).2
  next : ∀ {i inputs s t}, R (i :: inputs) s t → R inputs (step s i).1 (step' t i).1

/-- **Related machines have the same outputs.** -/
theorem Bisimulation.outputs_eq {step : σ → ι → σ × ω} {step' : τ → ι → τ × ω}
    {R : List ι → σ → τ → Prop} (h : Bisimulation step step' R) {inputs : List ι} {s : σ}
    {t : τ} (hR : R inputs s t) : outputs step s inputs = outputs step' t inputs := by
  induction inputs generalizing s t with
  | nil => rfl
  | cons i inputs ih =>
      unfold outputs
      rw [h.output hR, ih (h.next hR)]

/-! ## §3 Optional parts of a state -/

section Optional

variable {α β γ δ : Type} {R R' : α → β → Prop} {a : Option α} {b : Option β}

theorem rel_mono (h : Option.Rel R a b) (hR : ∀ x y, R x y → R' x y) : Option.Rel R' a b := by
  cases h with
  | none => exact .none
  | some h => exact .some (hR _ _ h)

/-- Functions that keep a relation keep it on optional parts. -/
theorem rel_map {f : α → γ} {g : β → δ} {S : γ → δ → Prop} (h : Option.Rel R a b)
    (hfg : ∀ x y, R x y → S (f x) (g y)) : Option.Rel S (a.map f) (b.map g) := by
  cases h with
  | none => exact .none
  | some h => exact .some (hfg _ _ h)

/-- What is read alike of related parts is read alike of optional ones. -/
theorem rel_map_eq {f : α → γ} {g : β → γ} (h : Option.Rel R a b)
    (hfg : ∀ x y, R x y → f x = g y) : a.map f = b.map g := by
  cases h with
  | none => rfl
  | some h => exact congrArg some (hfg _ _ h)

end Optional

end Lib.Machine
