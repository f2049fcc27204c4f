/-
Finbar.Lib.While — `while` loops.

A pass through the body takes a state to the next one, and is `none` when the
condition of the loop fails. `run step n s` makes at most `n` passes; a loop
halts from `s` when some number of passes leads to a state without a further
one, and more passes then change nothing (`run_eq_of_done`). A measure that every
pass lowers bounds the passes (`done_of_measure`); a pass that changes nothing
is repeated for ever (`not_halts_of_stuck`).

No `sorry`, no `axiom`.
-/
import Mathlib.Data.Nat.Notation
import Mathlib.Logic.Relation

namespace Lib.While

variable {σ : Type*} {step : σ → Option σ} {s t : σ}

/-- The state after at most `n` passes. -/
def run (step : σ → Option σ) : ℕ → σ → σ
  | 0, s => s
  | n + 1, s =>
      match step s with
      | none => s
      | some t => run step n t

/-- The loop comes to a state without a further pass. -/
def Halts (step : σ → Option σ) (s : σ) : Prop :=
  ∃ n, step (run step n s) = none

/-- Some number of passes leads from one state to the other. -/
def Passes (step : σ → Option σ) : σ → σ → Prop :=
  Relation.ReflTransGen fun s t => step s = some t

@[simp] theorem run_zero (step : σ → Option σ) (s : σ) : run step 0 s = s := rfl

theorem run_of_done (h : step s = none) (n : ℕ) : run step n s = s := by
  cases n with
  | zero => rfl
  | succ n => simp [run, h]

theorem run_succ_of_pass (h : step s = some t) (n : ℕ) :
    run step (n + 1) s = run step n t := by
  simp [run, h]

/-- **Once the loop is done, more passes change nothing.** -/
theorem run_eq_of_done {n m : ℕ} (h : step (run step n s) = none) (hle : n ≤ m) :
    run step m s = run step n s := by
  induction n generalizing s m with
  | zero => exact run_of_done h m
  | succ n ih =>
      cases hpass : step s with
      | none => rw [run_of_done hpass, run_of_done hpass]
      | some t =>
          obtain ⟨m, rfl⟩ : ∃ k, m = k + 1 := ⟨m - 1, by omega⟩
          rw [run_succ_of_pass hpass] at h ⊢
          rw [run_succ_of_pass hpass]
          exact ih h (by omega)

/-- States each of which is a pass after the one before. -/
theorem run_of_trace {trace : ℕ → σ} {n : ℕ}
    (h : ∀ k < n, step (trace k) = some (trace (k + 1))) : run step n (trace 0) = trace n := by
  induction n generalizing trace with
  | zero => rfl
  | succ n ih =>
      rw [run_succ_of_pass (h 0 (by omega))]
      exact @ih (fun k => trace (k + 1)) fun k hk => h (k + 1) (by omega)

/-- What holds at the start and is kept by every pass holds after any number of
passes. -/
theorem run_invariant {I : σ → Prop} (hpass : ∀ s t, I s → step s = some t → I t) (hs : I s)
    (n : ℕ) : I (run step n s) := by
  induction n generalizing s with
  | zero => exact hs
  | succ n ih =>
      cases h : step s with
      | none => rwa [run_of_done h]
      | some t =>
          rw [run_succ_of_pass h]
          exact ih (hpass s t hs h)

theorem passes_run (step : σ → Option σ) (s : σ) (n : ℕ) : Passes step s (run step n s) := by
  induction n generalizing s with
  | zero => exact .refl
  | succ n ih =>
      cases h : step s with
      | none =>
          rw [run_of_done h]
          exact .refl
      | some t =>
          rw [run_succ_of_pass h]
          exact .head h (ih t)

/-- **A measure that every pass lowers bounds the passes.** -/
theorem done_of_measure {I : σ → Prop} (μ : σ → ℕ)
    (hpass : ∀ s t, I s → step s = some t → I t ∧ μ t < μ s) (hs : I s) {n : ℕ}
    (hn : μ s ≤ n) : step (run step n s) = none := by
  induction n generalizing s with
  | zero =>
      cases h : step s with
      | none => exact h
      | some t =>
          have := (hpass s t hs h).2
          omega
  | succ n ih =>
      cases h : step s with
      | none => rwa [run_of_done h]
      | some t =>
          rw [run_succ_of_pass h]
          obtain ⟨ht, hlower⟩ := hpass s t hs h
          exact ih ht (by omega)

/-- A loop halts exactly when it halts after its first pass. -/
theorem halts_iff_of_pass (h : step s = some t) : Halts step s ↔ Halts step t := by
  constructor
  · rintro ⟨n, hn⟩
    cases n with
    | zero => simp [h] at hn
    | succ n => exact ⟨n, by rwa [run_succ_of_pass h] at hn⟩
  · rintro ⟨n, hn⟩
    exact ⟨n + 1, by rwa [run_succ_of_pass h]⟩

/-- **A pass that changes nothing is repeated for ever.** -/
theorem not_halts_of_stuck (h : step s = some s) : ¬ Halts step s := by
  rintro ⟨n, hn⟩
  have hrun : run step n s = s := by
    clear hn
    induction n with
    | zero => rfl
    | succ n ih => rw [run_succ_of_pass h, ih]
  simp [hrun, h] at hn

/-- **A loop whose passes lower a measure or change nothing** halts exactly when it is
done after as many passes as the measure says. -/
theorem halts_iff_of_progress (μ : σ → ℕ)
    (hpass : ∀ s t, step s = some t → t = s ∨ μ t < μ s) {n : ℕ} (hn : μ s ≤ n) :
    Halts step s ↔ step (run step n s) = none := by
  refine ⟨fun hhalts => ?_, fun hdone => ⟨n, hdone⟩⟩
  induction n generalizing s with
  | zero =>
      cases h : step s with
      | none => exact h
      | some t =>
          rcases hpass s t h with rfl | hlower
          · exact absurd hhalts (not_halts_of_stuck h)
          · omega
  | succ n ih =>
      cases h : step s with
      | none => rwa [run_of_done h]
      | some t =>
          rw [run_succ_of_pass h]
          rcases hpass s t h with rfl | hlower
          · exact absurd hhalts (not_halts_of_stuck h)
          · exact ih (by omega) ((halts_iff_of_pass h).mp hhalts)

/-- **Where a run stops among what its passes could go on to.** If every pass is a step
of a deterministic relation, what that relation leads to from the start comes after the
state the run leads to, or is a state it passed through. -/
theorem Passes.split {r : σ → σ → Prop} (hunique : ∀ a b c, r a b → r a c → b = c)
    (hpass : ∀ a b, step a = some b → r a b) {last other : σ} (h : Passes step s last)
    (hother : Relation.ReflTransGen r s other) :
    Relation.ReflTransGen r last other ∨ ∃ next, step other = some next ∧ Passes step next last := by
  induction hother using Relation.ReflTransGen.head_induction_on with
  | refl =>
      rcases Relation.ReflTransGen.cases_head h with rfl | ⟨next, hstep, hrest⟩
      · exact .inl .refl
      · exact .inr ⟨next, hstep, hrest⟩
  | head hfirst hrest ih =>
      rcases Relation.ReflTransGen.cases_head h with rfl | ⟨next, hstep, hlast⟩
      · exact .inl (hrest.head hfirst)
      · obtain rfl := hunique _ _ _ hfirst (hpass _ _ hstep)
        exact ih hlast

end Lib.While
