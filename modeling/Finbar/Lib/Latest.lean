/-
Finbar.Lib.Latest — the latest value of a partial sequence.

`latest x n` is the value of `x` at the latest index below `n` at which it
has one (`latest_eq_some_iff`). It is what a memory holds that is overwritten
whenever a value arrives (`eq_latest`).

No `sorry`, no `axiom`.
-/
import Mathlib.Logic.Basic
import Mathlib.Order.Basic

namespace Lib.Latest

variable {α : Type} {x : ℕ → Option α}

/-- The value at the latest index below `n` that has one. -/
def latest (x : ℕ → Option α) : ℕ → Option α
  | 0 => none
  | n + 1 => (x n).or (latest x n)

/-- The latest value is that of an index after which there is none. -/
theorem latest_eq_some_iff {n : ℕ} {a : α} :
    latest x n = some a ↔ ∃ m < n, x m = some a ∧ ∀ k, m < k → k < n → x k = none := by
  induction n with
  | zero =>
      constructor
      · intro h
        cases h
      · rintro ⟨m, hm, -⟩
        exact absurd hm (Nat.not_lt_zero m)
  | succ n ih =>
      unfold latest
      cases hx : x n with
      | some b =>
          rw [Option.some_or]
          constructor
          · intro h
            cases h
            refine ⟨n, Nat.lt_succ_self n, hx, ?_⟩
            intro k hk hk'
            omega
          · rintro ⟨m, hm, hxm, hlast⟩
            have hmn : m = n := by
              by_contra hne
              have hnone := hlast n (by omega) (Nat.lt_succ_self n)
              rw [hx] at hnone
              cases hnone
            rw [← hx, ← hmn, hxm]
      | none =>
          rw [Option.none_or, ih]
          constructor
          · rintro ⟨m, hm, hxm, hlast⟩
            refine ⟨m, Nat.lt_succ_of_lt hm, hxm, ?_⟩
            intro k hk hk'
            rcases Nat.lt_succ_iff_lt_or_eq.mp hk' with hlt | rfl
            · exact hlast k hk hlt
            · exact hx
          · rintro ⟨m, hm, hxm, hlast⟩
            have hmn : m ≠ n := by
              rintro rfl
              rw [hx] at hxm
              cases hxm
            refine ⟨m, by omega, hxm, ?_⟩
            intro k hk hk'
            exact hlast k hk (Nat.lt_succ_of_lt hk')

/-- A memory that starts empty and is overwritten whenever a value arrives
holds the latest value. -/
theorem eq_latest (memory : ℕ → Option α) {n : ℕ} (hzero : memory 0 = none)
    (hstep : ∀ k < n, memory (k + 1) = (x k).or (memory k)) : memory n = latest x n := by
  induction n with
  | zero => exact hzero
  | succ n ih =>
      rw [hstep n (Nat.lt_succ_self n), ih (fun k hk => hstep k (Nat.lt_succ_of_lt hk))]
      rfl

end Lib.Latest
