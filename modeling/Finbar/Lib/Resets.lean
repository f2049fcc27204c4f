/-
Finbar.Lib.Resets — objects that are updated with items and can be reset.

What such an object has seen are the items since its last reset
(`Call.sinceReset`). A property of the state and what it has seen that every update
and every reset keeps holds after any calls (`Call.run_invariant`).

No `sorry`, no `axiom`.
-/
import Mathlib.Data.List.Induction

namespace Lib

/-- A call on the object. -/
inductive Call (ι : Type*) where
  | update (item : ι)
  | reset

namespace Call

variable {ι σ : Type*}

/-- The state after some calls. -/
def run (update : σ → ι → σ) (reset : σ → σ) (s : σ) (calls : List (Call ι)) : σ :=
  calls.foldl (fun s call =>
    match call with
    | .update item => update s item
    | .reset => reset s) s

/-- The items of the updates since the last reset. -/
def sinceReset (calls : List (Call ι)) : List ι :=
  run (fun seen item => seen ++ [item]) (fun _ => []) [] calls

theorem run_concat (update : σ → ι → σ) (reset : σ → σ) (s : σ) (calls : List (Call ι))
    (call : Call ι) :
    run update reset s (calls ++ [call]) =
      match call with
      | .update item => update (run update reset s calls) item
      | .reset => reset (run update reset s calls) := by
  unfold run
  rw [List.foldl_append]
  rfl

/-- **What updates and resets keep holds of the state and what it has seen.** -/
theorem run_invariant {update : σ → ι → σ} {reset : σ → σ} {I : List ι → σ → Prop} {s : σ}
    (hstart : I [] s) (hupdate : ∀ seen s item, I seen s → I (seen ++ [item]) (update s item))
    (hreset : ∀ seen s, I seen s → I [] (reset s)) (calls : List (Call ι)) :
    I (sinceReset calls) (run update reset s calls) := by
  induction calls using List.reverseRecOn with
  | nil => exact hstart
  | append_singleton calls call ih =>
      unfold sinceReset
      rw [run_concat, run_concat]
      cases call with
      | update item => exact hupdate _ _ item ih
      | reset => exact hreset _ _ ih

end Call

end Lib
