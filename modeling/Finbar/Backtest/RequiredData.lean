/-
Finbar.Backtest.RequiredData — `RequiredDataValidator`: after how many warmup
bars every column that a strategy needs has a value.

No `sorry`, no `axiom`.
-/
import Finbar.Backtest.Frame

namespace Finbar.Backtest

open Lib.Python

variable {ι : Type}

/-- What the callers of `validate_required_data` read of its result. -/
structure WarmupResult where
  warmupBars : ℕ := 0
  firstTradable : String := ""
  noTradableBars : Bool := false
  missingAfterWarmup : List String := []
  deriving DecidableEq, Repr

/-- `notna` after `pd.to_numeric(…, errors="coerce")`: the cell is a number
or text that reads as one. -/
def notna : PyValue → Bool
  | .num x => !x.isNan
  | .bool _ => true
  | .str s =>
      match floatOfText s with
      | some x => !x.isNan
      | none => false
  | .none => false
  | .list _ => false

/-- Every required column has a value in the row. -/
def rowValid (requiredColumns : List String) (row : Row ι) : Bool :=
  requiredColumns.all fun column => notna (row.cell column)

/-- `_validate_present`: all required columns are columns of the frame. -/
def validatePresent (frame : Frame ι) (requiredColumns : List String) : WarmupResult :=
  match frame.rows.find? (rowValid requiredColumns) with
  | none =>
      { warmupBars := frame.rows.length
        missingAfterWarmup := requiredColumns.filter fun column =>
          frame.rows.all fun row => !notna (row.cell column)
        noTradableBars := true }
  | some row =>
      let warmupBars := frame.rows.findIdx (rowValid requiredColumns)
      let tail := frame.rows.drop warmupBars
      { warmupBars := warmupBars
        firstTradable := row.stamp
        missingAfterWarmup :=
          if tail.all (rowValid requiredColumns) then []
          else requiredColumns.filter fun column =>
            !tail.all fun row => notna (row.cell column)
        noTradableBars := decide (frame.rows.length ≤ warmupBars) }

/-- `RequiredDataValidator.validate`, which `validate_required_data` calls. -/
def validateRequiredData (frame : Frame ι) (requiredColumns : List String) :
    WarmupResult :=
  if requiredColumns.isEmpty ∨ frame.rows.isEmpty then {}
  else
    let unknown := requiredColumns.filter fun column => !frame.columns.contains column
    if unknown ≠ [] then { missingAfterWarmup := unknown, noTradableBars := true }
    else validatePresent frame requiredColumns

/-- `_warmup_error`: the blocking error of a warmup result. -/
def warmupError (warmup : WarmupResult) : Option Message :=
  if warmup.noTradableBars then some { template := "No tradable bars after warmup" }
  else if warmup.missingAfterWarmup ≠ [] then
    some
      { template := "Missing required data after warmup: %"
        args := [.text (", ".intercalate warmup.missingAfterWarmup)] }
  else none

/-- When validation succeeds, warmup leaves bars to trade, unless there was
nothing to warm up. -/
theorem warmupBars_lt_length {frame : Frame ι} {requiredColumns : List String}
    (h : warmupError (validateRequiredData frame requiredColumns) = none) :
    (validateRequiredData frame requiredColumns).warmupBars = 0 ∨
      (validateRequiredData frame requiredColumns).warmupBars < frame.rows.length := by
  unfold warmupError at h
  split at h
  · cases h
  · rename_i htradable
    unfold validateRequiredData at htradable ⊢
    split
    · exact .inl rfl
    · rename_i hrows
      rw [if_neg hrows] at htradable
      simp only at htradable ⊢
      split
      · exact .inl rfl
      · rename_i hknown
        rw [if_neg hknown] at htradable
        right
        unfold validatePresent at htradable ⊢
        split at htradable
        · exact absurd rfl htradable
        · simp only [decide_eq_true_eq, not_le] at htradable
          exact htradable

end Finbar.Backtest
