/-
Finbar.Optimization.FoldIndices — `walk_forward_fold_helpers.py`: the train and
test ranges of the walk-forward folds (`compute_fold_indices`) and the
aggregation of their results (`aggregate_folds`), with the entities
`WalkForwardFold` and `WalkForwardResult`.

No `sorry`, no `axiom`.
-/
import Finbar.Backtest.Metrics
import Finbar.Lib.PyValue
import Finbar.Lib.Window

namespace Finbar.Optimization

open Lib Lib.Python Finbar.Backtest

/-! ## §1 Fold indices -/

/-- One dictionary of `compute_fold_indices`. -/
structure FoldIndices where
  trainStart : ℤ
  trainEnd : ℤ
  testStart : ℤ
  testEnd : ℤ
  trainCount : ℤ
  testCount : ℤ
  minTest : ℤ
  deriving DecidableEq

/-- The positions of the training bars. -/
def FoldIndices.trainWindow (fold : FoldIndices) : Window :=
  { start := fold.trainStart, stop := fold.trainEnd }

/-- The positions of the test bars. -/
def FoldIndices.testWindow (fold : FoldIndices) : Window :=
  { start := fold.testStart, stop := fold.testEnd }

/-- Fold `i` in anchored mode: the training window expands from the start. -/
def anchoredFold (totalBars foldSize : ℤ) (i : ℕ) : FoldIndices :=
  let trainEnd := (i + 1) * foldSize
  let testEnd := min (trainEnd + foldSize) totalBars
  { trainStart := 0
    trainEnd := trainEnd
    testStart := trainEnd
    testEnd := testEnd
    trainCount := trainEnd
    testCount := max 0 (testEnd - trainEnd)
    minTest := 1 }

/-- Fold `i` in rolling mode: the window slides by half a fold. The source truncates the double
`fold_size * train_ratio`, which can be one bar less than the exact product (`int(90 * 0.7)`
is 62). -/
def rollingFold (totalBars foldSize : ℤ) (trainRatio : ℚ) (i : ℕ) : FoldIndices :=
  let trainStart := i * (foldSize / 2)
  let trainEnd := trainStart + truncate (foldSize * trainRatio)
  let testStart := trainEnd
  let testEnd := min (testStart + foldSize) totalBars
  { trainStart := trainStart
    trainEnd := trainEnd
    testStart := testStart
    testEnd := testEnd
    trainCount := trainEnd - trainStart
    testCount := max 0 (testEnd - testStart)
    minTest := 1 }

/-- The extra fold behind the last rolling one. It tests from where that one
tests. -/
def tailFold (totalBars foldSize : ℤ) (last : FoldIndices) : FoldIndices :=
  let lastTestEnd := min totalBars (last.testEnd + foldSize)
  let lastTrainStart := max 0 (last.testStart - foldSize)
  { trainStart := lastTrainStart
    trainEnd := last.testStart
    testStart := last.testStart
    testEnd := lastTestEnd
    trainCount := last.testStart - lastTrainStart
    testCount := lastTestEnd - last.testStart
    minTest := 1 }

/-- The rolling folds with the extra fold that takes what they leave. -/
def withTail (totalBars foldSize : ℤ) (indices : List FoldIndices) : List FoldIndices :=
  match indices.getLast? with
  | some last =>
      if last.testEnd < totalBars then indices ++ [tailFold totalBars foldSize last]
      else indices
  | none => indices

/-- `compute_fold_indices`. -/
def computeFoldIndices (totalBars folds : ℤ) (trainRatio : ℚ) (anchor : String) :
    List FoldIndices :=
  if totalBars < 3 ∨ folds < 2 then []
  else
    let foldSize := totalBars / folds
    if anchor = "anchored" then
      (List.range folds.toNat).map (anchoredFold totalBars foldSize)
    else
      withTail totalBars foldSize
        ((List.range (folds - 1).toNat).map (rollingFold totalBars foldSize trainRatio))

/-! ## §2 Fold results -/

/-- `WalkForwardFold`: the result of one train/test split. -/
structure WalkForwardFold where
  foldIndex : ℕ
  trainStart : String := ""
  trainEnd : String := ""
  testStart : String := ""
  testEnd : String := ""
  trainBars : ℤ := 0
  testBars : ℤ := 0
  bestParams : Kwargs := []
  isSharpe : ℚ := 0
  isTotalReturn : ℚ := 0
  oosSharpe : ℚ := 0
  oosTotalReturn : ℚ := 0
  oosMaxDrawdown : ℚ := 0
  oosWinRate : ℚ := 0
  oosTrades : ℕ := 0
  paramSensitivity : List (String × PyFloat) := []
  error : Option Message := none
  skipped : Bool := false

/-- `not f.skipped and not f.error`. -/
def WalkForwardFold.completed (fold : WalkForwardFold) : Bool :=
  !fold.skipped && fold.error.isNone

/-- `WalkForwardResult`. -/
structure WalkForwardResult where
  foldsRequested : ℕ
  foldsCompleted : ℕ
  folds : List WalkForwardFold
  oosTotalReturn : ℚ := 0
  oosSharpe : ℚ := 0
  oosMaxDrawdown : ℚ := 0
  oosWinRate : ℚ := 0
  oosTotalTrades : ℕ := 0
  isOosCorrelation : ℚ := 0
  stability : ℚ := 0
  avgRankCorrelation : ℚ := 0
  error : Option Message := none

/-! ## §3 Aggregation -/

/-- `pearson`. -/
def pearson (fm : FloatMath) (xs ys : List ℚ) : ℚ :=
  let n := min xs.length ys.length
  if n < 2 then 0
  else
    let xs := xs.take n
    let ys := ys.take n
    let mx := xs.sum / n
    let my := ys.sum / n
    let cov := (List.zipWith (fun x y => (x - mx) * (y - my)) xs ys).sum
    let vx := (xs.map fun x => (x - mx) ^ 2).sum
    let vy := (ys.map fun y => (y - my) ^ 2).sum
    if vx = 0 ∨ vy = 0 then 0 else cov / fm.pow (vx * vy) (1 / 2)

/-- The two diagnostics over the best parameters and their sensitivities,
`_compute_stability` and `_compute_rank_correlation`; nothing proved here
depends on their values. -/
structure FoldDiagnostics where
  stability : List WalkForwardFold → ℚ
  rankCorrelation : List WalkForwardFold → ℚ

/-- The returns of the folds, compounded. -/
def compoundReturn (returns : List ℚ) : ℚ :=
  returns.foldl (fun total r => total * (1 + r)) 1 - 1

/-- `aggregate_folds`. -/
def aggregateFolds (fm : FloatMath) (diagnostics : FoldDiagnostics)
    (folds : List WalkForwardFold) : WalkForwardResult :=
  let completed := folds.filter WalkForwardFold.completed
  if completed.isEmpty then
    { foldsRequested := folds.length
      foldsCompleted := 0
      folds := folds
      error := some { template := "No folds completed successfully" } }
  else
    let n : ℚ := completed.length
    let isSharpes := completed.map WalkForwardFold.isSharpe
    let oosSharpes := completed.map WalkForwardFold.oosSharpe
    { foldsRequested := folds.length
      foldsCompleted := completed.length
      folds := folds
      oosTotalReturn := compoundReturn (completed.map WalkForwardFold.oosTotalReturn)
      oosSharpe := oosSharpes.sum / n
      oosMaxDrawdown := (completed.map WalkForwardFold.oosMaxDrawdown).sum / n
      oosWinRate := (completed.map WalkForwardFold.oosWinRate).sum / n
      oosTotalTrades := (completed.map WalkForwardFold.oosTrades).sum
      isOosCorrelation := if 2 ≤ completed.length then pearson fm isSharpes oosSharpes else 0
      stability := diagnostics.stability completed
      avgRankCorrelation := diagnostics.rankCorrelation completed }

end Finbar.Optimization
