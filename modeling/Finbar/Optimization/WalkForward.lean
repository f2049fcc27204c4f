/-
Finbar.Optimization.WalkForward — `WalkForwardOptimizer`: the grid search of a
training window (`_run_grid_search`), one fold (`_run_fold`, `_run_oos`) and
the loop over the folds of `_sync_run`.

The bars of a fold reach the parser's and the engine's surroundings through
`WalkForwardDeps.deps`; the parameter combinations are those the search method
drew from the ranges.

No `sorry`, no `axiom`.
-/
import Finbar.Optimization.FoldIndices
import Finbar.Optimization.GridSearch

namespace Finbar.Optimization

open Lib Lib.Python Finbar.Backtest

/-! ## §1 Configuration and surroundings -/

/-- `WalkForwardConfig`. -/
structure WalkForwardConfig where
  folds : ℤ := 5
  trainRatio : ℚ := 7 / 10
  anchor : String := "rolling"
  minTrainBars : ℤ := 20
  minTestBars : ℤ := 5

/-- A bar as the job's artifact stores it. -/
abbrev Bar := Kwargs

/-- What the walk-forward optimizer calls: the surroundings of a backtest on
given bars, and `compute_sensitivity`. -/
structure WalkForwardDeps (D δ ι σ : Type) where
  deps : List Bar → OptimizerDeps D δ ι σ
  computeSensitivity : List OptimizationResult → String → List (String × PyFloat)

/-- `_bar_timestamp`: the first display timestamp a bar carries. -/
def barTimestamp (bar : Bar) : String :=
  let value := ["timestamp", "date", "time"].findSome? fun key =>
    let value := bar.pop key (.str "")
    if value.truthy then some value.toStr else none
  value.getD ""

variable {D δ ι σ : Type} [LinearOrder ι]

/-! ## §2 Grid search on the training window -/

/-- The best result of a grid search and the sensitivities of its parameters. -/
structure GridOutcome where
  best : Option OptimizationResult
  sensitivity : List (String × PyFloat) := []

/-- The backtests of the grid search, one for each combination. -/
def WalkForwardOptimizer.gridResults (env : WalkForwardDeps D δ ι σ) (definition : D)
    (combinations : List Kwargs) (bars : List Bar) (metadata : Kwargs)
    (trainFrame : Option (Frame ι)) : List OptimizationResult :=
  combinations.map fun params =>
    WalkForwardOptimizer.backtestWithBars (env.deps bars) definition params metadata trainFrame

/-- `_run_grid_search`. -/
def WalkForwardOptimizer.runGridSearch (env : WalkForwardDeps D δ ι σ) (definition : D)
    (combinations : List Kwargs) (bars : List Bar) (metric : String) (metadata : Kwargs)
    (trainFrame : Option (Frame ι)) : GridOutcome :=
  if 100 < combinations.length then
    { best := some (failedResult [] { template := "Too many combinations" }) }
  else if bars.isEmpty then
    { best := some (failedResult [] { template := "No training bars" }) }
  else
    let results := sortResults (resolveMetric metric)
      (WalkForwardOptimizer.gridResults env definition combinations bars metadata trainFrame)
    match results with
    | [] => { best := none }
    | best :: _ => { best := some best, sensitivity := env.computeSensitivity results metric }

/-! ## §3 One fold -/

/-- `_run_oos`: the backtest of the best parameters on the test window. -/
def WalkForwardOptimizer.runOos (deps : OptimizerDeps D δ ι σ) (definition : D)
    (params metadata : Kwargs) (testFrame : Option (Frame ι)) :
    Except PyError OptimizationResult := do
  match ← deps.parse definition params with
  | none =>
      return failedResult params { template := "Strategy validation failed with best params" }
  | some parsed =>
      let selected ← walkForwardSelectFrame deps parsed testFrame
      let frame ← applyFeatures deps parsed selected
      let missing := missingFrameColumns frame parsed.requiredColumns
      if missing ≠ [] then
        return failedResult params
          { template := "OOS missing columns: %", args := [.text (", ".intercalate missing)] }
      else
        let warmup := validateRequiredData frame parsed.requiredColumns
        match warmupError warmup with
        | some message => return failedResult params message
        | none =>
            let call ← optimizerCall walkForwardInitialCash deps parsed frame warmup metadata
            let raw ← call.run deps.runner
            return metricsFromRaw params raw

/-- The grid search and the test of a fold, without the handler around
them; `fold` holds the ranges of the fold, and drawing the combinations may
raise. -/
def WalkForwardOptimizer.searchAndTest (env : WalkForwardDeps D δ ι σ) (definition : D)
    (drawn : Except PyError (List Kwargs)) (trainBars testBars : List Bar) (metric : String)
    (metadata : Kwargs) (trainFrame testFrame : Frame ι) (fold : WalkForwardFold) :
    Except PyError WalkForwardFold := do
  let combinations ← drawn
  let outcome := WalkForwardOptimizer.runGridSearch env definition combinations trainBars metric
    metadata (some trainFrame)
  match outcome.best with
  | none => return { fold with error := some { template := "Grid search returned no results" } }
  | some best =>
      match best.error with
      | some message => return { fold with error := some message }
      | none =>
          let fold := { fold with
            bestParams := best.params
            isSharpe := best.sharpeRatio
            isTotalReturn := best.totalReturn }
          let oos ← WalkForwardOptimizer.runOos (env.deps testBars) definition best.params metadata
            (some testFrame)
          match oos.error with
          | some message =>
              return { fold with error := some (message.after "OOS backtest failed: ") }
          | none =>
              return { fold with
                oosSharpe := oos.sharpeRatio
                oosTotalReturn := oos.totalReturn
                oosMaxDrawdown := oos.maxDrawdown
                oosWinRate := oos.winRate
                oosTrades := oos.totalTrades
                paramSensitivity := outcome.sensitivity }

/-- `try: … except Exception as exc: …` around the work of a fold. -/
def guardedFold (fold : WalkForwardFold) : Except PyError WalkForwardFold → WalkForwardFold
  | .ok result => result
  | .error e => { fold with error := some e.message }

/-- `_run_fold`. -/
def WalkForwardOptimizer.runFold (env : WalkForwardDeps D δ ι σ) (definition : D)
    (drawn : Except PyError (List Kwargs)) (metric : String) (metadata : Kwargs) (foldIndex : ℕ)
    (trainBars testBars : List Bar) : WalkForwardFold :=
  match trainBars.head?, trainBars.getLast?, testBars.head?, testBars.getLast? with
  | some firstTrain, some lastTrain, some firstTest, some lastTest =>
      let fold : WalkForwardFold :=
        { foldIndex := foldIndex
          trainStart := barTimestamp firstTrain
          trainEnd := barTimestamp lastTrain
          testStart := barTimestamp firstTest
          testEnd := barTimestamp lastTest
          trainBars := trainBars.length
          testBars := testBars.length }
      guardedFold fold do
        let trainFrame ← (env.deps trainBars).barsToFrame
        let testFrame ← (env.deps testBars).barsToFrame
        WalkForwardOptimizer.searchAndTest env definition drawn trainBars testBars metric metadata
          trainFrame testFrame fold
  | _, _, _, _ => { foldIndex := foldIndex, skipped := true }

/-! ## §4 The loop over the folds -/

/-- The fold has enough bars to be run. The minimum it carries comes before
`min_test_bars`. -/
def FoldIndices.enoughBars (config : WalkForwardConfig) (fold : FoldIndices) : Bool :=
  decide (config.minTrainBars ≤ fold.trainCount ∧ fold.minTest ≤ fold.testCount)

/-- One pass of the loop; `runFold` is `_run_fold` of this job. -/
def foldResult (runFold : ℕ → List Bar → List Bar → WalkForwardFold)
    (config : WalkForwardConfig) (bars : List Bar) (idx : ℕ) (fold : FoldIndices) :
    WalkForwardFold :=
  if fold.enoughBars config then
    runFold idx (Window.pySlice bars fold.trainStart fold.trainEnd)
      (Window.pySlice bars fold.testStart fold.testEnd)
  else
    { foldIndex := idx, trainBars := fold.trainCount, testBars := fold.testCount, skipped := true }

/-- The results of the folds, in order. -/
def foldResults (runFold : ℕ → List Bar → List Bar → WalkForwardFold)
    (config : WalkForwardConfig) (bars : List Bar) (indices : List FoldIndices) :
    List WalkForwardFold :=
  indices.mapIdx (foldResult runFold config bars)

/-- The folds of a job over `bars`. -/
def jobFolds (config : WalkForwardConfig) (bars : List Bar) : List FoldIndices :=
  computeFoldIndices bars.length config.folds config.trainRatio config.anchor

/-- The walk-forward result of `_sync_run`, or the error it fails with when no
fold has a test bar. -/
def walkForwardResult (fm : FloatMath) (diagnostics : FoldDiagnostics)
    (runFold : ℕ → List Bar → List Bar → WalkForwardFold) (config : WalkForwardConfig)
    (bars : List Bar) : Except Message WalkForwardResult :=
  let indices := jobFolds config bars
  if (indices.filter fun fold => decide (0 < fold.testCount)).isEmpty then
    .error { template := "Not enough bars for walk-forward: need at least 2 folds" }
  else .ok (aggregateFolds fm diagnostics (foldResults runFold config bars indices))

end Finbar.Optimization
