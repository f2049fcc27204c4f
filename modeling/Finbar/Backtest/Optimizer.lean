/-
Finbar.Backtest.Optimizer — how the optimizers backtest one parameter set:
`GridSearchOptimizer._backtest_one` and
`WalkForwardOptimizer._backtest_with_bars`.

The two bodies are one definition, `evaluate`, applied to what differs: how
the frame is chosen and how the initial cash is read. What they call outside
the engine (the strategy parser, the frame converter, the timeframe merger,
the feature calculator and the strategy factory) is `OptimizerDeps`.

No `sorry`, no `axiom`.
-/
import Finbar.Backtest.Engine

namespace Finbar.Backtest

open Lib.Python Finbar.Simulation

/-! ## §1 Results -/

/-- `OptimizationResult`: a parameter combination and its metrics. -/
structure OptimizationResult where
  rank : ℕ := 0
  params : Kwargs
  sharpeRatio : ℚ := 0
  sortinoRatio : ℚ := 0
  totalReturn : ℚ := 0
  maxDrawdown : ℚ := 0
  profitFactor : PyFloat := .fin 0
  winRate : ℚ := 0
  calmarRatio : ℚ := 0
  totalTrades : ℕ := 0
  error : Option Message := none

/-- `_metrics_from_raw`. An error dictionary has no metrics: they read as
zero, and its missing profit factor as infinity. -/
def metricsFromRaw (params : Kwargs) : EngineOutput → OptimizationResult
  | .error _ => { params := params, profitFactor := .posInf }
  | .result r =>
      { params := params
        sharpeRatio := r.metrics.sharpeRatio
        sortinoRatio := r.metrics.sortinoRatio
        totalReturn := r.metrics.totalReturn
        maxDrawdown := r.metrics.maxDrawdown
        profitFactor := .fin r.metrics.profitFactor
        winRate := r.metrics.winRate
        calmarRatio := r.metrics.calmarRatio
        totalTrades := r.metrics.totalTrades }

/-- `OptimizationResult(rank=0, params=params, error=…)`. -/
def failedResult (params : Kwargs) (message : Message) : OptimizationResult :=
  { params := params, error := some message }

/-- `try: … except Exception as exc: …` around a backtest. -/
def guarded (params : Kwargs) : Except PyError OptimizationResult → OptimizationResult
  | .ok result => result
  | .error e => failedResult params e.message

/-! ## §2 The environment -/

/-- What the optimizers use of a validation result. -/
structure ParsedStrategy (δ : Type) where
  definition : δ
  requiredColumns : List String
  hasInformative : Bool
  hasFeatures : Bool

/-- What the optimizers call: `parse` is `none` on an invalid definition. -/
structure OptimizerDeps (D δ ι σ : Type) where
  parse : D → Kwargs → Except PyError (Option (ParsedStrategy δ))
  barsToFrame : Except PyError (Frame ι)
  mergeInformative : ParsedStrategy δ → Except PyError (Frame ι)
  calculateFeatures : Option (Frame ι → δ → Except PyError (Frame ι))
  createStrategy : δ → TradingStrategy σ × σ
  runner : BacktestRunner

/-- `_execution_params`: the engine parameters in the job's metadata. -/
def executionParams (metadata : Kwargs) : Except PyError Kwargs := do
  let number (name : String) (default : ℚ) : Except PyError PyValue :=
    ((metadata.pop name (.ofRat default)).orElse (.ofRat default)).toFloat.map .num
  let flag (name : String) (default : Bool) : PyValue :=
    .bool (metadata.pop name (.bool default)).truthy
  let riskPerTrade ← number "risk_per_trade" (2 / 100)
  let leverage ← number "leverage" 1
  let commissionPct ← number "commission_pct" 0
  let slippagePct ← number "slippage_pct" 0
  let borrowFee ← number "borrow_fee_annual_pct" 0
  let maintenance ← number "maintenance_margin_pct" (5 / 1000)
  let funding ← number "funding_rate" (1 / 10000)
  return [("interval", .str (strParam metadata "interval" "" "")),
    ("risk_per_trade", riskPerTrade),
    ("leverage", leverage),
    ("risk_mode", .str (strParam metadata "risk_mode" "fixed_equity_risk"
      "fixed_equity_risk")),
    ("commission_pct", commissionPct),
    ("slippage_pct", slippagePct),
    ("cap_explicit_size", flag "cap_explicit_size" true),
    ("reject_oversized_explicit_orders", flag "reject_oversized_explicit_orders" false),
    ("allow_negative_cash", flag "allow_negative_cash" false),
    ("market_calendar", .str (strParam metadata "market_calendar" "equity_regular_hours"
      "")),
    ("borrow_fee_annual_pct", borrowFee),
    ("margin_mode", .str (strParam metadata "margin_mode" "simplified" "simplified")),
    ("maintenance_margin_pct", maintenance),
    ("enable_funding", flag "enable_funding" false),
    ("funding_rate", funding)]

/-- `metadata.get("initial_cash", 10000)`, which the engine takes as a
number. -/
def gridInitialCash (metadata : Kwargs) : Except PyError ℚ := do
  match ← (metadata.pop "initial_cash" (.ofRat 10000)).toFloat with
  | .fin q => return q
  | _ => throw (.valueError { template := "% is not finite", args := [.text "initial_cash"] })

/-- `float(metadata.get("initial_cash", 10000) or 10000)`. -/
def walkForwardInitialCash (metadata : Kwargs) : Except PyError ℚ :=
  floatParam metadata "initial_cash" 10000

/-- `_missing_frame_columns`. -/
def missingFrameColumns {ι : Type} (frame : Frame ι) (required : List String) :
    List String :=
  required.filter fun column => !frame.columns.contains column

/-! ## §3 One parameter set -/

variable {D δ ι σ : Type}

/-- The arguments of a call to `engine.run`. -/
structure EngineCall (ι σ : Type) where
  df : Frame ι
  strategy : TradingStrategy σ
  memory : σ
  initialCash : ℚ
  warmupBars : ℕ
  params : Kwargs

/-- The call itself. -/
def EngineCall.run [LinearOrder ι] (call : EngineCall ι σ) (runner : BacktestRunner) :
    Except PyError EngineOutput :=
  runner.run call.df call.strategy call.memory call.initialCash
    (("warmup_bars", .ofRat call.warmupBars) :: call.params)

/-- The frame the optimizers hand to the engine: the warmup rows sliced
off. -/
def executableFrame (frame : Frame ι) (warmup : WarmupResult) : Frame ι :=
  if 0 < warmup.warmupBars then frame.drop warmup.warmupBars else frame

/-- The engine call of the optimizers on a prepared frame. -/
def optimizerCall (initialCash : Kwargs → Except PyError ℚ)
    (deps : OptimizerDeps D δ ι σ) (parsed : ParsedStrategy δ) (frame : Frame ι)
    (warmup : WarmupResult) (metadata : Kwargs) : Except PyError (EngineCall ι σ) := do
  let cash ← initialCash metadata
  let params ← executionParams metadata
  return {
    df := executableFrame frame warmup
    strategy := (deps.createStrategy parsed.definition).1
    memory := (deps.createStrategy parsed.definition).2
    initialCash := cash
    warmupBars := warmup.warmupBars
    params := ("first_tradable", .str warmup.firstTradable) :: params }

/-- The frame with the strategy's features computed. -/
def applyFeatures (deps : OptimizerDeps D δ ι σ) (parsed : ParsedStrategy δ)
    (frame : Frame ι) : Except PyError (Frame ι) :=
  match deps.calculateFeatures with
  | some calculate => if parsed.hasFeatures then calculate frame parsed.definition else .ok frame
  | none => .ok frame

/-- The shared body of the optimizers' backtest of one parameter set;
`selectFrame` and `initialCash` are what differs. -/
def evaluate [LinearOrder ι]
    (selectFrame : OptimizerDeps D δ ι σ → ParsedStrategy δ → Option (Frame ι) →
      Except PyError (Frame ι))
    (initialCash : Kwargs → Except PyError ℚ) (deps : OptimizerDeps D δ ι σ)
    (definition : D) (params metadata : Kwargs) (baseFrame : Option (Frame ι)) :
    OptimizationResult :=
  guarded params do
    match ← deps.parse definition params with
    | none =>
        return failedResult params
          { template := "Strategy validation failed with these params" }
    | some parsed =>
        let selected ← selectFrame deps parsed baseFrame
        let frame ← applyFeatures deps parsed selected
        let missing := missingFrameColumns frame parsed.requiredColumns
        if missing ≠ [] then
          return failedResult params
            { template := "Missing columns: %", args := [.text (", ".intercalate missing)] }
        else
          let warmup := validateRequiredData frame parsed.requiredColumns
          match warmupError warmup with
          | some message => return failedResult params message
          | none =>
              let call ← optimizerCall initialCash deps parsed frame warmup metadata
              let raw ← call.run deps.runner
              return metricsFromRaw params raw

/-- The frame of `_backtest_one`: the shared base frame if there is one. -/
def gridSelectFrame (deps : OptimizerDeps D δ ι σ) (parsed : ParsedStrategy δ) :
    Option (Frame ι) → Except PyError (Frame ι)
  | some frame => .ok frame
  | none => if parsed.hasInformative then deps.mergeInformative parsed else deps.barsToFrame

/-- The frame of `_backtest_with_bars`: the base frame only without
informative timeframes. -/
def walkForwardSelectFrame (deps : OptimizerDeps D δ ι σ) (parsed : ParsedStrategy δ)
    (baseFrame : Option (Frame ι)) : Except PyError (Frame ι) :=
  match baseFrame, parsed.hasInformative with
  | some frame, false => .ok frame
  | _, true => deps.mergeInformative parsed
  | none, false => deps.barsToFrame

/-- `GridSearchOptimizer._backtest_one`. -/
def GridSearchOptimizer.backtestOne [LinearOrder ι] (deps : OptimizerDeps D δ ι σ)
    (definition : D) (params metadata : Kwargs) (baseFrame : Option (Frame ι)) :
    OptimizationResult :=
  evaluate gridSelectFrame gridInitialCash deps definition params metadata baseFrame

/-- `WalkForwardOptimizer._backtest_with_bars`. -/
def WalkForwardOptimizer.backtestWithBars [LinearOrder ι] (deps : OptimizerDeps D δ ι σ)
    (definition : D) (params metadata : Kwargs) (baseFrame : Option (Frame ι)) :
    OptimizationResult :=
  evaluate walkForwardSelectFrame walkForwardInitialCash deps definition params metadata
    baseFrame

end Finbar.Backtest
