/-
Finbar.Backtest.Engine — `BacktestRunner.run`: reading the engine parameters,
running the loop and building the result; and the keyword arguments with
which `BacktestStrategyDefinitionUseCase` calls it.

No `sorry`, no `axiom`.
-/
import Finbar.Backtest.Runner
import Finbar.Backtest.Metrics
import Finbar.Backtest.RequiredData

namespace Finbar.Backtest

open Lib.Python Finbar.Simulation

/-! ## §1 Engine parameters -/

/-- `_bool_param`: parse bool-like params from JSON/MCP payloads. -/
def boolParam : PyValue → Bool
  | .bool b => b
  | .str s =>
      let word := String.ofList ((strip s.toList).map Char.toLower)
      ["1", "true", "yes", "on"].contains word
  | value => value.truthy

/-- `float(params.pop(name, default) or default)` for a finite default. An
infinite or NaN setting has no place in exact arithmetic. -/
def floatParam (params : Kwargs) (name : String) (default : ℚ) : Except PyError ℚ := do
  let value ← ((params.pop name (.ofRat default)).orElse (.ofRat default)).toFloat
  match value with
  | .fin q => return q
  | _ => throw (.valueError { template := "% is not finite", args := [.text name] })

/-- `str(params.pop(name, default) or fallback)`. -/
def strParam (params : Kwargs) (name default fallback : String) : String :=
  ((params.pop name (.str default)).orElse (.str fallback)).toStr

/-- `_execution_config_from_params`. The numbers are read first; the
enumerations are checked in the order of `__post_init__`. -/
def executionConfigFromParams (params : Kwargs) (commissionPct slippagePct : ℚ) :
    Except PyError ExecutionConfig := do
  let leverage ← floatParam params "leverage" 1
  let borrowFee ← floatParam params "borrow_fee_annual_pct" 0
  let maintenance ← floatParam params "maintenance_margin_pct" (5 / 1000)
  let funding ← floatParam params "funding_rate" (1 / 10000)
  let riskMode ← StrEnum.parse "ExecutionConfig" "risk_mode"
    (strParam params "risk_mode" "fixed_equity_risk" "fixed_equity_risk")
  let marginMode ← StrEnum.parse "ExecutionConfig" "margin_mode"
    (strParam params "margin_mode" "simplified" "simplified")
  let riskPriceBasis ← StrEnum.parse "ExecutionConfig" "risk_price_basis"
    (strParam params "risk_price_basis" "signal_close" "signal_close")
  let borrowTimeBasis ← StrEnum.parse "ExecutionConfig" "borrow_time_basis"
    (strParam params "borrow_time_basis" "calendar_day" "calendar_day")
  let marketCalendar ← StrEnum.parse "ExecutionConfig" "market_calendar"
    (strParam params "market_calendar" "equity_regular_hours" "")
  return {
    commissionPct := commissionPct
    slippagePct := slippagePct
    leverageMultiplier := leverage
    riskMode := riskMode
    capExplicitSize := boolParam (params.pop "cap_explicit_size" (.bool true))
    rejectOversizedExplicitOrders :=
      boolParam (params.pop "reject_oversized_explicit_orders" (.bool false))
    allowNegativeCash := boolParam (params.pop "allow_negative_cash" (.bool false))
    marketCalendar := marketCalendar
    borrowFeeAnnualPct := borrowFee
    marginMode := marginMode
    maintenanceMarginPct := maintenance
    enableFunding := boolParam (params.pop "enable_funding" (.bool false))
    fundingRate := funding
    riskPriceBasis := riskPriceBasis
    borrowTimeBasis := borrowTimeBasis }

/-- The execution settings that `run` reads from its parameters. -/
def engineConfig (params : Kwargs) : Except PyError ExecutionConfig := do
  let commissionPct ← floatParam params "commission_pct" 0
  let slippagePct ← floatParam params "slippage_pct" 0
  executionConfigFromParams params commissionPct slippagePct

/-! ## §2 BacktestRunner.run -/

/-- The result dictionary of a run: its metric and reconciliation blocks and
the data they are computed from. -/
structure BacktestResult where
  metrics : Metrics
  reconciliation : Reconciliation
  startDate : String
  endDate : String
  barCount : ℕ
  warmupBars : ℕ
  firstTradable : String
  commissionPct : ℚ
  slippagePct : ℚ
  trades : List TradeRecord
  equityCurve : List EquityPoint
  diagnostics : List BacktestDiagnostic
  deriving DecidableEq

/-- What `run` returns: an error dictionary or a result. -/
inductive EngineOutput where
  | error (message : Message)
  | result (result : BacktestResult)
  deriving DecidableEq

/-- `BacktestResultBuilder.build`. -/
def buildResult (fm : FloatMath) (state : SimulationState) (initialCash : ℚ)
    (interval : String) (warmupBars : ℕ) (firstTradable : String)
    (config : ExecutionConfig) : BacktestResult :=
  let dates := state.equityCurve.map EquityPoint.date
  { metrics := computeMetrics fm state initialCash config interval
    reconciliation := computeReconciliation state initialCash
    startDate := dates.head?.getD ""
    endDate := dates.getLast?.getD ""
    barCount := state.equityCurve.length
    warmupBars := warmupBars
    firstTradable := firstTradable
    commissionPct := pyRound config.commissionPct 6
    slippagePct := pyRound config.slippagePct 6
    trades := state.trades.map TradeRecord.toDict
    equityCurve := state.equityCurve
    diagnostics := state.diagnostics }

/-- `BacktestRunner`: the engine, with the library functions its results
depend on. -/
structure BacktestRunner where
  floatMath : FloatMath
  fromisoformat : String → Option DateTime

variable {ι σ : Type} [LinearOrder ι]

/-- The settings of a run with given parameters. -/
def BacktestRunner.settings (runner : BacktestRunner) (strategy : TradingStrategy σ)
    (params : Kwargs) : Except PyError (RunSettings σ) := do
  let riskPerTrade ← (params.pop "risk_per_trade" (.ofRat (2 / 100))).toFloat
  let warmup ← ((params.pop "warmup_bars" (.ofRat 0)).orElse (.ofRat 0)).toInt
  let config ← engineConfig params
  match riskPerTrade with
  | .fin q =>
      return { strategy := strategy
               riskPerTrade := q
               executor := { config := config, fromisoformat := runner.fromisoformat }
               firstTradableIndex := (max 0 warmup).toNat }
  | _ => throw (.valueError { template := "% is not finite", args := [.text "risk_per_trade"] })

/-- `BacktestRunner.run`: execute a backtest from the strategy's memory after
`on_reset`. -/
def BacktestRunner.run (runner : BacktestRunner) (df : Frame ι)
    (strategy : TradingStrategy σ) (memory : σ) (initialCash : ℚ) (params : Kwargs) :
    Except PyError EngineOutput :=
  if df.rows.isEmpty ∨ df.columns.isEmpty then
    .ok (.error { template := "No bars provided" })
  else
    match validateBacktestFrame df with
    | some message => .ok (.error message)
    | none => do
        let settings ← runner.settings strategy params
        let books ← runLoop settings (strategy.onReset memory) initialCash df.bars
        return .result (buildResult runner.floatMath books.state initialCash
          (strParam params "interval" "" "") settings.firstTradableIndex
          (strParam params "first_tradable" "" "") settings.executor.config)

/-! ## §3 The call from the use case -/

/-- What `_run_backtest` uses of a `BacktestStrategyDefinitionRequest`. -/
structure BacktestRequest where
  execution : ExecutionConfig := {}
  interval : String := ""
  initialCash : ℚ := 10000
  riskPerTrade : ℚ := 2 / 100

/-- The keyword arguments `_run_backtest` passes to `engine.run`. -/
def runBacktestKwargs (request : BacktestRequest) (warmup : Option WarmupResult) : Kwargs :=
  let execution := request.execution
  [("risk_per_trade", .ofRat request.riskPerTrade),
    ("leverage", .ofRat execution.leverageMultiplier),
    ("risk_mode", .str (StrEnum.value execution.riskMode)),
    ("commission_pct", .ofRat execution.commissionPct),
    ("slippage_pct", .ofRat execution.slippagePct),
    ("cap_explicit_size", .bool execution.capExplicitSize),
    ("reject_oversized_explicit_orders", .bool execution.rejectOversizedExplicitOrders),
    ("allow_negative_cash", .bool execution.allowNegativeCash),
    ("market_calendar", .str (StrEnum.value execution.marketCalendar)),
    ("borrow_fee_annual_pct", .ofRat execution.borrowFeeAnnualPct),
    ("margin_mode", .str (StrEnum.value execution.marginMode)),
    ("maintenance_margin_pct", .ofRat execution.maintenanceMarginPct),
    ("enable_funding", .bool execution.enableFunding),
    ("funding_rate", .ofRat execution.fundingRate),
    ("interval", .str request.interval),
    ("warmup_bars", .ofRat ((warmup.map WarmupResult.warmupBars).getD 0)),
    ("first_tradable", .str ((warmup.map WarmupResult.firstTradable).getD ""))]

end Finbar.Backtest
