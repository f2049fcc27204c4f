/-
Finbar.Backtest.Metrics — `backtest_metrics.py`, `annualization.py` and the
metric and reconciliation blocks of `BacktestResultBuilder`.

Square root and real powers are not rational; the functions that need them
take them as `FloatMath`, whatever `math.sqrt` and `**` return.

No `sorry`, no `axiom`.
-/
import Finbar.Simulation.State
import Mathlib.Algebra.BigOperators.Group.List.Basic

namespace Finbar.Backtest

open Lib.Python Finbar.Simulation

/-! ## §1 Performance ratios -/

/-- `math.sqrt` and `base ** exponent`. -/
structure FloatMath where
  sqrt : ℚ → ℚ
  pow : ℚ → ℚ → ℚ

/-- `calculate_sharpe`, at the default risk-free rate of zero. -/
def calculateSharpe (fm : FloatMath) (returns : List ℚ) (annualizationFactor : ℚ) : ℚ :=
  let n : ℚ := returns.length
  if returns.length < 2 then 0
  else
    let mean := returns.sum / n
    let variance := (returns.map fun r => (r - mean) ^ 2).sum / (n - 1)
    let std := if 0 < variance then fm.sqrt variance else 0
    if std < 1 / 10 ^ 12 then 0 else mean / std * fm.sqrt annualizationFactor

/-- `calculate_sortino`, at the default risk-free rate of zero. -/
def calculateSortino (fm : FloatMath) (returns : List ℚ) (annualizationFactor : ℚ) : ℚ :=
  let n : ℚ := returns.length
  if returns.length < 2 then 0
  else
    let mean := returns.sum / n
    let downside := returns.filter fun r => decide (r < 0)
    if downside = [] then 0
    else
      let downsideVar := (downside.map fun r => r ^ 2).sum / (n - 1)
      let downsideStd := if 0 < downsideVar then fm.sqrt downsideVar else 0
      if downsideStd = 0 then 0 else mean / downsideStd * fm.sqrt annualizationFactor

/-- One value of the `calculate_max_drawdown` loop: the running peak and the
largest drawdown so far. -/
def drawdownStep (acc : ℚ × ℚ) (value : ℚ) : ℚ × ℚ :=
  let peak := if acc.1 < value then value else acc.1
  let dd := if 0 < peak then (peak - value) / peak else 0
  (peak, if acc.2 < dd then dd else acc.2)

/-- `calculate_max_drawdown`. -/
def calculateMaxDrawdown : List ℚ → ℚ
  | [] => 0
  | [_] => 0
  | v :: vs => ((v :: vs).foldl drawdownStep (v, 0)).2

/-- `calculate_profit_factor`; `none` is infinity. -/
def calculateProfitFactor (grossProfit grossLoss : ℚ) : Option ℚ :=
  if grossLoss ≤ 0 then if 0 < grossProfit then none else some 0
  else some (grossProfit / grossLoss)

/-- `calculate_calmar_ratio`. -/
def calculateCalmarRatio (annualisedReturn maxDrawdown : ℚ) : ℚ :=
  if maxDrawdown ≤ 0 then 0 else annualisedReturn / maxDrawdown

/-- `calculate_total_return`. -/
def calculateTotalReturn (initial final : ℚ) : ℚ :=
  if initial ≤ 0 then 0 else (final - initial) / initial

/-- `calculate_annualised_return`. -/
def calculateAnnualisedReturn (fm : FloatMath) (totalReturn : ℚ) (tradingDays : ℕ)
    (annualizationFactor : ℚ) : ℚ :=
  if tradingDays = 0 ∨ annualizationFactor ≤ 0 then 0
  else
    let years := tradingDays / annualizationFactor
    let base := 1 + totalReturn
    -- Equity wiped out: the geometric mean of a non-positive base is undefined.
    if base ≤ 0 then -1 else fm.pow base (1 / years) - 1

/-- `calculate_daily_returns`. -/
def calculateDailyReturns (values : List ℚ) : List ℚ :=
  List.zipWith (fun previous value => if 0 < previous then (value - previous) / previous else 0)
    values values.tail

/-! ## §2 Annualization -/

/-- `_calendar_factors`: periods per year of each known interval. -/
def calendarFactors : MarketCalendar → List (String × ℚ)
  | .crypto247 =>
      [("1d", 365), ("1w", 365 / 7), ("1h", 365 * 24), ("1m", 365 * 24 * 60),
        ("1min", 365 * 24 * 60), ("5m", 365 * 24 * 12), ("5min", 365 * 24 * 12),
        ("15m", 365 * 24 * 4), ("15min", 365 * 24 * 4), ("30m", 365 * 24 * 2),
        ("30min", 365 * 24 * 2), ("4h", 365 * 6)]
  | .equityRegularHours =>
      [("1d", 252), ("1w", 52), ("1h", 252 * (13 / 2)), ("1m", 252 * 390),
        ("1min", 252 * 390), ("5m", 252 * 78), ("5min", 252 * 78), ("15m", 252 * 26),
        ("15min", 252 * 26), ("30m", 252 * 13), ("30min", 252 * 13),
        ("4h", 252 * (13 / 8))]

/-- `annualization_factor`: periods per year, and a warning for an interval
that is not known. -/
def annualizationFactor (interval : String) (calendar : MarketCalendar) :
    ℚ × Option Message :=
  let normalized := String.ofList (strip (interval.toList.map Char.toLower))
  let factors := calendarFactors calendar
  let daily := (factors.lookup "1d").getD 0
  match factors.lookup normalized with
  | some factor => (factor, none)
  | none =>
      if normalized = "" then
        (daily, some
          { template := "No interval supplied; annualized metrics use 1d bars." })
      else
        (daily, some
          { template := "Unknown interval; annualized metrics use 1d % calendar assumption."
            args := [.text (StrEnum.value calendar)] })

/-! ## §3 The result blocks -/

/-- `final_value`: the last equity value, the initial cash without any. -/
def finalValue (state : SimulationState) (initialCash : ℚ) : ℚ :=
  ((state.equityCurve.map EquityPoint.value).getLast?).getD initialCash

/-- The metric block of the result dictionary. -/
structure Metrics where
  finalValue : ℚ
  totalReturn : ℚ
  annualizedReturn : ℚ
  annualizationFactor : ℚ
  annualizationWarning : Option Message
  totalTrades : ℕ
  winningTrades : ℕ
  losingTrades : ℕ
  winRate : ℚ
  maxDrawdown : ℚ
  sharpeRatio : ℚ
  sortinoRatio : ℚ
  profitFactor : ℚ
  calmarRatio : ℚ
  deriving DecidableEq

/-- The `pnl` entries of the stored trade dictionaries, which are rounded. -/
def tradePnls (state : SimulationState) : List ℚ :=
  state.trades.map fun trade => trade.toDict.netPnl

/-- `_compute_metrics`. An unknown interval zeroes the annualized metrics. -/
def computeMetrics (fm : FloatMath) (state : SimulationState) (initialCash : ℚ)
    (config : ExecutionConfig) (interval : String) : Metrics :=
  let equityValues := state.equityCurve.map EquityPoint.value
  let final := finalValue state initialCash
  let (annFactor, annWarning) := annualizationFactor interval config.marketCalendar
  let intervalUnknown := annWarning.isSome
  let dailyReturns := calculateDailyReturns equityValues
  let totalReturn := calculateTotalReturn initialCash final
  let maxDd := calculateMaxDrawdown equityValues
  let annualised :=
    if intervalUnknown then 0
    else calculateAnnualisedReturn fm totalReturn state.equityCurve.length annFactor
  let pnls := tradePnls state
  let winners := pnls.filter fun p => decide (0 < p)
  let losers := pnls.filter fun p => decide (p ≤ 0)
  { finalValue := pyRound final 2
    totalReturn := pyRound totalReturn 4
    annualizedReturn := pyRound annualised 4
    annualizationFactor := annFactor
    annualizationWarning := annWarning
    totalTrades := pnls.length
    winningTrades := winners.length
    losingTrades := losers.length
    winRate := pyRound (if 0 < pnls.length then winners.length / pnls.length else 0) 4
    maxDrawdown := pyRound maxDd 4
    sharpeRatio :=
      pyRound (if intervalUnknown then 0 else calculateSharpe fm dailyReturns annFactor) 4
    sortinoRatio :=
      pyRound (if intervalUnknown then 0 else calculateSortino fm dailyReturns annFactor) 4
    profitFactor :=
      match calculateProfitFactor winners.sum |losers.sum| with
      | some factor => pyRound factor 4
      | none => 9999
    calmarRatio :=
      pyRound (if intervalUnknown then 0 else calculateCalmarRatio annualised maxDd) 4 }

/-- The reconciliation block of the result dictionary. -/
structure Reconciliation where
  totalCommission : ℚ
  totalBorrowCost : ℚ
  totalFunding : ℚ
  totalSlippage : ℚ
  realizedPnl : ℚ
  cash : ℚ
  endingPositionSize : ℚ
  reconciliationError : ℚ
  deriving DecidableEq, Repr

/-- `_compute_reconciliation`. -/
def computeReconciliation (state : SimulationState) (initialCash : ℚ) : Reconciliation :=
  let realized := (tradePnls state).sum
  { totalCommission := pyRound state.totalCommission 2
    totalBorrowCost := pyRound state.totalBorrowCost 2
    totalFunding := pyRound state.totalFunding 2
    totalSlippage := pyRound state.totalSlippage 2
    realizedPnl := pyRound realized 2
    cash := pyRound state.cash 2
    endingPositionSize := state.position.size
    reconciliationError :=
      pyRound (finalValue state initialCash - initialCash - realized + state.totalFunding) 2 }

end Finbar.Backtest
