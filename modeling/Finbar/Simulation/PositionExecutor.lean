/-
Finbar.Simulation.PositionExecutor — `IntrabarExitResolver` and
`PositionExecutor`: the facade the bar loop calls to enter, exit, check
stops and targets, apply funding and synchronise the margin account.

No `sorry`, no `axiom`.
-/
import Finbar.Simulation.PositionOpener
import Finbar.Simulation.PositionSizer

namespace Finbar.Simulation

open Lib.Python

/-! ## §1 IntrabarExitResolver -/

namespace IntrabarExitResolver

/-- `_resolve_long`: gaps first (open already beyond a level), then intrabar
price action; the stop before the target. -/
def resolveLong (openPrice high low stop target : ℚ) : Option (ℚ × ExitReason) :=
  if 0 < stop ∧ openPrice ≤ stop then some (openPrice, .stopLossGap)
  else if 0 < target ∧ target ≤ openPrice then some (openPrice, .takeProfitGap)
  else if 0 < stop ∧ low ≤ stop then some (stop, .stopLoss)
  else if 0 < target ∧ target ≤ high then some (target, .takeProfit)
  else none

/-- `_resolve_short`. -/
def resolveShort (openPrice high low stop target : ℚ) : Option (ℚ × ExitReason) :=
  if 0 < stop ∧ stop ≤ openPrice then some (openPrice, .stopLossGap)
  else if 0 < target ∧ openPrice ≤ target then some (openPrice, .takeProfitGap)
  else if 0 < stop ∧ stop ≤ high then some (stop, .stopLoss)
  else if 0 < target ∧ low ≤ target then some (target, .takeProfit)
  else none

/-- `IntrabarExitResolver.resolve`: the exit price and reason, if the bar
triggers an exit. -/
def resolve (position : SimulatedPosition) (openPrice high low : ℚ) :
    Option (ℚ × ExitReason) :=
  if 0 < position.size then
    resolveLong openPrice high low position.stopPrice position.targetPrice
  else if position.size < 0 then
    resolveShort openPrice high low position.stopPrice position.targetPrice
  else none

end IntrabarExitResolver

/-! ## §2 PositionExecutor -/

/-- `PositionExecutor`: the execution settings of a run, and the calendar
function its borrow cost depends on. -/
structure PositionExecutor where
  config : ExecutionConfig
  fromisoformat : String → Option DateTime

/-- `_scale_price`: scale a risk price from signal close to entry fill; a
disabled price stays as it is. -/
def scalePrice (oldPrice signalClose fillPrice ratio : ℚ) : ℚ :=
  if oldPrice ≤ 0 then oldPrice
  else fillPrice + (oldPrice - signalClose) * ratio

/-- `_portfolio_value`. -/
def portfolioValue (state : SimulationState) (close : ℚ) : ℚ :=
  if 0 < state.position.size then state.cash + state.position.size * close
  else if state.position.size < 0 then state.cash - |state.position.size| * close
  else state.cash

namespace PositionExecutor

variable (executor : PositionExecutor)

/-- `setup_full_margin`: the books a run starts from. -/
def setupFullMargin (initialCash : ℚ) : Books :=
  { state := .init initialCash
    margin :=
      match executor.config.marginMode with
      | .full => some { cash := initialCash }
      | .simplified => none }

/-- `sync_margin_equity`: set the state's cash to the margin account's
equity; no-op in simplified mode. -/
def syncMarginEquity (books : Books) : Books :=
  match books.margin with
  | none => books
  | some account => { books with state := { books.state with cash := account.equity } }

/-- `apply_funding`: per-bar funding of the open position, added to
`total_funding`, and cash synchronised at once; no-op in simplified mode. -/
def applyFunding (books : Books) : Books :=
  match books.margin with
  | none => books
  | some account =>
      let (account, payment) :=
        MarginAccountManager.applyFunding executor.config account books.state.position
      let state :=
        if payment ≠ 0 then
          { books.state with totalFunding := books.state.totalFunding + payment }
        else books.state
      syncMarginEquity { books with state := state, margin := some account }

/-- `exit_position`: close the current position and record the trade. -/
def exitPosition (books : Books) (exitPrice : ℚ) (barDate : String)
    (exitReason : ExitReason) : Books :=
  PositionCloser.close executor.config executor.fromisoformat books exitPrice barDate
    exitReason

/-- `check_margin_call`: liquidate at `close`, with an empty date, when the
margin account says so; no-op in simplified mode. -/
def checkMarginCall (books : Books) (close : ℚ) : Books :=
  match books.margin with
  | none => books
  | some _ =>
      if MarginAccountManager.checkMarginCall executor.config books.state.position close
      then executor.exitPosition books close "" .marginCall
      else books

/-- `_rebase_risk_prices`: rebase stop and target from the signal close to
the entry fill when configured. -/
def rebaseRiskPrices (entry : PendingEntry) (fillPrice : ℚ) : PendingEntry :=
  match executor.config.riskPriceBasis with
  | .signalClose => entry
  | .entryFill =>
      if entry.signalClose ≤ 0 then entry
      else
        let ratio := fillPrice / entry.signalClose
        { entry with
          stopPrice := scalePrice entry.stopPrice entry.signalClose fillPrice ratio
          targetPrice := scalePrice entry.targetPrice entry.signalClose fillPrice ratio }

/-- The fill of an entry at a raw price: its entry slippage applied. -/
def entryFill (entry : PendingEntry) (price : ℚ) : ℚ :=
  applySlippage price (some entry.direction) .entry executor.config.slippagePct

/-- `enter`: enter a new position from a pending entry signal. -/
def enter (books : Books) (entry : PendingEntry) (price : ℚ) (date : String) :
    Except PyError Books :=
  let fillPrice := executor.entryFill entry price
  let entry := executor.rebaseRiskPrices entry fillPrice
  if PositionOpener.stopValid executor.config entry fillPrice = false then .ok books
  else
    let portfolio := portfolioValue books.state fillPrice
    let (state, size) :=
      PositionSizer.resolve executor.config books.state entry fillPrice portfolio date
    if hsize : size ≤ 0 then
      .ok { books with
        state := state.addDiagnostic "order_rejected" "entry_size_zero"
          { template := "Entry skipped because resolved position size was zero." } date }
    else
      PositionOpener.open executor.config { books with state := state } entry size
        (not_le.mp hsize) price fillPrice date

/-- The exit that a bar forces on the open position: liquidation first, then
the intrabar resolver. -/
def forcedExit (position : SimulatedPosition) (openPrice high low : ℚ) :
    Option (ℚ × ExitReason) :=
  match PositionCloser.checkLiquidation executor.config position high low with
  | some liq => some (liq, .liquidation)
  | none => IntrabarExitResolver.resolve position openPrice high low

/-- `check_exit_conditions`: count the bar, then take the exit it forces. -/
def checkExitConditions (books : Books) (openPrice high low : ℚ) (barDate : String) :
    Books :=
  let books :=
    { books with
      state := { books.state with position := books.state.position.hold } }
  match executor.forcedExit books.state.position openPrice high low with
  | none => books
  | some (exitPrice, reason) => executor.exitPosition books exitPrice barDate reason

/-- `liquidate_open`: close any open position at the final bar close and
rewrite the last point of the equity curve. -/
def liquidateOpen (books : Books) (finalClose : ℚ) (finalDate : String) : Books :=
  if books.state.position.size = 0 then books
  else
    let books := executor.exitPosition books finalClose finalDate .endOfBacktest
    match books.state.equityCurve.getLast? with
    | none => books
    | some last =>
        let value := portfolioValue books.state finalClose
        let peak :=
          if books.state.peakValue < value then value else books.state.peakValue
        let drawdown := if 0 < peak then (peak - value) / peak else 0
        { books with
          state :=
            { books.state with
              peakValue := peak
              equityCurve := books.state.equityCurve.dropLast ++
                [{ last with value := value, position := 0, drawdown := drawdown }] } }

end PositionExecutor

end Finbar.Simulation
