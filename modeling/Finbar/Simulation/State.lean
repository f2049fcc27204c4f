/-
Finbar.Simulation.State — the data carried through a backtest run: the open
position, pending orders, trade records, diagnostics, the simulation state
and, in full margin mode, the margin account.

An open position knows that the sign of its size agrees with its direction
(`SimulatedPosition.aligned`); a position that breaks this cannot be built.

`SimulationState.trades` holds the `TradeRecord`s themselves. The source
stores `TradeRecord.to_dict()`, which rounds; `TradeRecord.toDict` is
applied where the dictionaries are read.

No `sorry`, no `axiom`.
-/
import Finbar.Simulation.Config

namespace Finbar.Simulation

open Lib.Python

/-! ## §1 The open position -/

/-- The sign of a size agrees with a direction, `none` being the flat
position's empty string. -/
def Aligned (size : ℚ) : Option Side → Prop
  | none => size = 0
  | some .long => 0 < size
  | some .short => size < 0

instance (size : ℚ) (d : Option Side) : Decidable (Aligned size d) :=
  match d with
  | none => inferInstanceAs (Decidable (size = 0))
  | some .long => inferInstanceAs (Decidable (0 < size))
  | some .short => inferInstanceAs (Decidable (size < 0))

/-- `SimulatedPosition`: the open position, flat by default. -/
structure SimulatedPosition where
  size : ℚ := 0
  direction : Option Side := none
  entryPrice : ℚ := 0
  entryDate : String := ""
  stopPrice : ℚ := 0
  targetPrice : ℚ := 0
  liquidationPrice : ℚ := 0
  barsHeld : ℕ := 0
  entryCommission : ℚ := 0
  entrySlippage : ℚ := 0
  aligned : Aligned size direction := by exact rfl
  deriving DecidableEq

/-- `SimulatedPosition()`, and what `SimulatedPosition.reset` leaves. -/
def SimulatedPosition.flat : SimulatedPosition := {}

/-- `position.bars_held += 1`. -/
def SimulatedPosition.hold (position : SimulatedPosition) : SimulatedPosition :=
  { position with barsHeld := position.barsHeld + 1 }

/-! ## §2 Pending orders -/

/-- `PendingEntry`: a signal awaiting execution at the next bar's open. -/
structure PendingEntry where
  direction : Side
  stopPrice : ℚ := 0
  targetPrice : ℚ := 0
  /-- Explicit size requested by the strategy, `0` for a risk-based size. -/
  positionSize : ℤ := 0
  explicitSize : Bool := false
  riskPerTrade : ℚ := 2 / 100
  /-- Close of the bar that generated the signal. -/
  signalClose : ℚ := 0
  deriving DecidableEq, Repr

/-- `PendingExit`: an exit signal awaiting execution at the next open. -/
structure PendingExit where
  direction : Option Side
  confidence : ℚ
  deriving DecidableEq, Repr

/-! ## §3 Trades and diagnostics -/

/-- The reasons a position is closed for. -/
inductive ExitReason where
  | signalExitNextOpen
  | liquidation
  | marginCall
  | stopLoss
  | stopLossGap
  | takeProfit
  | takeProfitGap
  | endOfBacktest
  deriving DecidableEq, Repr

/-- `TradeRecord`: a completed round trip with its cost breakdown. -/
structure TradeRecord where
  entryDate : String
  exitDate : String
  entryPrice : ℚ
  exitPrice : ℚ
  size : ℚ
  grossPnl : ℚ
  netPnl : ℚ
  entryCommission : ℚ
  exitCommission : ℚ
  borrowCost : ℚ
  totalCommission : ℚ
  pnlPct : ℚ
  durationBars : ℕ
  direction : Option Side
  exitReason : ExitReason
  deriving DecidableEq, Repr

/-- `TradeRecord.to_dict`: the record as the result stores it, rounded.
Its `pnl` entry is the `net_pnl` entry. -/
def TradeRecord.toDict (trade : TradeRecord) : TradeRecord :=
  { trade with
    entryPrice := pyRound trade.entryPrice 8
    exitPrice := pyRound trade.exitPrice 8
    netPnl := pyRound trade.netPnl 2
    grossPnl := pyRound trade.grossPnl 2
    entryCommission := pyRound trade.entryCommission 2
    exitCommission := pyRound trade.exitCommission 2
    borrowCost := pyRound trade.borrowCost 2
    totalCommission := pyRound trade.totalCommission 2
    pnlPct := pyRound trade.pnlPct 4 }

/-- `BacktestDiagnostic`. -/
structure BacktestDiagnostic where
  severity : String
  code : String
  message : Message
  date : String := ""
  metadata : List (String × ℚ) := []
  deriving DecidableEq

/-- One point of the equity curve. -/
structure EquityPoint where
  date : String
  close : ℚ
  value : ℚ
  drawdown : ℚ
  position : ℚ
  deriving DecidableEq, Repr

/-! ## §4 SimulationState -/

/-- `SimulationState`: mutable state carried through the bar loop. -/
structure SimulationState where
  initialCash : ℚ
  cash : ℚ
  position : SimulatedPosition := .flat
  trades : List TradeRecord := []
  equityCurve : List EquityPoint := []
  pendingEntry : Option PendingEntry := none
  pendingExit : Option PendingExit := none
  peakValue : ℚ
  totalCommission : ℚ := 0
  totalSlippage : ℚ := 0
  usedMargin : ℚ := 0
  diagnostics : List BacktestDiagnostic := []
  totalBorrowCost : ℚ := 0
  totalFunding : ℚ := 0
  deriving DecidableEq

/-- `SimulationState(initial_cash)`. -/
def SimulationState.init (initialCash : ℚ) : SimulationState :=
  { initialCash := initialCash, cash := initialCash, peakValue := initialCash }

/-- `SimulationState.add_diagnostic`. -/
def SimulationState.addDiagnostic (state : SimulationState) (severity code : String)
    (message : Message) (date : String) (metadata : List (String × ℚ) := []) :
    SimulationState :=
  { state with
    diagnostics := state.diagnostics ++
      [{ severity := severity, code := code, message := message, date := date,
         metadata := metadata }] }

/-! ## §5 The margin account and the books -/

/-- `MarginAccount`: the separate balance sheet of full margin mode. -/
structure MarginAccount where
  cash : ℚ := 0
  marginBook : ℚ := 0
  totalFundingPaid : ℚ := 0
  deriving DecidableEq, Repr

/-- What the `[EXIT]` line of `PositionCloser.close` records of one exit;
`exitPrice` is the raw price, before slippage. -/
structure ExitLine where
  barDate : String
  direction : Option Side
  exitPrice : ℚ
  entryPrice : ℚ
  absSize : ℚ
  netPnl : ℚ
  barsHeld : ℕ
  exitReason : ExitReason
  deriving DecidableEq, Repr

/-- Everything a run mutates: the simulation state, the margin account that
exists in full margin mode only, and the exits logged so far. -/
structure Books where
  state : SimulationState
  margin : Option MarginAccount
  exitLog : List ExitLine := []
  deriving DecidableEq

end Finbar.Simulation
