/-
Finbar.Backtest.Runner — the bar loop of `backtest_runner.py`.

One tradable iteration is the list of phases `Phase.all`, each a step on the
loop's state; a warmup iteration only feeds the bar to the strategy.
`afterBars` is the loop after its first `k` iterations, `duringBar` the loop
inside an iteration, after its first `j` phases, and `runLoop` the whole
loop with its closing liquidation.

No `sorry`, no `axiom`.
-/
import Finbar.Lib.Run
import Finbar.Backtest.Frame
import Finbar.Simulation.PositionExecutor

namespace Finbar.Backtest

open Lib.Python Finbar.Simulation

/-! ## §1 Strategies and signals -/

/-- `SignalResult.action`. -/
inductive SignalAction where
  | buy
  | sell
  | hold
  deriving DecidableEq, Repr

/-- `SignalResult.direction`; `none` is the empty string. -/
inductive SignalDirection where
  | none
  | enter (side : Side)
  | exit
  deriving DecidableEq, Repr

/-- `SignalResult`: what a strategy says about one bar. -/
structure SignalResult where
  action : SignalAction := .hold
  direction : SignalDirection := .none
  stopPrice : ℚ := 0
  targetPrice : ℚ := 0
  confidence : ℚ := 0
  /-- Suggested position size; `0` means the engine computes it. -/
  positionSize : ℤ := 0
  deriving DecidableEq, Repr

/-- `TradingStrategy`: a strategy with memory `σ`, called once per bar. -/
structure TradingStrategy (σ : Type) where
  onReset : σ → σ
  onBar : σ → Bar → SimulatedPosition → σ × Option SignalResult

/-! ## §2 The loop's state -/

/-- The arguments of `_run_loop` besides the frame and the initial cash. -/
structure RunSettings (σ : Type) where
  strategy : TradingStrategy σ
  riskPerTrade : ℚ
  executor : PositionExecutor
  firstTradableIndex : ℕ := 0

/-- The local state of `_run_loop`, with the strategy's memory. -/
structure Loop (σ : Type) where
  books : Books
  memory : σ
  finalClose : ℚ := 0
  finalDate : String := ""

/-- `if pending_exit is not None and position.size != 0: …`: the part of
`_execute_pending` that executes a pending exit. -/
def executePendingExit (executor : PositionExecutor) (books : Books) (price : ℚ)
    (date : String) : Books :=
  if books.state.pendingExit.isSome ∧ books.state.position.size ≠ 0 then
    let books := executor.exitPosition books price date .signalExitNextOpen
    { books with state := { books.state with pendingExit := none } }
  else books

/-- `_execute_pending`: execute pending exit/entry signals at the open. -/
def executePending (executor : PositionExecutor) (books : Books) (price : ℚ)
    (date : String) : Except PyError Books :=
  let books := executePendingExit executor books price date
  match books.state.pendingEntry with
  | none => .ok books
  | some entry =>
      if books.state.position.size ≠ 0 then .ok books
      else
        executor.enter { books with state := { books.state with pendingEntry := none } }
          entry price date

/-- The part of `_process_signal` after the strategy has answered: queue the
signal for the next open. -/
def queueSignal (state : SimulationState) (signal : SignalResult)
    (close riskPerTrade : ℚ) : SimulationState :=
  if signal.direction = .exit ∧ signal.action ≠ .hold ∧ state.position.size ≠ 0 then
    { state with
      pendingExit := some
        { direction := state.position.direction, confidence := signal.confidence } }
  else
    match signal.direction with
    | .enter side =>
        if state.position.size = 0 ∧ signal.action ≠ .hold then
          { state with
            pendingEntry := some
              { direction := side
                stopPrice := signal.stopPrice
                targetPrice := signal.targetPrice
                positionSize := if 0 < signal.positionSize then signal.positionSize else 0
                explicitSize := decide (0 < signal.positionSize)
                riskPerTrade := riskPerTrade
                signalClose := close } }
        else state
    | _ => state

/-- `_track_equity`: record portfolio value and drawdown. -/
def trackEquity (state : SimulationState) (close : ℚ) (date : String) :
    SimulationState :=
  let value := portfolioValue state close
  let peak := if state.peakValue < value then value else state.peakValue
  { state with
    peakValue := peak
    equityCurve := state.equityCurve ++
      [{ date := date
         close := close
         value := value
         drawdown := if 0 < peak then (peak - value) / peak else 0
         position := state.position.size }] }

variable {σ : Type}

/-- `_process_signal`: ask the strategy and queue its signal. -/
def processSignal (settings : RunSettings σ) (bar : Bar) (loop : Loop σ) : Loop σ :=
  let (memory, signal) :=
    settings.strategy.onBar loop.memory bar loop.books.state.position
  match signal with
  | none => { loop with memory := memory }
  | some signal =>
      { loop with
        memory := memory
        books :=
          { loop.books with
            state :=
              queueSignal loop.books.state signal bar.close settings.riskPerTrade } }

/-- `_update_warmup_state`: feed a warmup bar to the strategy only. -/
def updateWarmupState (settings : RunSettings σ) (bar : Bar) (loop : Loop σ) : Loop σ :=
  { loop with
    memory := (settings.strategy.onBar loop.memory bar loop.books.state.position).1 }

/-! ## §3 Phases, iterations, runs -/

/-- The steps of a tradable iteration. -/
inductive Phase where
  | executePending
  | checkExitConditions
  | checkMarginCall
  | applyFunding
  | processSignal
  | trackEquity
  | syncMarginEquity
  deriving DecidableEq, Repr

/-- The steps in the order `_run_loop` takes them. -/
def Phase.all : List Phase :=
  [.executePending, .checkExitConditions, .checkMarginCall, .applyFunding,
    .processSignal, .trackEquity, .syncMarginEquity]

/-- One step of a tradable iteration. -/
def runPhase (settings : RunSettings σ) (bar : Bar) (loop : Loop σ) :
    Phase → Except PyError (Loop σ)
  | .executePending => do
      let books ← executePending settings.executor loop.books bar.openPrice bar.date
      return { loop with books := books }
  | .checkExitConditions =>
      .ok { loop with
        books := settings.executor.checkExitConditions loop.books bar.openPrice bar.high
          bar.low bar.date }
  | .checkMarginCall =>
      .ok { loop with books := settings.executor.checkMarginCall loop.books bar.close }
  | .applyFunding =>
      .ok { loop with books := settings.executor.applyFunding loop.books }
  | .processSignal => .ok (processSignal settings bar loop)
  | .trackEquity =>
      .ok { loop with
        books :=
          { loop.books with state := trackEquity loop.books.state bar.close bar.date } }
  | .syncMarginEquity =>
      .ok { loop with books := PositionExecutor.syncMarginEquity loop.books }

/-- The head of an iteration: remember the bar's close and date. -/
def beginBar (bar : Bar) (loop : Loop σ) : Loop σ :=
  { loop with finalClose := bar.close, finalDate := bar.date }

/-- One iteration of `_run_loop`, on the bar with its index. -/
def iteration (settings : RunSettings σ) (loop : Loop σ) (barAt : Bar × ℕ) :
    Except PyError (Loop σ) :=
  let loop := beginBar barAt.1 loop
  if barAt.2 < settings.firstTradableIndex then
    .ok (updateWarmupState settings barAt.1 loop)
  else Phase.all.foldlM (runPhase settings barAt.1) loop

/-- The loop's state before its first iteration. -/
def beginLoop (settings : RunSettings σ) (memory : σ) (initialCash : ℚ) : Loop σ :=
  { books := settings.executor.setupFullMargin initialCash, memory := memory }

/-- The loop after its first `k` iterations. -/
def afterBars (settings : RunSettings σ) (memory : σ) (initialCash : ℚ)
    (bars : List Bar) (k : ℕ) : Except PyError (Loop σ) :=
  (bars.zipIdx.take k).foldlM (iteration settings) (beginLoop settings memory initialCash)

/-- The loop inside the iteration of bar `k`, after its first `j` phases. -/
def duringBar (settings : RunSettings σ) (memory : σ) (initialCash : ℚ)
    (bars : List Bar) (k : ℕ) (bar : Bar) (j : ℕ) : Except PyError (Loop σ) := do
  let loop ← afterBars settings memory initialCash bars k
  (Phase.all.take j).foldlM (runPhase settings bar) (beginBar bar loop)

/-- `_run_loop`: every iteration, then `liquidate_open`; the books at the
end. -/
def runLoop (settings : RunSettings σ) (memory : σ) (initialCash : ℚ)
    (bars : List Bar) : Except PyError Books := do
  let loop ← afterBars settings memory initialCash bars bars.length
  return settings.executor.liquidateOpen loop.books loop.finalClose loop.finalDate

end Finbar.Backtest
