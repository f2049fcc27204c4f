/-
Finbar.Simulation.PositionCloser — `PositionCloser`: exit settlement, margin
release, borrow cost and trade recording; with the shared slippage and
commission helpers of `position_closer.py`.

`datetime.fromisoformat` comes in as a function `fromisoformat`, `none`
standing for its `ValueError`.

No `sorry`, no `axiom`.
-/
import Finbar.Simulation.MarginAccount
import Mathlib.Tactic.Ring

namespace Finbar.Simulation

open Lib.Python

/-! ## §1 Slippage and commission -/

/-- `_SLIPPAGE_SIGN`: entry lengthens and exit shortens for longs; the
reverse for shorts. -/
def slippageSign : Side → FillSide → ℚ
  | .long, .entry => 1
  | .long, .exit => -1
  | .short, .entry => -1
  | .short, .exit => 1

/-- `_apply_slippage`; a flat position's empty direction has no sign and
leaves the price alone. -/
def applySlippage (price : ℚ) (direction : Option Side) (side : FillSide)
    (slippagePct : ℚ) : ℚ :=
  if slippagePct ≤ 0 then price
  else
    match direction with
    | none => price
    | some d => price * (1 + slippageSign d side * slippagePct)

/-- `_commission`: per-side commission of a fill of a given gross value. -/
def commission (gross commissionPct : ℚ) : ℚ :=
  if commissionPct ≤ 0 then 0 else |gross| * commissionPct

/-! ## §2 Holding period and borrow cost -/

/-- A parsed ISO date or datetime: seconds from a fixed origin, and whether
it carries a UTC offset. -/
structure DateTime where
  seconds : ℚ
  aware : Bool
  deriving DecidableEq, Repr

/-- `exit - entry`, in seconds; subtracting a naive from an aware datetime
raises `TypeError`. -/
def DateTime.sub (exit entry : DateTime) : Except PyError ℚ :=
  if exit.aware = entry.aware then .ok (exit.seconds - entry.seconds)
  else .error (.typeError
    { template := "can't subtract offset-naive and offset-aware datetimes" })

/-- `_parse_timestamp`. -/
def parseTimestamp (fromisoformat : String → Option DateTime) (raw : String)
    (timeBasis : BorrowTimeBasis) : Except PyError DateTime :=
  let cs := strip raw.toList
  let cs := if cs.getLast? = some 'Z' then cs.dropLast ++ "+00:00".toList else cs
  let parse (cs : List Char) : Except PyError DateTime :=
    match fromisoformat (String.ofList cs) with
    | some d => .ok d
    | none => .error (.valueError
        { template := "Invalid isoformat string: %", args := [.text (String.ofList cs)] })
  match timeBasis with
  | .calendarDay =>
      if cs.length < 10 then
        .error (.valueError
          { template := "Timestamp too short for calendar_day parsing: %"
            args := [.text (String.ofList cs)] })
      else parse (cs.take 10)
  | .timestampDelta => parse cs

/-- `_time_held`: the holding period in days. -/
def timeHeld (fromisoformat : String → Option DateTime) (entryDate exitDate : String)
    (timeBasis : BorrowTimeBasis) : Except PyError ℚ := do
  let entry ← parseTimestamp fromisoformat entryDate timeBasis
  let exit ← parseTimestamp fromisoformat exitDate timeBasis
  let seconds ← exit.sub entry
  return max 0 (seconds / 86400)

namespace PositionCloser

/-- `PositionCloser.borrow_cost`: borrow cost of a short; `0` when the
holding period cannot be computed. -/
def borrowCost (config : ExecutionConfig) (fromisoformat : String → Option DateTime)
    (absSize entryPrice : ℚ) (direction : Option Side) (entryDate exitDate : String) :
    ℚ :=
  if direction ≠ some .short ∨ config.borrowFeeAnnualPct ≤ 0 ∨ absSize ≤ 0
      ∨ entryPrice ≤ 0 then 0
  else
    match timeHeld fromisoformat entryDate exitDate config.borrowTimeBasis with
    | .error _ => 0
    | .ok days => absSize * entryPrice * config.borrowFeeAnnualPct * (days / 365)

/-! ## §3 Settlement -/

/-- `calc_pnl`: gross PnL from price movement only. -/
def calcPnl (size entryPrice exitPrice absSize : ℚ) : ℚ :=
  if 0 < size then (exitPrice - entryPrice) * absSize
  else (entryPrice - exitPrice) * absSize

/-- `cash_settlement`: net cash change at exit. -/
def cashSettlement (size fillCost commission borrowCost : ℚ) : ℚ :=
  if 0 < size then fillCost - commission
  else -(fillCost + commission + borrowCost)

/-- `release_margin`: the used margin after a position is closed. With
leverage the multiplier is above one, so `margin_required` cannot raise
here and its quotient is written out. -/
def releaseMargin (config : ExecutionConfig) (usedMargin absSize entryPrice : ℚ) : ℚ :=
  if config.leverage.isSpot = false ∧ 0 < entryPrice then
    max 0 (usedMargin - absSize * entryPrice / config.leverageMultiplier)
  else usedMargin

/-- The fill of an exit at a raw price: the position's exit slippage
applied. -/
def exitFill (config : ExecutionConfig) (position : SimulatedPosition) (exitPrice : ℚ) :
    ℚ :=
  applySlippage exitPrice position.direction .exit config.slippagePct

/-- `build_trade`, with the values that `close` passes to it. -/
def buildTrade (config : ExecutionConfig) (fromisoformat : String → Option DateTime)
    (position : SimulatedPosition) (exitPrice : ℚ) (barDate : String)
    (exitReason : ExitReason) : TradeRecord :=
  let absSize := |position.size|
  let fillPrice := exitFill config position exitPrice
  let exitCommission := commission (absSize * fillPrice) config.commissionPct
  let grossPnl := calcPnl position.size position.entryPrice fillPrice absSize
  let borrow := borrowCost config fromisoformat absSize position.entryPrice
    position.direction position.entryDate barDate
  let netPnl := grossPnl - position.entryCommission - exitCommission - borrow
  { entryDate := position.entryDate
    exitDate := barDate
    entryPrice := position.entryPrice
    exitPrice := fillPrice
    size := absSize
    grossPnl := grossPnl
    netPnl := netPnl
    entryCommission := position.entryCommission
    exitCommission := exitCommission
    borrowCost := borrow
    totalCommission := position.entryCommission + exitCommission
    pnlPct :=
      if 0 < position.entryPrice ∧ 0 < absSize then
        netPnl / (position.entryPrice * absSize)
      else 0
    durationBars := position.barsHeld
    direction := position.direction
    exitReason := exitReason }

/-- `PositionCloser.close`: settle cash, margin and borrow, record the trade
and leave the position flat. -/
def close (config : ExecutionConfig) (fromisoformat : String → Option DateTime)
    (books : Books) (exitPrice : ℚ) (barDate : String) (exitReason : ExitReason) :
    Books :=
  let state := books.state
  let position := state.position
  let absSize := |position.size|
  let fillPrice := exitFill config position exitPrice
  let fillCost := absSize * fillPrice
  let trade := buildTrade config fromisoformat position exitPrice barDate exitReason
  let cash := state.cash
    + cashSettlement position.size fillCost trade.exitCommission trade.borrowCost
  { state :=
      { state with
        cash := cash
        totalCommission := state.totalCommission + trade.exitCommission
        totalSlippage := state.totalSlippage + |fillPrice - exitPrice| * absSize
        totalBorrowCost := state.totalBorrowCost + trade.borrowCost
        usedMargin := releaseMargin config state.usedMargin absSize position.entryPrice
        trades := state.trades ++ [trade]
        position := .flat }
    margin := books.margin.map fun account =>
      MarginAccountManager.settleExit config account cash absSize position.entryPrice
    exitLog := books.exitLog ++
      [{ barDate := barDate
         direction := position.direction
         exitPrice := exitPrice
         entryPrice := position.entryPrice
         absSize := absSize
         netPnl := trade.netPnl
         barsHeld := position.barsHeld
         exitReason := exitReason }] }

/-- `check_liquidation`: the raw price at which the bar liquidates the open
position, if it does. The source passes it to `on_liquidated`, which closes
the position at it. -/
def checkLiquidation (config : ExecutionConfig) (position : SimulatedPosition)
    (high low : ℚ) : Option ℚ :=
  if config.leverage.isSpot ∨ position.size = 0 then none
  else if 0 < position.size ∧ low ≤ position.liquidationPrice then
    some position.liquidationPrice
  else if position.size < 0 ∧ position.liquidationPrice ≤ high then
    some position.liquidationPrice
  else none

end PositionCloser

end Finbar.Simulation
