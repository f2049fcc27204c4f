/-
Finbar.Simulation.PositionOpener — `PositionOpener`: entry stop validation
and position creation.

No `sorry`, no `axiom`.
-/
import Finbar.Simulation.PositionCloser

namespace Finbar.Simulation

open Lib.Python

namespace PositionOpener

/-- `stop_valid`: the stop's direction and, with leverage, the liquidation
boundary. -/
def stopValid (config : ExecutionConfig) (entry : PendingEntry) (price : ℚ) : Bool :=
  if entry.stopPrice ≤ 0 then true
  else if entry.direction = .long ∧ price ≤ entry.stopPrice then false
  else if entry.direction = .short ∧ entry.stopPrice ≤ price then false
  else if config.leverage.isSpot = false then
    config.leverage.validateStop entry.stopPrice price entry.direction
  else true

/-- The size with the sign of its direction. -/
def signedSize : Side → ℚ → ℚ
  | .long, size => size
  | .short, size => -size

theorem signedSize_aligned (side : Side) {size : ℚ} (h : 0 < size) :
    Aligned (signedSize side size) (some side) := by
  cases side with
  | long => exact h
  | short => exact neg_neg_of_pos h

/-- The position an entry opens. -/
def openedPosition (config : ExecutionConfig) (entry : PendingEntry) (size : ℚ)
    (hsize : 0 < size) (rawPrice fillPrice : ℚ) (date : String) : SimulatedPosition :=
  { size := signedSize entry.direction size
    direction := some entry.direction
    entryPrice := fillPrice
    entryDate := date
    stopPrice := entry.stopPrice
    targetPrice := entry.targetPrice
    liquidationPrice := config.leverage.liquidationPrice fillPrice entry.direction
    entryCommission := commission (size * fillPrice) config.commissionPct
    entrySlippage := |fillPrice - rawPrice| * size
    aligned := signedSize_aligned entry.direction hsize }

/-- What an entry moves in cash: a long pays its cost and commission, a
short receives its cost less commission. -/
def entryCashFlow : Side → ℚ → ℚ → ℚ
  | .long, cost, commission => -(cost + commission)
  | .short, cost, commission => cost - commission

/-- The margin account after an entry: `lock_entry_margin` for a long,
`credit_entry_short` for a short. -/
def mirrorEntry (config : ExecutionConfig) (side : Side) (account : MarginAccount)
    (stateCash cost commission : ℚ) : MarginAccount :=
  match side with
  | .long => MarginAccountManager.lockEntryMargin config account stateCash cost commission
  | .short => MarginAccountManager.creditEntryShort account stateCash cost commission

/-- The books after an entry, `margin` being its initial margin: cash moved,
the move mirrored in the margin account, the position created. -/
def openedBooks (config : ExecutionConfig) (books : Books) (entry : PendingEntry)
    (size : ℚ) (hsize : 0 < size) (rawPrice fillPrice : ℚ) (date : String) (margin : ℚ) :
    Books :=
  let state := books.state
  let cost := size * fillPrice
  let fee := commission cost config.commissionPct
  let cash := state.cash + entryCashFlow entry.direction cost fee
  { state :=
      { state with
        cash := cash
        totalCommission := state.totalCommission + fee
        totalSlippage := state.totalSlippage + |fillPrice - rawPrice| * size
        usedMargin := state.usedMargin + margin
        position := openedPosition config entry size hsize rawPrice fillPrice date }
    margin := books.margin.map fun account =>
      mirrorEntry config entry.direction account cash cost fee
    exitLog := books.exitLog }

/-- `PositionOpener.open`: open the position with its `margin_required`,
which raises when the leverage multiplier is not positive. -/
def «open» (config : ExecutionConfig) (books : Books) (entry : PendingEntry) (size : ℚ)
    (hsize : 0 < size) (rawPrice fillPrice : ℚ) (date : String) :
    Except PyError Books := do
  let margin ← config.leverage.marginRequired (size * fillPrice)
  return openedBooks config books entry size hsize rawPrice fillPrice date margin

/-- With a positive multiplier the opener returns. -/
theorem open_eq_ok {config : ExecutionConfig} (hlev : 0 < config.leverageMultiplier)
    (books : Books) (entry : PendingEntry) (size : ℚ) (hsize : 0 < size)
    (rawPrice fillPrice : ℚ) (date : String) :
    PositionOpener.open config books entry size hsize rawPrice fillPrice date
      = .ok (openedBooks config books entry size hsize rawPrice fillPrice date
          (size * fillPrice / config.leverageMultiplier)) := by
  unfold PositionOpener.open
  have hmargin := LeverageConfig.marginRequired_ok
    (show 0 < config.leverage.multiplier from hlev) (size * fillPrice)
  rw [hmargin]
  rfl

end PositionOpener

end Finbar.Simulation
