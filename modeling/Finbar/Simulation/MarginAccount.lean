/-
Finbar.Simulation.MarginAccount — `MarginAccount` and `MarginAccountManager`:
the second balance sheet that full margin mode keeps beside
`SimulationState.cash`.

The manager's methods are functions from the account to the account; the
cash of the simulation state is passed in where the source reads it.

No `sorry`, no `axiom`.
-/
import Finbar.Simulation.State

namespace Finbar.Simulation

open Lib.Python

/-! ## §1 MarginAccount -/

namespace MarginAccount

/-- Free equity; cash already reflects the locked margin. -/
def equity (account : MarginAccount) : ℚ :=
  account.cash

/-- `release_margin`: return margin to cash, at most what is booked. -/
def releaseMargin (account : MarginAccount) (amount : ℚ) : MarginAccount :=
  let actual := min amount account.marginBook
  { account with
    marginBook := account.marginBook - actual
    cash := account.cash + actual }

/-- `MarginAccount.apply_funding`: take a funding payment from cash. -/
def applyFunding (account : MarginAccount) (payment : ℚ) : MarginAccount :=
  { account with
    cash := account.cash - payment
    totalFundingPaid := account.totalFundingPaid + |payment| }

end MarginAccount

/-! ## §2 MarginAccountManager -/

namespace MarginAccountManager

/-- The margin of a position of a given notional, as the manager computes
it: the whole notional when the leverage is not positive. -/
def marginOf (config : ExecutionConfig) (notional : ℚ) : ℚ :=
  if 0 < config.leverageMultiplier then notional / config.leverageMultiplier
  else notional

/-- `lock_entry_margin`: mirror a long entry and lock its margin. The
opener has already moved `stateCash`. -/
def lockEntryMargin (config : ExecutionConfig) (account : MarginAccount)
    (stateCash cost commission : ℚ) : MarginAccount :=
  { account with
    marginBook := account.marginBook + marginOf config cost
    cash :=
      if isClose stateCash account.cash (1 / 10 ^ 12) then
        account.cash - (cost + commission)
      else stateCash }

/-- `credit_entry_short`: mirror the cash credit of a short entry. -/
def creditEntryShort (account : MarginAccount) (stateCash cost commission : ℚ) :
    MarginAccount :=
  { account with
    cash :=
      if isClose stateCash account.cash (1 / 10 ^ 12) then
        account.cash + (cost - commission)
      else stateCash }

/-- `settle_exit`: release the locked margin, then take over the cash that
the exit has left in the simulation state. -/
def settleExit (config : ExecutionConfig) (account : MarginAccount)
    (stateCash absSize entryPrice : ℚ) : MarginAccount :=
  let marginLocked := marginOf config (absSize * entryPrice)
  { account.releaseMargin (min marginLocked account.marginBook) with
    cash := stateCash }

/-- `apply_funding`: one bar's funding of the open position; returns the
signed payment (positive when the holder pays). -/
def applyFunding (config : ExecutionConfig) (account : MarginAccount)
    (position : SimulatedPosition) : MarginAccount × ℚ :=
  if config.enableFunding = false ∨ position.size = 0 then (account, 0)
  else
    let absSize := |position.size|
    if absSize ≤ 0 ∨ position.entryPrice ≤ 0 then (account, 0)
    else
      let notional := absSize * position.entryPrice
      -- Shorts receive funding.
      let payment :=
        if position.size < 0 then -(notional * config.fundingRate)
        else notional * config.fundingRate
      (account.applyFunding payment, payment)

/-- `check_margin_call`: whether `close` is at or past the liquidation
price of the open position. -/
def checkMarginCall (config : ExecutionConfig) (position : SimulatedPosition)
    (close : ℚ) : Bool :=
  if position.size = 0 ∨ config.leverageMultiplier ≤ 1 then false
  else if position.entryPrice ≤ 0 ∨ |position.size| ≤ 0 then false
  else
    decide (0 < position.liquidationPrice) &&
      ((decide (0 < position.size) && decide (close ≤ position.liquidationPrice)) ||
        (decide (position.size < 0) && decide (position.liquidationPrice ≤ close)))

end MarginAccountManager

end Finbar.Simulation
