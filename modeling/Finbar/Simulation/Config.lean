/-
Finbar.Simulation.Config — the settings of a backtest run: the enumerations
of `simulation/enums.py`, `ExecutionConfig` and `LeverageConfig`.

`ExecutionConfig.__post_init__` rejects a string outside its enumeration,
so the model's fields have the enumeration as their type and a
configuration that fails the check cannot be built; `StrEnum.parse` is the
check itself, used where a configuration is read from strings.

No `sorry`, no `axiom`.
-/
import Finbar.Lib.Python

namespace Finbar.Simulation

open Lib.Python

/-! ## §1 Enumerations -/

/-- The direction of a pending order or of an open position. -/
inductive Side where
  | long
  | short
  deriving DecidableEq, Repr

/-- Which of a position's two fills a price is for. -/
inductive FillSide where
  | entry
  | exit
  deriving DecidableEq, Repr

/-- How the risk budget scales with leverage. -/
inductive RiskMode where
  | fixedEquityRisk
  | leverageScaledRisk
  deriving DecidableEq, Repr

/-- Margin accounting mode. -/
inductive MarginMode where
  | simplified
  | full
  deriving DecidableEq, Repr

/-- Anchor for stop/target prices. -/
inductive RiskPriceBasis where
  | signalClose
  | entryFill
  deriving DecidableEq, Repr

/-- Borrow-cost holding-period granularity. -/
inductive BorrowTimeBasis where
  | calendarDay
  | timestampDelta
  deriving DecidableEq, Repr

/-- Calendar used for annualization and session logic. -/
inductive MarketCalendar where
  | equityRegularHours
  | crypto247
  deriving DecidableEq, Repr

instance : StrEnum RiskMode where
  members := [.fixedEquityRisk, .leverageScaledRisk]
  value
    | .fixedEquityRisk => "fixed_equity_risk"
    | .leverageScaledRisk => "leverage_scaled_risk"
  value_ne_empty a := by cases a <;> decide
  find_value a := by cases a <;> decide

instance : StrEnum MarginMode where
  members := [.simplified, .full]
  value
    | .simplified => "simplified"
    | .full => "full"
  value_ne_empty a := by cases a <;> decide
  find_value a := by cases a <;> decide

instance : StrEnum RiskPriceBasis where
  members := [.signalClose, .entryFill]
  value
    | .signalClose => "signal_close"
    | .entryFill => "entry_fill"
  value_ne_empty a := by cases a <;> decide
  find_value a := by cases a <;> decide

instance : StrEnum BorrowTimeBasis where
  members := [.calendarDay, .timestampDelta]
  value
    | .calendarDay => "calendar_day"
    | .timestampDelta => "timestamp_delta"
  value_ne_empty a := by cases a <;> decide
  find_value a := by cases a <;> decide

instance : StrEnum MarketCalendar where
  members := [.equityRegularHours, .crypto247]
  value
    | .equityRegularHours => "equity_regular_hours"
    | .crypto247 => "crypto_24_7"
  value_ne_empty a := by cases a <;> decide
  find_value a := by cases a <;> decide

/-! ## §2 ExecutionConfig -/

/-- `ExecutionConfig`: execution, risk and accounting settings for one
backtest run. -/
structure ExecutionConfig where
  commissionPct : ℚ := 0
  slippagePct : ℚ := 0
  leverageMultiplier : ℚ := 1
  riskMode : RiskMode := .fixedEquityRisk
  capExplicitSize : Bool := true
  rejectOversizedExplicitOrders : Bool := false
  allowNegativeCash : Bool := false
  marketCalendar : MarketCalendar := .equityRegularHours
  borrowFeeAnnualPct : ℚ := 0
  marginMode : MarginMode := .simplified
  maintenanceMarginPct : ℚ := 5 / 1000
  enableFunding : Bool := false
  fundingRate : ℚ := 1 / 10000
  riskPriceBasis : RiskPriceBasis := .signalClose
  borrowTimeBasis : BorrowTimeBasis := .calendarDay
  deriving DecidableEq, Repr

/-- `ExecutionConfig.risk_budget_multiplier`: the multiplier applied to the
equity risk budget. -/
def ExecutionConfig.riskBudgetMultiplier (config : ExecutionConfig) : ℚ :=
  match config.riskMode with
  | .leverageScaledRisk => max config.leverageMultiplier 1
  | .fixedEquityRisk => 1

/-! ## §3 LeverageConfig -/

/-- `LeverageConfig`: leverage and margin configuration of a run. -/
structure LeverageConfig where
  multiplier : ℚ
  maintenanceMarginPct : ℚ
  deriving DecidableEq, Repr

namespace LeverageConfig

/-- True when trading without leverage. -/
def isSpot (lev : LeverageConfig) : Bool :=
  decide (lev.multiplier ≤ 1)

/-- `liquidation_price`: the price at which the position is force-closed;
the entry price itself when there is no leverage. -/
def liquidationPrice (lev : LeverageConfig) (entryPrice : ℚ) (side : Side) : ℚ :=
  if lev.multiplier ≤ 1 then entryPrice
  else
    let initialMarginFraction := 1 / lev.multiplier
    match side with
    | .long => entryPrice * (1 - initialMarginFraction + lev.maintenanceMarginPct)
    | .short => entryPrice * (1 + initialMarginFraction - lev.maintenanceMarginPct)

/-- `margin_required`: initial margin of a position of a given value. -/
def marginRequired (lev : LeverageConfig) (positionValue : ℚ) : Except PyError ℚ :=
  if lev.multiplier ≤ 0 then
    .error (.valueError
      { template := "Leverage multiplier must be positive, got %"
        args := [.num lev.multiplier] })
  else .ok (positionValue / lev.multiplier)

/-- `validate_stop`: the stop is inside the liquidation boundary. -/
def validateStop (lev : LeverageConfig) (stopPrice entryPrice : ℚ) (side : Side) :
    Bool :=
  if lev.isSpot then true
  else
    match side with
    | .long => decide (lev.liquidationPrice entryPrice .long < stopPrice)
    | .short => decide (stopPrice < lev.liquidationPrice entryPrice .short)

theorem isSpot_iff (lev : LeverageConfig) : lev.isSpot = true ↔ lev.multiplier ≤ 1 := by
  simp [isSpot]

/-- With a positive multiplier the margin of a position is defined. -/
theorem marginRequired_ok {lev : LeverageConfig} (h : 0 < lev.multiplier) (v : ℚ) :
    lev.marginRequired v = .ok (v / lev.multiplier) := by
  unfold marginRequired
  rw [if_neg (not_le.mpr h)]

end LeverageConfig

/-- The `LeverageConfig` that the sizer, the opener and the closer build from
the execution settings. -/
def ExecutionConfig.leverage (config : ExecutionConfig) : LeverageConfig :=
  { multiplier := config.leverageMultiplier
    maintenanceMarginPct := config.maintenanceMarginPct }

@[simp] theorem ExecutionConfig.leverage_multiplier (config : ExecutionConfig) :
    config.leverage.multiplier = config.leverageMultiplier := rfl

end Finbar.Simulation
