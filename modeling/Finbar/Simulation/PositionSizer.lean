/-
Finbar.Simulation.PositionSizer — `PositionSizer`: risk-based and explicit
position sizing with affordability caps.

The sizer appends diagnostics to the simulation state and changes nothing
else in it: `resolve_state` is the frame lemma the callers use.

No `sorry`, no `axiom`.
-/
import Finbar.Simulation.State
import Mathlib.Tactic.SplitIfs

namespace Finbar.Simulation

open Lib.Python

namespace PositionSizer

/-- `_DEFAULT_POSITION_SIZE`. -/
def defaultPositionSize : ℚ := 100

/-- `_raw_size`: the position size before the affordability cap, and the
state with the warning emitted when the stop is too close. -/
def rawSize (config : ExecutionConfig) (state : SimulationState) (entry : PendingEntry)
    (portfolioValue entryPrice : ℚ) (date : String) : SimulationState × ℚ :=
  if entry.explicitSize ∧ 0 < entry.positionSize then (state, entry.positionSize)
  else if 0 < entry.stopPrice then
    let riskAmount := portfolioValue * entry.riskPerTrade * config.riskBudgetMultiplier
    let riskPerShare := |entryPrice - entry.stopPrice|
    if 1 / 1000 < riskPerShare then (state, riskAmount / riskPerShare)
    else
      (state.addDiagnostic "warning" "stop_distance_too_small"
        { template := "Stop distance % is below the minimum threshold (0.001). " ++
            "Falling back to default position size of %."
          args := [.num riskPerShare, .num defaultPositionSize] }
        date [("risk_per_share", riskPerShare)], defaultPositionSize)
  else (state, defaultPositionSize)

/-- `_max_affordable_size`: the largest size that cash, leverage and the
entry cost allow. -/
def maxAffordableSize (config : ExecutionConfig) (cash fillPrice : ℚ) : ℚ :=
  if fillPrice ≤ 0 then 0
  else
    let effectivePrice := fillPrice * (1 + max config.commissionPct 0)
    if effectivePrice ≤ 0 then 0
    else
      let buyingPower := cash * config.leverage.multiplier
      max 0 (buyingPower / effectivePrice)

/-- `_apply_affordability_cap`: cap a size to the buying power, or reject
it. -/
def applyAffordabilityCap (config : ExecutionConfig) (state : SimulationState)
    (entry : PendingEntry) (size price : ℚ) (date : String) : SimulationState × ℚ :=
  if price ≤ 0 ∨ config.allowNegativeCash then (state, size)
  else
    let cap := maxAffordableSize config state.cash price
    if cap ≤ 0 then
      (state.addDiagnostic "order_rejected" "insufficient_cash"
        { template := "Entry skipped because no buying power was available." } date, 0)
    else
      let capped := min size cap
      if size ≤ capped then (state, capped)
      else if entry.explicitSize ∧ config.rejectOversizedExplicitOrders then
        (state.addDiagnostic "order_rejected" "explicit_size_rejected"
          { template := "Explicit size % exceeds max affordable %."
            args := [.num size, .num cap] }
          date [("requested_size", size), ("max_affordable_size", cap)], 0)
      -- Documented behaviour: the full explicit size passes uncapped.
      else if entry.explicitSize ∧ ¬ config.capExplicitSize then (state, size)
      else
        (state.addDiagnostic "order_resized" "affordability_cap"
          { template := "Requested size % capped to %."
            args := [.num size, .num capped] }
          date [("requested_size", size), ("filled_size", capped)], capped)

/-- `PositionSizer.resolve`: the filled size of an entry, `0` when it is
rejected. -/
def resolve (config : ExecutionConfig) (state : SimulationState) (entry : PendingEntry)
    (entryPrice portfolioValue : ℚ) (date : String) : SimulationState × ℚ :=
  let (state, size) := rawSize config state entry portfolioValue entryPrice date
  if size ≤ 0 then (state, 0)
  else applyAffordabilityCap config state entry size entryPrice date

/-! ## The frame -/

/-- Two states that differ in their diagnostics only. -/
def SameButDiagnostics (s s' : SimulationState) : Prop :=
  s' = { s with diagnostics := s'.diagnostics }

theorem sameButDiagnostics_refl (s : SimulationState) : SameButDiagnostics s s := rfl

theorem sameButDiagnostics_addDiagnostic (s : SimulationState) (severity code : String)
    (message : Message) (date : String) (metadata : List (String × ℚ)) :
    SameButDiagnostics s (s.addDiagnostic severity code message date metadata) := rfl

theorem SameButDiagnostics.trans {s s' s'' : SimulationState}
    (h : SameButDiagnostics s s') (h' : SameButDiagnostics s' s'') :
    SameButDiagnostics s s'' := by
  unfold SameButDiagnostics at *
  rw [h', h]

theorem rawSize_state (config : ExecutionConfig) (state : SimulationState)
    (entry : PendingEntry) (portfolioValue entryPrice : ℚ) (date : String) :
    SameButDiagnostics state
      (rawSize config state entry portfolioValue entryPrice date).1 := by
  unfold rawSize
  split_ifs
  · exact sameButDiagnostics_refl state
  · simp only
    split_ifs
    · exact sameButDiagnostics_refl state
    · exact sameButDiagnostics_addDiagnostic state ..
  · exact sameButDiagnostics_refl state

theorem applyAffordabilityCap_state (config : ExecutionConfig) (state : SimulationState)
    (entry : PendingEntry) (size price : ℚ) (date : String) :
    SameButDiagnostics state
      (applyAffordabilityCap config state entry size price date).1 := by
  unfold applyAffordabilityCap
  simp only
  split_ifs
  · exact sameButDiagnostics_refl state
  · exact sameButDiagnostics_addDiagnostic state ..
  · exact sameButDiagnostics_refl state
  · exact sameButDiagnostics_addDiagnostic state ..
  · exact sameButDiagnostics_refl state
  · exact sameButDiagnostics_addDiagnostic state ..

/-- Sizing an entry only appends diagnostics. -/
theorem resolve_state (config : ExecutionConfig) (state : SimulationState)
    (entry : PendingEntry) (entryPrice portfolioValue : ℚ) (date : String) :
    SameButDiagnostics state
      (resolve config state entry entryPrice portfolioValue date).1 := by
  have hraw := rawSize_state config state entry portfolioValue entryPrice date
  unfold resolve
  simp only
  split_ifs
  · exact hraw
  · exact hraw.trans (applyAffordabilityCap_state config _ entry _ entryPrice date)

end PositionSizer

end Finbar.Simulation
