/-
Finbar.Evaluation.Strategy — `JsonRuleBasedStrategy` and its
`JsonRiskPriceCalculator`.

`onBar` is one call: the memory it leaves, and the signal it returns or the
error it raises. A call that raises commits nothing. `memoryAfter` is the
memory after `n` calls from `on_reset`.

No `sorry`, no `axiom`.
-/
import Finbar.Backtest.Runner
import Finbar.Evaluation.Condition
import Finbar.Lib.Binary64

namespace Finbar.Evaluation

open Lib.Python Lib.Dictionary Finbar.Simulation Finbar.Backtest

/-! ## §1 Risk prices -/

/-- `RiskSpec.stop_loss_type`. -/
inductive StopLossType where
  | none
  | atr
  | fixedPct
  deriving DecidableEq, Repr

/-- `RiskSpec.take_profit_type`. -/
inductive TakeProfitType where
  | none
  | atr
  | fixedPct
  | riskReward
  deriving DecidableEq, Repr

/-- `RiskSpec`. The parser lets infinite and NaN settings through. -/
structure RiskSpec where
  stopLossType : StopLossType := .none
  stopIndicator : String := ""
  stopMultiplier : PyFloat := .fin 0
  stopPct : PyFloat := .fin 0
  takeProfitType : TakeProfitType := .none
  takeProfitIndicator : String := ""
  takeProfitMultiplier : PyFloat := .fin 0
  takeProfitPct : PyFloat := .fin 0
  riskRewardRatio : PyFloat := .fin 0
  deriving DecidableEq

/-- `float(bar.get(column, 0) or 0)`. -/
def columnValue (bar : BarDict) (column : String) : Except PyError PyFloat :=
  ((bar.get column).orElse (.ofRat 0)).toFloat.map PyFloat.double

/-- The price at a distance from the close: on the losing side for a stop,
on the winning side for a target. -/
def priceAway (close distance : PyFloat) (above : Bool) : PyFloat :=
  if above then close.addDouble distance else close.subDouble distance

/-- `_calculate_stop`: the handler of the stop-loss type. -/
def calculateStop (risk : RiskSpec) (bar : BarDict) (close : PyFloat) (side : Side) :
    Except PyError PyFloat :=
  match risk.stopLossType with
  | .none => .ok (.fin 0)
  | .atr => do
      let atr ← columnValue bar risk.stopIndicator
      if atr.le (.fin 0) ∨ risk.stopMultiplier.le (.fin 0) then return .fin 0
      else return priceAway close (atr.mulDouble risk.stopMultiplier) (side = .short)
  | .fixedPct =>
      if risk.stopPct.le (.fin 0) then .ok (.fin 0)
      else if side = .long then .ok (close.mulDouble ((PyFloat.fin 1).subDouble risk.stopPct))
      else .ok (close.mulDouble ((PyFloat.fin 1).addDouble risk.stopPct))

/-- `_calculate_target`: the handler of the take-profit type. -/
def calculateTarget (risk : RiskSpec) (bar : BarDict) (close : PyFloat) (side : Side)
    (stop : PyFloat) : Except PyError PyFloat :=
  match risk.takeProfitType with
  | .none => .ok (.fin 0)
  | .atr => do
      let atr ← columnValue bar risk.takeProfitIndicator
      if atr.le (.fin 0) ∨ risk.takeProfitMultiplier.le (.fin 0) then return .fin 0
      else return priceAway close (atr.mulDouble risk.takeProfitMultiplier) (side = .long)
  | .fixedPct =>
      if risk.takeProfitPct.le (.fin 0) then .ok (.fin 0)
      else if side = .long then
        .ok (close.mulDouble ((PyFloat.fin 1).addDouble risk.takeProfitPct))
      else .ok (close.mulDouble ((PyFloat.fin 1).subDouble risk.takeProfitPct))
  | .riskReward =>
      if stop.le (.fin 0) ∨ risk.riskRewardRatio.le (.fin 0) then .ok (.fin 0)
      else
        .ok (priceAway close ((close.subDouble stop).abs.mulDouble risk.riskRewardRatio)
          (side = .long))

/-- `JsonRiskPriceCalculator.calculate`: rounded stop and target prices. Each
operation is the one of doubles. -/
def JsonRiskPriceCalculator.calculate (risk : Option RiskSpec) (bar : BarDict)
    (side : Side) : Except PyError (PyFloat × PyFloat) :=
  match risk with
  | none => .ok (.fin 0, .fin 0)
  | some risk => do
      let close ← columnValue bar "close"
      let stop ← calculateStop risk bar close side
      let target ← calculateTarget risk bar close side stop
      return (stop.roundDouble 2, target.roundDouble 2)

/-! ## §2 The strategy -/

/-- `SideRules`. -/
structure SideRules where
  entry : ConditionGroup
  exit : Option ConditionGroup := none
  entryConfidence : ℚ := 7 / 10
  exitConfidence : ℚ := 7 / 10

/-- What the strategy reads of a `StrategyDefinition`. `sides` is a
dictionary in insertion order. -/
structure StrategyDefinition where
  sides : List (String × SideRules)
  risk : Option RiskSpec := none

/-- `SignalResult` as the strategy builds it. Its prices are computed from
the bar's values, so they may be NaN or infinite. -/
structure RuleSignal where
  action : SignalAction := .hold
  direction : SignalDirection := .none
  stopPrice : PyFloat := .fin 0
  targetPrice : PyFloat := .fin 0
  confidence : ℚ := 0
  deriving DecidableEq

/-- The key of a side in `sides`. -/
def sideName : Side → String
  | .long => "long"
  | .short => "short"

/-- The action that opens a side. -/
def entryAction : Side → SignalAction
  | .long => .buy
  | .short => .sell

/-- The entry signal of one side; `none` if its rules do not fire. -/
def sideEntrySignal (definition : StrategyDefinition) (bar : BarDict)
    (previous pending : CrossoverValues) (side : Side) :
    Except PyError (Option RuleSignal) × CrossoverValues :=
  match definition.sides.lookup (sideName side) with
  | none => (.ok none, pending)
  | some rules =>
      match ConditionEvaluator.evaluate rules.entry bar previous pending with
      | (false, pending) => (.ok none, pending)
      | (true, pending) =>
          match JsonRiskPriceCalculator.calculate definition.risk bar side with
          | .error e => (.error e, pending)
          | .ok (stop, target) =>
              (.ok (some {
                action := entryAction side
                direction := .enter side
                confidence := rules.entryConfidence
                stopPrice := stop
                targetPrice := target }), pending)

/-- `_entry_signal`: the first side whose entry rules fire. -/
def entrySignal (definition : StrategyDefinition) (bar : BarDict)
    (previous pending : CrossoverValues) : Except PyError RuleSignal × CrossoverValues :=
  match sideEntrySignal definition bar previous pending .long with
  | (.error e, pending) => (.error e, pending)
  | (.ok (some signal), pending) => (.ok signal, pending)
  | (.ok none, pending) =>
      match sideEntrySignal definition bar previous pending .short with
      | (.error e, pending) => (.error e, pending)
      | (.ok (some signal), pending) => (.ok signal, pending)
      | (.ok none, pending) => (.ok {}, pending)

/-- `_exit_signal`. -/
def exitSignal (definition : StrategyDefinition) (bar : BarDict) (direction : String)
    (previous pending : CrossoverValues) : RuleSignal × CrossoverValues :=
  match definition.sides.lookup direction with
  | none => ({}, pending)
  | some rules =>
      match rules.exit with
      | none => ({}, pending)
      | some exit =>
          match ConditionEvaluator.evaluate exit bar previous pending with
          | (false, pending) => ({}, pending)
          | (true, pending) =>
              ({ action := if direction = sideName .long then .sell else .buy
                 direction := .exit
                 confidence := rules.exitConfidence }, pending)

/-- The pending values after the state of all trees is collected. -/
def collectSides (sides : List (String × SideRules)) (bar : BarDict)
    (pending : CrossoverValues) : CrossoverValues :=
  sides.foldl (fun pending side =>
    ConditionEvaluator.collectState side.2.exit bar
      (ConditionEvaluator.collectState (some side.2.entry) bar pending)) pending

/-- A position dictionary. -/
abbrev PositionDict := List (String × PyValue)

/-- `float(position.get("size", 0) or 0)`. -/
def PositionDict.size (position : PositionDict) : Except PyError PyFloat :=
  (((position.lookup "size").getD (.ofRat 0)).orElse (.ofRat 0)).toFloat

/-- `str(position.get("direction", ""))`. -/
def PositionDict.direction (position : PositionDict) : String :=
  ((position.lookup "direction").getD (.str "")).toStr

/-- The signal of a bar and the pending values it leaves. -/
def barSignal (definition : StrategyDefinition) (previous : CrossoverValues) (bar : BarDict)
    (position : PositionDict) (size : PyFloat) :
    Except PyError RuleSignal × CrossoverValues :=
  let pending := collectSides definition.sides bar empty
  if size ≠ .fin 0 then
    let (signal, pending) := exitSignal definition bar position.direction previous pending
    (.ok signal, pending)
  else entrySignal definition bar previous pending

/-- `on_bar`: the signal for a bar, and the crossover memory after it. -/
def JsonRuleBasedStrategy.onBar (definition : StrategyDefinition)
    (previous : CrossoverValues) (bar : BarDict) (position : Option PositionDict) :
    CrossoverValues × Except PyError RuleSignal :=
  let position := position.getD []
  match position.size with
  | .error e => (previous, .error e)
  | .ok size =>
      match barSignal definition previous bar position size with
      | (.error e, _) => (previous, .error e)
      | (.ok signal, pending) => (ConditionEvaluator.commit previous pending, .ok signal)

/-- `on_reset`: the empty memory. -/
def JsonRuleBasedStrategy.onReset : CrossoverValues := empty

/-- The crossover memory after `n` calls from `on_reset`. -/
def JsonRuleBasedStrategy.memoryAfter (definition : StrategyDefinition)
    (bars : ℕ → BarDict) (positions : ℕ → Option PositionDict) : ℕ → CrossoverValues
  | 0 => onReset
  | n + 1 => (onBar definition (memoryAfter definition bars positions n) (bars n)
      (positions n)).1

end Finbar.Evaluation
