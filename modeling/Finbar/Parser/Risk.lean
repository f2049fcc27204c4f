/-
Finbar.Parser.Risk — structured risk settings (`StrategyRiskResolver`).

A type that is not supported is reported; it is read as "none" afterwards,
which adds no further error, as in the source.

No `sorry`, no `axiom`.
-/
import Finbar.Parser.Features
import Finbar.Evaluation.Strategy

namespace Finbar.Parser

open Lib Lib.Python Finbar.Evaluation

/-- `stop_loss_type` as it is written. -/
def stopLossName : StopLossType → String
  | .none => "none"
  | .atr => "atr"
  | .fixedPct => "fixed_pct"

/-- `take_profit_type` as it is written. -/
def takeProfitName : TakeProfitType → String
  | .none => "none"
  | .atr => "atr"
  | .fixedPct => "fixed_pct"
  | .riskReward => "risk_reward"

/-- The stop-loss type of a text (`_STOP_TYPES`). -/
def stopLossOf (text : String) : Option StopLossType :=
  [StopLossType.none, .atr, .fixedPct].find? fun type => decide (stopLossName type = text)

/-- The take-profit type of a text (`_TAKE_PROFIT_TYPES`). -/
def takeProfitOf (text : String) : Option TakeProfitType :=
  [TakeProfitType.none, .atr, .fixedPct, .riskReward].find? fun type =>
    decide (takeProfitName type = text)

variable (env : ParserEnvironment)

/-- `_risk_section`. -/
def riskSection (raw : List (String × Json)) (name : String) :
    Checked (Option (List (String × Json))) :=
  match Json.getD raw name (.dict [("type", .str "none")]) with
  | .dict entries => pure (some entries)
  | _ => do
      report ("$.risk." ++ name) { template := "% must be an object", args := [.text name] }
      return none

/-- `_validate_types`, with the types it accepts. -/
def validateTypes (stopType targetType : String) : Checked (StopLossType × TakeProfitType) := do
  if (stopLossOf stopType).isNone then
    report "$.risk.stop_loss.type" { template := "unsupported stop type" }
  if (takeProfitOf targetType).isNone then
    report "$.risk.take_profit.type" { template := "unsupported take-profit type" }
  return ((stopLossOf stopType).getD .none, (takeProfitOf targetType).getD .none)

/-- `_positive_float`. -/
def positiveFloat (path : String) (raw : Json) : Checked PyFloat :=
  if raw.isNullOrEmptyStr then pure (.fin 0)
  else
    match raw.toFloat with
    | none => do
        reportAs path { template := "value must be numeric" } "invalid_risk_parameter"
        return .fin 0
    | some value =>
        if value.lt (.fin 0) then do
          reportAs path { template := "value must be non-negative" } "invalid_risk_parameter"
          return .fin 0
        else pure value

/-- A number of a section: `_positive_float(resolve_expression(…))`. -/
def riskNumber (params : ResolvedParams) (section_ : List (String × Json))
    (path key : String) : Checked PyFloat := do
  let path := path ++ "." ++ key
  let raw ← resolveExpression params path (Json.getD section_ key (.int 0))
  positiveFloat path raw

/-- The scan for an ATR indicator when the name is the default. -/
def defaultAtrColumn (aliases : OrderedDict String String) : Option String :=
  (aliases.items.find? fun entry =>
    decide (entry.1 = "atr" ∨ "atr_".isPrefixOf entry.1) &&
      env.catalog.supportsConcrete entry.1 &&
      (env.catalog.resolve "atr" .null).any fun resolved =>
        decide (resolved ≠ "") && resolved.isPrefixOf entry.1).map Prod.snd

/-- `_resolve_atr_indicator`. -/
def resolveAtrIndicator (isAtr : Bool) (path name : String)
    (aliases : OrderedDict String String) : Checked String :=
  if !isAtr then pure name
  else
    match aliases.get name with
    | some column => pure column
    | none =>
        match if name = "atr" then defaultAtrColumn env aliases else none with
        | some column => pure column
        | none =>
            if env.catalog.supportsConcrete name then pure name
            else do
              reportAs path { template := "Unknown risk indicator '%'", args := [.text name] }
                "unknown_risk_indicator"
              return name

/-- `_require_positive`. -/
def requirePositive (applies : Bool) (value : PyFloat) (path : String) : Checked Unit :=
  if applies && value.le (.fin 0) then
    reportAs path { template := "value must be greater than zero" } "invalid_risk_parameter"
  else pure ()

/-- `_validate_required_values`. -/
def validateRequiredValues (spec : RiskSpec) : Checked Unit := do
  requirePositive (spec.stopLossType = .atr) spec.stopMultiplier "$.risk.stop_loss.multiplier"
  requirePositive (spec.stopLossType = .fixedPct) spec.stopPct "$.risk.stop_loss.pct"
  requirePositive (spec.takeProfitType = .atr) spec.takeProfitMultiplier
    "$.risk.take_profit.multiplier"
  requirePositive (spec.takeProfitType = .fixedPct) spec.takeProfitPct "$.risk.take_profit.pct"
  requirePositive (spec.takeProfitType = .riskReward) spec.riskRewardRatio
    "$.risk.take_profit.ratio"

/-- `_build_spec`. -/
def buildRiskSpec (params : ResolvedParams) (aliases : OrderedDict String String)
    (stop target : List (String × Json)) : Checked RiskSpec := do
  let (stopType, targetType) ←
    validateTypes (lower (env.textOf stop "type" "none")) (lower (env.textOf target "type" "none"))
  let stopIndicator ← resolveAtrIndicator env (stopType = .atr) "$.risk.stop_loss.indicator"
    (env.textOf stop "indicator" "atr") aliases
  let stopMultiplier ← riskNumber params stop "$.risk.stop_loss" "multiplier"
  let stopPct ← riskNumber params stop "$.risk.stop_loss" "pct"
  let takeProfitIndicator ← resolveAtrIndicator env (targetType = .atr)
    "$.risk.take_profit.indicator" (env.textOf target "indicator" "atr") aliases
  let takeProfitMultiplier ← riskNumber params target "$.risk.take_profit" "multiplier"
  let takeProfitPct ← riskNumber params target "$.risk.take_profit" "pct"
  let riskRewardRatio ← riskNumber params target "$.risk.take_profit" "ratio"
  return {
    stopLossType := stopType
    stopIndicator := stopIndicator
    stopMultiplier := stopMultiplier
    stopPct := stopPct
    takeProfitType := targetType
    takeProfitIndicator := takeProfitIndicator
    takeProfitMultiplier := takeProfitMultiplier
    takeProfitPct := takeProfitPct
    riskRewardRatio := riskRewardRatio }

/-- `StrategyRiskResolver.parse`. -/
def parseRisk (params : ResolvedParams) (indicators : List IndicatorSpec) (raw : Json) :
    Checked (Option RiskSpec) :=
  if raw.isNullOrEmptyDict then pure none
  else
    match raw with
    | .dict entries => do
        let stop ← riskSection entries "stop_loss"
        let target ← riskSection entries "take_profit"
        match stop, target with
        | some stop, some target => do
            let spec ← buildRiskSpec env params (aliasColumns indicators) stop target
            validateRequiredValues spec
            return some spec
        | _, _ => return none
    | _ => do
        report "$.risk" { template := "risk must be an object" }
        return none

end Finbar.Parser
