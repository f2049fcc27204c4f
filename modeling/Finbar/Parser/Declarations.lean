/-
Finbar.Parser.Declarations — the parameters, timeframes and indicators of a
definition (`StrategyParameterResolver`, `StrategyTimeframeResolver`,
`StrategyIndicatorResolver`).

No `sorry`, no `axiom`.
-/
import Finbar.Parser.Helpers

namespace Finbar.Parser

open Lib Lib.Python

/-! ## §1 The environment -/

/-- `IndicatorCapabilityProvider`. -/
structure IndicatorCapabilityProvider where
  /-- `resolve(type, period)`: the concrete column. -/
  resolve : String → Json → Option String
  requiresPeriod : String → Bool
  acceptsPeriod : String → Bool
  supportsConcrete : String → Bool

/-- What a parser is created with, and how Python prints what is not a
string. -/
structure ParserEnvironment where
  catalog : IndicatorCapabilityProvider
  strOf : Json → String

variable (env : ParserEnvironment)

/-- `str(entries.get(key, default))`. -/
def ParserEnvironment.textOf (entries : List (String × Json)) (key default : String) :
    String :=
  (Json.getD entries key (.str default)).toStr env.strOf

/-! ## §2 Parameters -/

/-- `StrategyParameter`. -/
structure StrategyParameter where
  type : ParameterType
  default : Json
  minimum : Option PyFloat := none
  maximum : Option PyFloat := none

/-- `_parse_bound`. -/
def parseBound (path : String) (value : Json) : Checked (Option PyFloat) :=
  if value.isNull then pure none
  else if value.isNumber && !value.isBool then pure value.toFloat
  else do
    reportAs path { template := "bound must be numeric" } "invalid_parameter_bound"
    return none

/-- `_bounds_invalid`. -/
def boundsInvalid (path : String) (minimum maximum : Option PyFloat) : Checked Bool :=
  match minimum, maximum with
  | some low, some high =>
      if low.le high then pure false
      else do
        reportAs path { template := "minimum must be less than or equal to maximum" }
          "invalid_parameter_bound"
        return true
  | _, _ => pure false

/-- `_validate_range`. -/
def validateRange (path : String) (value : Json) (minimum maximum : Option PyFloat) :
    Checked Unit :=
  if value.isNumber && !value.isBool then do
    if value.toFloat.any fun x => minimum.any x.lt then
      report path { template := "value is below minimum" }
    if value.toFloat.any fun x => maximum.any fun bound => bound.lt x then
      report path { template := "value is above maximum" }
  else pure ()

/-- `_parse_one` of the parameters. -/
def parseParameter (name : String) : Json → Checked (Option StrategyParameter)
  | .dict spec => do
      let path := "$.parameters." ++ name
      let default := Json.get spec "default"
      match parameterTypeOf (lower (env.textOf spec "type" "")) with
      | none => do
          report (path ++ ".type") { template := "type must be int, float, bool, or string" }
          return none
      | some type =>
          if valueMatchesType default type then do
            let minimum ← parseBound (path ++ ".minimum") (Json.get spec "minimum")
            let maximum ← parseBound (path ++ ".maximum") (Json.get spec "maximum")
            if ← boundsInvalid path minimum maximum then return none
            else do
              validateRange (path ++ ".default") default minimum maximum
              return some
                { type := type, default := default, minimum := minimum, maximum := maximum }
          else do
            report (path ++ ".default")
              { template := "default must match type %", args := [.text type.value] }
            return none
  | _ => do
      report ("$.parameters." ++ name) { template := "parameter spec must be an object" }
      return none

/-- The declared parameters by name. -/
abbrev Parameters := OrderedDict String StrategyParameter

/-- Add one parameter. -/
def addParameter (params : Parameters) (entry : String × Json) : Checked Parameters := do
  match ← parseParameter env entry.1 entry.2 with
  | none => return params
  | some param => return params.assign entry.1 param

/-- `StrategyParameterResolver.parse`. -/
def parseParameters : Json → Checked Parameters
  | .dict entries => entries.foldlM (addParameter env) {}
  | _ => do
      report "$.parameters" { template := "parameters must be an object" }
      return {}

/-- The defaults: the parameter values without overrides. -/
def defaultParams (params : Parameters) : ResolvedParams :=
  OrderedDict.assignAll {} (params.items.map fun entry => (entry.1, entry.2.default))

/-- One override. -/
def applyOverride (params : Parameters) (resolved : ResolvedParams)
    (entry : String × Json) : Checked ResolvedParams :=
  let path := "$.params." ++ entry.1
  match params.get entry.1 with
  | none => do
      report path { template := "unknown parameter override" }
      return resolved
  | some param =>
      if valueMatchesType entry.2 param.type then
        let range := validateRange path entry.2 param.minimum param.maximum
        { value := if range.errors = [] then resolved.assign entry.1 entry.2 else resolved
          errors := range.errors }
      else do
        report path
          { template := "override must match type %", args := [.text param.type.value] }
        return resolved

/-- `apply_overrides`. -/
def applyOverrides (params : Parameters) (overrides : List (String × Json)) :
    Checked ResolvedParams :=
  overrides.foldlM (applyOverride params) (defaultParams params)

/-! ## §3 Timeframes -/

/-- `InformativeTimeframe`. -/
structure InformativeTimeframe where
  aliasName : String
  interval : String
  symbol : String := ""
  deriving DecidableEq, Repr

/-- `TimeframeDeclaration`. -/
structure TimeframeDeclaration where
  primary : String := ""
  informative : List InformativeTimeframe := []
  deriving DecidableEq, Repr

/-- `interval_for`. -/
def TimeframeDeclaration.intervalFor (timeframes : TimeframeDeclaration) (aliasName : String) :
    Option String :=
  if aliasName = "primary" then some timeframes.primary
  else (timeframes.informative.find? fun item => decide (item.aliasName = aliasName)).map
    InformativeTimeframe.interval

/-- The values of `Interval`. -/
def intervals : List String := ["5min", "30min", "1h", "1d", "1w"]

/-- `_validate_interval`. -/
def validateInterval (path interval : String) : Checked Bool :=
  if interval = "" then do
    report path { template := "interval is required" }
    return false
  else if interval ∈ intervals then pure true
  else do
    reportAs path
      { template := "unknown interval '%'. Allowed: %"
        args := [.text interval, .texts intervals] } "unknown_interval"
    return false

/-- `_parse_one_informative`, after the items before it. -/
def parseOneInformative (path : String) (items : List InformativeTimeframe) :
    Json → Checked (Option InformativeTimeframe)
  | .dict raw => do
      let aliasName := stripped (env.textOf raw "alias" "")
      let interval := stripped (env.textOf raw "interval" "")
      let symbol := stripped (env.textOf raw "symbol" "")
      if aliasName = "" then do
        report (path ++ ".alias") { template := "timeframe alias is required" }
        return none
      else if aliasName = "primary" ∨ aliasName ∈ items.map InformativeTimeframe.aliasName ∨
          aliasName ∈ ohlcvFields then do
        reportAs (path ++ ".alias")
          { template := "timeframe alias must be unique and not reserved" }
          "invalid_timeframe_alias"
        return none
      else if (interval, symbol) ∈ items.map fun item => (item.interval, item.symbol) then do
        reportAs (path ++ ".interval")
          { template := "informative intervals must be unique per symbol to avoid column collisions" }
          "duplicate_timeframe_interval"
        return none
      else if ← validateInterval (path ++ ".interval") interval then
        return some { aliasName := aliasName, interval := interval, symbol := symbol }
      else return none
  | _ => do
      report path { template := "informative timeframe must be an object" }
      return none

/-- A path with an index. -/
def indexed (path : String) (index : ℕ) : String :=
  path ++ "[" ++ toString index ++ "]"

/-- Add one informative timeframe. -/
def addInformative (items : List InformativeTimeframe) (entry : Json × ℕ) :
    Checked (List InformativeTimeframe) := do
  match ← parseOneInformative env (indexed "$.timeframes.informative" entry.2) items entry.1 with
  | none => return items
  | some item => return items ++ [item]

/-- `_MAX_INFORMATIVE_TIMEFRAMES`. -/
def maxInformativeTimeframes : ℕ := 3

/-- `_parse_informative`. -/
def parseInformative (raw : Json) : Checked (List InformativeTimeframe) :=
  if raw.isNullOrEmptyList then pure []
  else
    match raw with
    | .list items => do
        if maxInformativeTimeframes < items.length then
          reportAs "$.timeframes.informative"
            { template := "at most 3 informative timeframes are supported" }
            "timeframe_limit_exceeded"
        items.zipIdx.foldlM (addInformative env) []
    | _ => do
        report "$.timeframes.informative" { template := "informative must be an array" }
        return []

/-- `StrategyTimeframeResolver.parse`. -/
def parseTimeframes (raw : Json) : Checked (Option TimeframeDeclaration) :=
  if raw.isNullOrEmptyDict then pure none
  else
    match raw with
    | .dict entries => do
        let primary := stripped (env.textOf entries "primary" "")
        let _ ← validateInterval "$.timeframes.primary" primary
        let informative ← parseInformative env (Json.getD entries "informative" (.list []))
        return some { primary := primary, informative := informative }
    | _ => do
        report "$.timeframes" { template := "timeframes must be an object" }
        return none

/-! ## §4 Indicators -/

/-- `IndicatorSpec`. -/
structure IndicatorSpec where
  name : String
  type : String
  concreteName : String
  expectedColumn : String := ""
  timeframe : String := "primary"
  sources : List String := []
  period : Json := .null
  source : String := "close"

/-- `column_name`. -/
def IndicatorSpec.columnName (item : IndicatorSpec) : String :=
  if item.expectedColumn = "" then item.concreteName else item.expectedColumn

/-- `_alias_invalid`. -/
def aliasInvalid (path aliasName : String) (used : List String) : Checked Bool :=
  if aliasName = "" then do
    report path { template := "indicator name is required" }
    return true
  else if aliasName ∈ used ∨ aliasName ∈ ohlcvFields then do
    report path { template := "indicator name must be unique and not an OHLCV field" }
    return true
  else pure false

/-- `_period_invalid`. -/
def periodInvalid (path indicatorType : String) (period : Json) (supplied : Bool) :
    Checked Bool :=
  if env.catalog.requiresPeriod indicatorType then
    if period.isInt && !period.isBool then pure false
    else do
      report path { template := "period must resolve to an integer" }
      return true
  else if supplied && !period.isNull then
    if env.catalog.acceptsPeriod indicatorType then pure false
    else do
      reportAs path
        { template := "indicator type '%' does not support custom periods"
          args := [.text indicatorType] } "unsupported_indicator_parameter"
      return true
  else pure false

/-- One of the sources of a fallback. -/
def parseSource (path : String) (result : List String) (entry : Json × ℕ) :
    Checked (List String) := do
  let path := indexed path entry.2
  match entry.1 with
  | .str source =>
      if stripped source = "" then do
        report path { template := "each source must be a non-empty string" }
        return result
      else do
        if !env.catalog.supportsConcrete (stripped source) then
          reportAs path
            { template := "unknown concrete indicator '%'", args := [.text (stripped source)] }
            "unsupported_indicator"
        return result ++ [stripped source]
  | _ => do
      report path { template := "each source must be a non-empty string" }
      return result

/-- `_parse_sources`. -/
def parseSources (path indicatorType : String) (raw : Json) : Checked (List String) :=
  if indicatorType ≠ "fallback" then do
    if !raw.isNull then
      report path { template := "sources only valid for fallback type" }
    return []
  else
    match raw with
    | .list items =>
        if items.length < 2 then do
          report path { template := "fallback indicators require at least 2 sources" }
          return []
        else items.zipIdx.foldlM (parseSource env path) []
    | _ => do
        report path { template := "fallback indicators require at least 2 sources" }
        return []

/-- `_resolve_timeframe`. -/
def resolveTimeframe (path : String) (raw : Json) (timeframes : Option TimeframeDeclaration) :
    Checked (Option String) :=
  let timeframe := stripped ((raw.orElse (.str "primary")).toStr env.strOf)
  if timeframe = "primary" then pure (some timeframe)
  else
    match timeframes.bind fun declared => declared.intervalFor timeframe with
    | some _ => pure (some timeframe)
    | none => do
        reportAs path { template := "unknown timeframe alias '%'", args := [.text timeframe] }
          "unknown_timeframe"
        return none

/-- `_expected_column`. -/
def expectedColumn (concrete timeframe : String) (timeframes : Option TimeframeDeclaration) :
    String :=
  if timeframe = "primary" then concrete
  else
    match timeframes.bind fun declared => declared.intervalFor timeframe with
    | some interval => if interval = "" then concrete else concrete ++ "_" ++ interval
    | none => concrete

/-- The concrete column of an indicator: the first source of a fallback,
else what the catalog resolves the type to. -/
def concreteColumn (path indicatorType : String) (period : Json) (supplied : Bool)
    (sources : List String) : Checked (Option String) :=
  if indicatorType = "fallback" then pure sources.head?
  else do
    if ← periodInvalid env (path ++ ".period") indicatorType period supplied then return none
    else
      match env.catalog.resolve indicatorType period with
      | some concrete => return some concrete
      | none => do
          reportAs path
            { template := "unsupported indicator type/period: %_%"
              args := [.text indicatorType, .text (period.toStr env.strOf)] }
            "unsupported_indicator"
          return none

/-- `_parse_one` of the indicators. -/
def parseIndicator (params : ResolvedParams) (timeframes : Option TimeframeDeclaration)
    (path : String) (used : List String) : Json → Checked (Option IndicatorSpec)
  | .dict item => do
      let name := stripped (env.textOf item "name" "")
      let type := stripped (lower (env.textOf item "type" ""))
      if ← aliasInvalid (path ++ ".name") name used then return none
      else do
        let period ← resolveExpression params (path ++ ".period") (Json.get item "period")
        let sources ← parseSources env (path ++ ".sources") type (Json.get item "sources")
        match ← concreteColumn env path type period (item.lookup "period").isSome sources with
        | none => return none
        | some concrete =>
            match ← resolveTimeframe env (path ++ ".timeframe")
              (Json.getD item "timeframe" (.str "primary")) timeframes with
            | none => return none
            | some timeframe =>
                let column := sources.head?.getD concrete
                return some
                  { name := name
                    type := type
                    period := period
                    source := env.textOf item "source" "close"
                    concreteName := column
                    expectedColumn := expectedColumn column timeframe timeframes
                    timeframe := timeframe
                    sources := if 1 < sources.length then sources.tail else sources }
  | _ => do
      report path { template := "indicator spec must be an object" }
      return none

/-- Add one indicator. -/
def addIndicator (params : ResolvedParams) (timeframes : Option TimeframeDeclaration)
    (indicators : List IndicatorSpec) (entry : Json × ℕ) : Checked (List IndicatorSpec) := do
  match ← parseIndicator env params timeframes (indexed "$.indicators" entry.2)
    (indicators.map IndicatorSpec.name) entry.1 with
  | none => return indicators
  | some item => return indicators ++ [item]

/-- `StrategyIndicatorResolver.parse`. -/
def parseIndicators (params : ResolvedParams) (timeframes : Option TimeframeDeclaration) :
    Json → Checked (List IndicatorSpec)
  | .null => pure []
  | .list items => items.zipIdx.foldlM (addIndicator env params timeframes) []
  | _ => do
      report "$.indicators" { template := "indicators must be an array" }
      return []

/-- `{item.name: item.column_name() for item in indicators}`. -/
def aliasColumns (indicators : List IndicatorSpec) : OrderedDict String String :=
  OrderedDict.assignAll {} (indicators.map fun item => (item.name, item.columnName))

end Finbar.Parser
