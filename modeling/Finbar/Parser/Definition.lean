/-
Finbar.Parser.Definition — `StrategyDefinitionParser.parse`, its limits and
`StrategyDefinitionSerializer`.

A result is either the errors, or a definition with its normalized document
and its columns. What is left out of a result (warnings, required indicators,
timeframe intervals) is read by nothing here.

No `sorry`, no `axiom`.
-/
import Finbar.Parser.Collector
import Finbar.Parser.Risk

namespace Finbar.Parser

open Lib Lib.Python Finbar.Evaluation

/-! ## §1 Exceptions -/

/-- The exceptions that leave `parse`. -/
inductive ParserException where
  | attributeError (message : Message)
  | typeError (message : Message)
  deriving DecidableEq

/-! ## §2 Serializing -/

/-- The value that `visit_condition` reads of an operand, and its operator. -/
def serializeCondition (condition : Condition) : Json :=
  .dict (("left", condition.left.value) :: ("operator", .str condition.operator.value) ::
    match condition.right with
    | some right => [("right", right.value)]
    | none => [])

/-- `current[kind_key].append(…)` where `current` is `{"not": {}}`. -/
def notHasNoAppend : ParserException :=
  .attributeError { template := "'dict' object has no attribute 'append'" }

mutual

/-- What `SerializeGroupVisitor` leaves in `result`. Each child is appended to
the list under the kind of its parent; under `not` there is an empty dict. -/
def serializeGroup : ConditionGroup → Except ParserException Json
  | .all children => do return .dict [("all", .list (← serializeGroups children))]
  | .any children => do return .dict [("any", .list (← serializeGroups children))]
  | .not [] => return .dict [("not", .dict [])]
  | .not (_ :: _) => .error notHasNoAppend
  | .condition condition => return serializeCondition condition

def serializeGroups : List ConditionGroup → Except ParserException (List Json)
  | [] => return []
  | child :: children => do
      let node ← serializeGroup child
      let nodes ← serializeGroups children
      return node :: nodes

end

/-- A side of the document. -/
def serializeSide (side : String × SideRules) : Except ParserException (String × Json) := do
  let entry ← serializeGroup side.2.entry
  let exit ←
    match side.2.exit with
    | none => pure []
    | some group => do
        let exit ← serializeGroup group
        pure [("exit", Json.dict [("condition", exit)])]
  return (side.1, .dict (("entry", .dict [("condition", entry)]) :: exit))

/-- `_serialize_parameter`. -/
def serializeParameter (param : StrategyParameter) : Json :=
  .dict ([("type", .str param.type.value), ("default", param.default)] ++
    (param.minimum.map fun bound => ("minimum", Json.float bound)).toList ++
    (param.maximum.map fun bound => ("maximum", Json.float bound)).toList)

def serializeInformative (item : InformativeTimeframe) : Json :=
  .dict [("alias", .str item.aliasName), ("interval", .str item.interval)]

def serializeTimeframes (timeframes : TimeframeDeclaration) : Json :=
  .dict
    [("primary", .str timeframes.primary),
      ("informative", .list (timeframes.informative.map serializeInformative))]

def serializeIndicator (item : IndicatorSpec) : Json :=
  .dict
    [("name", .str item.name), ("type", .str item.type),
      ("concrete_name", .str item.concreteName),
      ("expected_column", .str item.columnName), ("timeframe", .str item.timeframe),
      ("period", item.period), ("source", .str item.source)]

def serializeFeature (feature : FeatureSpec) : Json :=
  .dict
    [("name", .str feature.name), ("type", .str feature.type),
      ("source", .str feature.source), ("window", feature.window),
      ("shift", .int feature.shift)]

def serializeRisk (risk : RiskSpec) : Json :=
  .dict
    [("stop_loss", .dict
        [("type", .str (stopLossName risk.stopLossType)),
          ("indicator", .str risk.stopIndicator), ("multiplier", .float risk.stopMultiplier)]),
      ("take_profit", .dict
        [("type", .str (takeProfitName risk.takeProfitType)),
          ("indicator", .str risk.takeProfitIndicator),
          ("multiplier", .float risk.takeProfitMultiplier)])]

/-- An entry that is written only when it applies. -/
def entryWhen (applies : Bool) (key : String) (value : Json) : List (String × Json) :=
  if applies then [(key, value)] else []

/-- `StrategyDefinitionSerializer.serialize`. -/
def serialize (definition : StrategyDefinition) : Except ParserException Json := do
  let sides ← definition.sides.items.mapM serializeSide
  return .dict
    ([("schema_version", .str "2.0"), ("name", .str definition.name)] ++
      entryWhen (definition.description ≠ "") "description" (.str definition.description) ++
      entryWhen (!definition.parameters.items.isEmpty) "parameters"
        (.dict (definition.parameters.items.map fun param =>
          (param.1, serializeParameter param.2))) ++
      (definition.timeframes.map fun timeframes =>
        ("timeframes", serializeTimeframes timeframes)).toList ++
      entryWhen (!definition.indicators.isEmpty) "indicators"
        (.list (definition.indicators.map serializeIndicator)) ++
      entryWhen (!definition.features.isEmpty) "features"
        (.list (definition.features.map serializeFeature)) ++
      (definition.risk.map fun risk => ("risk", serializeRisk risk)).toList ++
      entryWhen (!sides.isEmpty) "sides" (.dict sides) ++
      entryWhen (!definition.metadata.isEmpty) "metadata" (.dict definition.metadata))

/-! ## §3 Limits -/

mutual

/-- `_condition_depth`. -/
def conditionDepth : ConditionGroup → ℕ
  | .all children => 1 + maxDepth children
  | .any children => 1 + maxDepth children
  | .not children => 1 + maxDepth children
  | .condition _ => 0

/-- `max((_condition_depth(child) for child in children), default=0)`. -/
def maxDepth : List ConditionGroup → ℕ
  | [] => 0
  | child :: children => max (conditionDepth child) (maxDepth children)

end

/-- The error of a limit on how many there are. -/
def countLimit (path noun : String) (count maximum : ℕ) : List ValidationError :=
  if maximum < count then
    [{ path := path
       message :=
        { template := "max % % (got %)"
          args := [.num maximum, .text noun, .num count] } }]
  else []

/-- `MaxParametersLimitRule`. -/
def maxParametersLimit (params : Parameters) : List ValidationError :=
  countLimit "$.parameters" "parameters" params.items.length 20

/-- `MaxIndicatorsLimitRule`. -/
def maxIndicatorsLimit (indicators : List IndicatorSpec) : List ValidationError :=
  countLimit "$.indicators" "indicators" indicators.length 20

/-- `MaxFeaturesLimitRule`. -/
def maxFeaturesLimit (features : List FeatureSpec) : List ValidationError :=
  countLimit "$.features" "features" features.length 20

/-- `_maximum` of `MaxConditionDepthLimitRule`. -/
def maxConditionDepth : ℕ := 5

/-- One tree of `_check_side`. -/
def depthError (side key : String) (group : ConditionGroup) : Option ValidationError :=
  if maxConditionDepth < conditionDepth group then
    some
      { path := "$.sides." ++ side ++ "." ++ key ++ ".condition"
        message :=
          { template := "max depth % (got %)"
            args := [.num maxConditionDepth, .num (conditionDepth group)] } }
  else none

/-- `_check_side`. -/
def checkSide (side : String × SideRules) : Option ValidationError :=
  match depthError side.1 "entry" side.2.entry with
  | some error => some error
  | none => side.2.exit.bind (depthError side.1 "exit")

/-- `MaxConditionDepthLimitRule`: the first error. -/
def maxConditionDepthLimit (sides : Sides) : List ValidationError :=
  (sides.items.findSome? checkSide).toList

/-- `_collect_limit_errors` with the default rules. -/
def limitErrors (definition : StrategyDefinition) : List ValidationError :=
  maxParametersLimit definition.parameters ++ maxIndicatorsLimit definition.indicators ++
    maxFeaturesLimit definition.features ++ maxConditionDepthLimit definition.sides

/-! ## §4 Unknown columns -/

/-- `_informative_intervals`. -/
def informativeIntervals (definition : StrategyDefinition) : List String :=
  match definition.timeframes with
  | none => []
  | some timeframes => timeframes.informative.map InformativeTimeframe.interval

/-- The column ends with the suffix of an informative interval. -/
def routedColumn (intervals : List String) (column : String) : Bool :=
  intervals.any fun interval => ("_" ++ interval).toList.isSuffixOf column.toList

variable (env : ParserEnvironment)

/-- `_primary_required_indicators`. -/
def primaryRequiredIndicators (definition : StrategyDefinition) (columns : List String) :
    List String :=
  let declared := definition.indicators.foldl (fun required item =>
    if item.timeframe = "primary" then addColumn required item.concreteName else required) []
  columns.foldl (fun required column =>
    if column ∈ ohlcvFields ∨ column ∈ required ∨
        column ∈ definition.features.map FeatureSpec.name then required
    else if routedColumn (informativeIntervals definition) column then required
    else if env.catalog.supportsConcrete column then required ++ [column]
    else required) declared

/-- `_unknown_required_columns`. -/
def unknownRequiredColumns (definition : StrategyDefinition)
    (columns primaryRequired : List String) : List String :=
  columns.filter fun column =>
    !(decide (column ∈ ohlcvFields ∨ column ∈ primaryRequired ∨
        column ∈ definition.features.map FeatureSpec.name) ||
      routedColumn (informativeIntervals definition) column)

/-! ## §5 `parse` -/

/-- What `parse` returns for a definition that it accepts. -/
structure AcceptedStrategy where
  definition : StrategyDefinition
  normalized : Json
  requiredColumns : List String
  primaryRequiredIndicators : List String

/-- `StrategyValidationResult`. -/
inductive StrategyValidationResult where
  | invalid (errors : List ValidationError)
  | valid (accepted : AcceptedStrategy)

/-- `_validate_header`. -/
def validateHeader (data : List (String × Json)) : Checked String := do
  let version :=
    match Json.get data "schema_version" with
    | .str version => decide (version = "2.0")
    | _ => false
  if !version then
    report "$.schema_version" { template := "schema_version must be '2.0'" }
  let name := stripped (env.textOf data "name" "")
  if name = "" then
    report "$.name" { template := "name is required" }
  return name

/-- `_metadata`. -/
def metadataOf (data : List (String × Json)) : List (String × Json) :=
  match Json.get data "metadata" with
  | .dict metadata => metadata
  | _ => []

/-- The definition, before the limits are checked. -/
def parseDefinition (data overrides : List (String × Json)) : Checked StrategyDefinition := do
  let name ← validateHeader env data
  let params ← parseParameters env (Json.getD data "parameters" (.dict []))
  let resolvedParams ← applyOverrides params overrides
  let timeframes ← parseTimeframes env (Json.get data "timeframes")
  let indicators ←
    parseIndicators env resolvedParams timeframes (Json.getD data "indicators" (.list []))
  let features ←
    parseFeatures env resolvedParams indicators (Json.getD data "features" (.list []))
  let risk ← parseRisk env resolvedParams indicators (Json.get data "risk")
  let sides ←
    parseSides env (operandNames indicators features) resolvedParams (Json.get data "sides")
  return {
    name := name
    sides := sides
    description := env.textOf data "description" ""
    parameters := params
    resolvedParams := resolvedParams
    indicators := indicators
    features := features
    timeframes := timeframes
    risk := risk
    metadata := metadataOf data }

/-- The result for a definition without errors. -/
def validated (definition : StrategyDefinition) :
    Except ParserException StrategyValidationResult :=
  if limitErrors definition ≠ [] then .ok (.invalid (limitErrors definition))
  else
    match requiredColumns env definition with
    | none => .error (.typeError { template := "object is not iterable" })
    | some columns =>
        let primaryRequired := primaryRequiredIndicators env definition columns
        let unknown := unknownRequiredColumns definition columns primaryRequired
        if unknown ≠ [] then
          .ok (.invalid
            [{ path := "$.sides"
               message :=
                { template := "conditions reference unknown column(s) %: not OHLCV, not a declared indicator, not a feature, and not in the indicator catalog"
                  args := [.texts unknown] } }])
        else
          match serialize definition with
          | .error e => .error e
          | .ok normalized =>
              .ok (.valid
                { definition := definition
                  normalized := normalized
                  requiredColumns := columns
                  primaryRequiredIndicators := primaryRequired })

/-- `parse` of a document that is loaded. -/
def parse (data : Json) (overrides : List (String × Json)) :
    Except ParserException StrategyValidationResult :=
  match data with
  | .dict data =>
      let definition := parseDefinition env data overrides
      if definition.errors ≠ [] then .ok (.invalid definition.errors)
      else validated env definition.value
  | _ =>
      .ok (.invalid
        [{ path := "$", message := { template := "strategy definition must be a JSON object" } }])

/-- How `validated` comes to accept a definition. -/
theorem validated_eq_valid {definition : StrategyDefinition} {accepted : AcceptedStrategy}
    (h : validated env definition = .ok (.valid accepted)) :
    accepted.definition = definition ∧ limitErrors definition = [] ∧
      requiredColumns env definition = some accepted.requiredColumns ∧
      unknownRequiredColumns definition accepted.requiredColumns
        (primaryRequiredIndicators env definition accepted.requiredColumns) = [] ∧
      serialize definition = .ok accepted.normalized := by
  unfold validated at h
  by_cases hlimits : limitErrors definition = []
  · cases hcolumns : requiredColumns env definition with
    | none => simp [hlimits, hcolumns] at h
    | some columns =>
        by_cases hunknown : unknownRequiredColumns definition columns
            (primaryRequiredIndicators env definition columns) = []
        · cases hserialize : serialize definition with
          | error e => simp [hlimits, hcolumns, hunknown, hserialize] at h
          | ok normalized =>
              simp only [hlimits, hcolumns, hunknown, hserialize, ne_eq, not_true_eq_false,
                if_false, Except.ok.injEq, StrategyValidationResult.valid.injEq] at h
              subst h
              exact ⟨rfl, hlimits, rfl, hunknown, rfl⟩
        · simp [hlimits, hcolumns, hunknown] at h
  · simp [hlimits] at h

/-- An accepted document is an object, parsed without errors. -/
theorem parse_eq_valid {data : Json} {overrides : List (String × Json)}
    {accepted : AcceptedStrategy} (h : parse env data overrides = .ok (.valid accepted)) :
    ∃ entries, data = .dict entries ∧
      parseDefinition env entries overrides = pure accepted.definition ∧
      validated env accepted.definition = .ok (.valid accepted) := by
  cases data with
  | dict entries =>
      by_cases herrors : (parseDefinition env entries overrides).errors = []
      · simp only [parse, herrors, ne_eq, not_true_eq_false, if_false] at h
        have hdefinition := (validated_eq_valid env h).1
        rw [← hdefinition] at h
        exact ⟨entries, rfl, Checked.ext hdefinition.symm herrors, h⟩
      · simp [parse, herrors] at h
  | _ => simp [parse] at h

/-! ## §6 A small environment -/

/-- A catalog of two indicators, which answers as the catalog of the source
does. -/
def smallCatalog : IndicatorCapabilityProvider where
  resolve type period :=
    match type, period with
    | "rsi", .int 14 => some "rsi_14"
    | "sma", .int 20 => some "sma_20"
    | _, _ => none
  requiresPeriod type := decide (type ∈ ["rsi", "sma"])
  acceptsPeriod type := decide (type ∈ ["rsi", "sma"])
  supportsConcrete name := decide (name ∈ ["rsi_14", "sma_20"])

def smallEnvironment : ParserEnvironment where
  catalog := smallCatalog
  strOf _ := "1.0"

end Finbar.Parser
