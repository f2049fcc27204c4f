/-
Finbar.Parser.Features — derived features (`StrategyFeatureResolver`) and
the parameter references inside formula expressions.

No `sorry`, no `axiom`.
-/
import Finbar.Parser.Declarations

namespace Finbar.Parser

open Lib Lib.Python

/-! ## §1 Parameters in expressions -/

mutual

/-- `_resolve_expr_params`. -/
def resolveExprParams (params : ResolvedParams) (path : String) : Json → Checked Json
  | .dict entries => do
      let entries ← resolveExprEntries params path entries
      return .dict entries
  | expr => pure expr

/-- The loop of `_resolve_expr_params` over the keys. -/
def resolveExprEntries (params : ResolvedParams) (path : String) :
    List (String × Json) → Checked (List (String × Json))
  | [] => pure []
  | (key, value) :: entries => do
      let value ←
        if key = "children" then resolveExprChildren params path value
        else if key = "left" ∨ key = "right" then resolveLeaf params path value
        else pure value
      let entries ← resolveExprEntries params path entries
      return (key, value) :: entries

/-- The value of `children`: its items, if it is a list. -/
def resolveExprChildren (params : ResolvedParams) (path : String) : Json → Checked Json
  | .list items => do
      let items ← resolveExprItems params path items
      return .list items
  | _ => pure (.list [])

/-- The items of `children`. -/
def resolveExprItems (params : ResolvedParams) (path : String) :
    List Json → Checked (List Json)
  | [] => pure []
  | item :: items => do
      let item ← resolveExprParams params path item
      let items ← resolveExprItems params path items
      return item :: items

/-- `_resolve_leaf`. -/
def resolveLeaf (params : ResolvedParams) (path : String) : Json → Checked Json
  | .str text => resolveText params path text
  | .dict entries =>
      match entries.lookup "param" with
      | some (.str name) => pure ((params.get name).getD (.dict entries))
      | _ => do
          let entries ← resolveExprEntries params path entries
          return .dict entries
  | value => pure value

end

/-! ## §2 Features -/

/-- `FeatureSpec`. -/
structure FeatureSpec where
  name : String
  type : String
  source : String := "close"
  /-- `None`, or an integer. -/
  window : Json := .null
  shift : ℤ := 0
  rawExpr : Option Json := none

/-- `_ROLLING_TYPES`. -/
def rollingTypes : List String := ["rolling_max", "rolling_min", "rolling_mean", "rolling_std"]

/-- `_SUPPORTED_TYPES`. -/
def supportedTypes : List String :=
  rollingTypes ++ ["body_pct", "range_pct", "typical_price", "ohlc4"] ++ ["shift", "formula"]

variable (env : ParserEnvironment)

/-- `_name_invalid`. -/
def nameInvalid (path name : String) (used : List String) : Checked Bool :=
  if name = "" then do
    report path { template := "feature name is required" }
    return true
  else if name ∈ used ∨ name ∈ ohlcvFields then do
    report path { template := "feature name must be unique and not reserved" }
    return true
  else pure false

/-- `_resolve_source`. -/
def resolveSource (path name : String) (aliases : OrderedDict String String) :
    Checked String :=
  match aliases.get name with
  | some column => pure column
  | none =>
      if name ∈ ohlcvFields ∨ env.catalog.supportsConcrete name = true then pure name
      else do
        report path { template := "unknown feature source '%'", args := [.text name] }
        return name

/-- `_window_invalid`. -/
def windowInvalid (path featureType : String) (window : Json) : Checked Bool :=
  if featureType ∉ rollingTypes then pure false
  else
    match window with
    | .int n =>
        if 1 ≤ n then pure false
        else do
          report path { template := "window must resolve to a positive integer" }
          return true
    | _ => do
        report path { template := "window must resolve to a positive integer" }
        return true

/-- The formula branch of `_parse_one`. -/
def parseFormula (params : ResolvedParams) (path name featureType : String)
    (item : List (String × Json)) : Checked (Option FeatureSpec) :=
  let rawExpr := (Json.get item "expression").orElse (Json.get item "expr")
  if rawExpr.isNull then do
    report path
      { template := "formula feature must declare 'expression' or 'expr' with an expression tree (note: 'formula' is the feature TYPE, not the key for the expression). Example: expr: %"
        args := [.text "op: '/', left: atr, right: close"] }
    return none
  else do
    let rawExpr ← resolveExprParams params (path ++ ".expr") rawExpr
    return some { name := name, type := featureType, rawExpr := some rawExpr }

/-- The other branch of `_parse_one`. -/
def parseDerived (params : ResolvedParams) (aliases : OrderedDict String String)
    (path name featureType : String) (item : List (String × Json)) :
    Checked (Option FeatureSpec) := do
  let source ← resolveSource env (path ++ ".source") (env.textOf item "source" "close") aliases
  let window ← resolveExpression params (path ++ ".window") (Json.get item "window")
  let shift ← resolveExpression params (path ++ ".shift") (Json.getD item "shift" (.int 0))
  if ← windowInvalid (path ++ ".window") featureType window then return none
  else
    match shift with
    | .int shift =>
        if shift < 0 then do
          report (path ++ ".shift") { template := "shift must be a non-negative integer" }
          return none
        else
          return some
            { name := name
              type := featureType
              source := source
              window := if window.isInt then window else .null
              shift := shift }
    | _ => do
        report (path ++ ".shift") { template := "shift must be a non-negative integer" }
        return none

/-- `_parse_one` of the features. -/
def parseFeature (params : ResolvedParams) (aliases : OrderedDict String String)
    (path : String) (used : List String) : Json → Checked (Option FeatureSpec)
  | .dict item => do
      let name := stripped (env.textOf item "name" "")
      let featureType := stripped (lower (env.textOf item "type" ""))
      if ← nameInvalid (path ++ ".name") name used then return none
      else if featureType ∉ supportedTypes then do
        report (path ++ ".type")
          { template := "unsupported feature type '%'", args := [.text featureType] }
        return none
      else if featureType = "formula" then parseFormula params path name featureType item
      else parseDerived env params aliases path name featureType item
  | _ => do
      report path { template := "feature spec must be an object" }
      return none

/-- Add one feature; names of indicators and of features are taken. -/
def addFeature (params : ResolvedParams) (aliases : OrderedDict String String)
    (features : List FeatureSpec) (entry : Json × ℕ) : Checked (List FeatureSpec) := do
  match ← parseFeature env params aliases (indexed "$.features" entry.2)
    (aliases.keys ++ features.map FeatureSpec.name) entry.1 with
  | none => return features
  | some feature => return features ++ [feature]

/-- `StrategyFeatureResolver.parse`. -/
def parseFeatures (params : ResolvedParams) (indicators : List IndicatorSpec) :
    Json → Checked (List FeatureSpec)
  | .null => pure []
  | .list items =>
      items.zipIdx.foldlM (addFeature env params (aliasColumns indicators)) []
  | _ => do
      report "$.features" { template := "features must be an array" }
      return []

end Finbar.Parser
