/-
Finbar.Parser.Conditions — the sides of a definition: operands
(`StrategyOperandParser`), condition groups (`StrategyConditionGroupParser`)
and the entry and exit trees (`StrategyConditionParser`).

The trees here keep the values of operands as documents; `evaluated` forgets
what the evaluator does not see.

No `sorry`, no `axiom`.
-/
import Finbar.Parser.Features
import Finbar.Evaluation.Strategy

namespace Finbar.Parser

open Lib Lib.Python Finbar.Evaluation

/-! ## §1 Trees -/

/-- `Operand`, with its value as it was written. -/
structure Operand where
  kind : OperandKind
  value : Json
  label : String := ""
  sources : List String := []

/-- `Condition`. -/
structure Condition where
  left : Operand
  operator : ConditionOperator
  right : Option Operand := none

/-- `ConditionGroup`. -/
inductive ConditionGroup where
  | all (children : List ConditionGroup)
  | any (children : List ConditionGroup)
  | not (children : List ConditionGroup)
  | condition (condition : Condition)

/-- `SideRules`: the confidences keep their defaults. -/
structure SideRules where
  entry : ConditionGroup
  exit : Option ConditionGroup := none

/-! ## §2 What the evaluator sees -/

/-- An operand, without the difference between integers and floats. -/
def Operand.evaluated (operand : Operand) : Evaluation.Operand where
  kind := operand.kind
  value := operand.value.toValue
  label := operand.label
  sources := operand.sources

def Condition.evaluated (condition : Condition) : Evaluation.Condition where
  left := condition.left.evaluated
  operator := condition.operator
  right := condition.right.map Operand.evaluated

mutual

def ConditionGroup.evaluated : ConditionGroup → Evaluation.ConditionGroup
  | .all children => .all (evaluatedGroups children)
  | .any children => .any (evaluatedGroups children)
  | .not children => .not (evaluatedGroups children)
  | .condition condition => .condition (some condition.evaluated)

def evaluatedGroups : List ConditionGroup → List Evaluation.ConditionGroup
  | [] => []
  | child :: children => child.evaluated :: evaluatedGroups children

end

def SideRules.evaluated (rules : SideRules) : Evaluation.SideRules where
  entry := rules.entry.evaluated
  exit := rules.exit.map ConditionGroup.evaluated

/-! ## §3 Operands -/

variable (env : ParserEnvironment)

/-- The names an operand may use: `aliases`, `sources_map` and
`feature_aliases`. -/
structure OperandNames where
  aliases : OrderedDict String String
  sourcesMap : OrderedDict String (List String)
  features : List String

/-- The names that indicators and features declare. -/
def operandNames (indicators : List IndicatorSpec) (features : List FeatureSpec) :
    OperandNames where
  aliases := aliasColumns indicators
  sourcesMap := OrderedDict.assignAll {}
    ((indicators.filter fun item => !item.sources.isEmpty).map fun item =>
      (item.columnName, item.sources))
  features := features.map FeatureSpec.name

/-- `_parse_named`. -/
def parseNamed (names : OperandNames) (path value : String) : Checked Operand :=
  match names.aliases.get value with
  | some resolved =>
      pure
        { kind := .indicator
          value := .str resolved
          label := value
          sources := (names.sourcesMap.get resolved).getD [] }
  | none =>
      if value ∈ names.features then
        pure { kind := .feature, value := .str value, label := value }
      else if value ∈ ohlcvFields then
        pure { kind := .field, value := .str value, label := value }
      else if env.catalog.supportsConcrete value then
        pure { kind := .column, value := .str value, label := value }
      else do
        reportAs path { template := "unknown operand '%'", args := [.text value] }
          "unknown_operand"
        return { kind := .literal, value := .int 0, label := value }

/-- `StrategyOperandParser.parse`. -/
def parseOperand (names : OperandNames) (params : ResolvedParams) (path : String)
    (raw : Json) : Checked Operand := do
  let value ← resolveExpression params path raw
  if value.isNumber || value.isList then
    return { kind := .literal, value := value, label := raw.toStr env.strOf }
  else
    match value with
    | .str name => parseNamed env names path name
    | _ => do
        report path { template := "operand is required" }
        return { kind := .literal, value := .int 0, label := raw.toStr env.strOf }

/-! ## §4 Groups -/

/-- `_parse_condition`. An operator that is not supported is reported; it
stands as `exists` afterwards, whose right side is not parsed either. -/
def parseCondition (names : OperandNames) (params : ResolvedParams) (path : String)
    (raw : List (String × Json)) : Checked Condition := do
  let text := stripped (env.textOf raw "operator" "")
  let operator := (operatorOf text).getD .exists
  if (operatorOf text).isNone then
    report (path ++ ".operator")
      { template := "unsupported operator '%'", args := [.text text] }
  let left ← parseOperand env names params (path ++ ".left") (Json.get raw "left")
  if operator ∈ binaryOperators then do
    let right ← parseOperand env names params (path ++ ".right") (Json.get raw "right")
    return { left := left, operator := operator, right := some right }
  else return { left := left, operator := operator }

mutual

/-- `StrategyConditionGroupParser.parse`. -/
def parseGroup (names : OperandNames) (params : ResolvedParams) (path : String) :
    Json → Checked ConditionGroup
  | .dict raw =>
      match childrenUnder names params path "all" raw with
      | some children => do return .all (← children)
      | none =>
          match childrenUnder names params path "any" raw with
          | some children => do return .any (← children)
          | none =>
              match groupUnder names params (path ++ ".not") "not" raw with
              | some child => do return .not [← child]
              | none => do return .condition (← parseCondition env names params path raw)
  | _ => do
      report path { template := "condition must be an object" }
      return .all []

/-- `parse(raw[key])`, if there is such a key. -/
def groupUnder (names : OperandNames) (params : ResolvedParams) (path key : String) :
    List (String × Json) → Option (Checked ConditionGroup)
  | [] => none
  | (name, value) :: raw =>
      if name = key then some (parseGroup names params path value)
      else groupUnder names params path key raw

/-- `_parse_children` on `raw[kind]`, if there is such a key. -/
def childrenUnder (names : OperandNames) (params : ResolvedParams) (path kind : String) :
    List (String × Json) → Option (Checked (List ConditionGroup))
  | [] => none
  | (name, value) :: raw =>
      if name = kind then some (parseChildren names params (path ++ "." ++ kind) kind value)
      else childrenUnder names params path kind raw

/-- `_parse_children`. -/
def parseChildren (names : OperandNames) (params : ResolvedParams) (path kind : String) :
    Json → Checked (List ConditionGroup)
  | .list (child :: children) => parseGroups names params path 0 (child :: children)
  | _ => do
      report path { template := "% must be a non-empty array", args := [.text kind] }
      return []

/-- The children from an index on. -/
def parseGroups (names : OperandNames) (params : ResolvedParams) (path : String)
    (index : ℕ) : List Json → Checked (List ConditionGroup)
  | [] => pure []
  | child :: children => do
      let group ← parseGroup names params (indexed path index) child
      let groups ← parseGroups names params path (index + 1) children
      return group :: groups

end

theorem groupUnder_eq (names : OperandNames) (params : ResolvedParams) (path key : String)
    (raw : List (String × Json)) :
    groupUnder env names params path key raw =
      (raw.lookup key).map (parseGroup env names params path) := by
  rw [walk_eq_lookup (groupUnder env names params path key)
    (fun value => some (parseGroup env names params path value)) none key
    (by rw [groupUnder]) (fun name value raw => by rw [groupUnder])]
  cases raw.lookup key <;> rfl

theorem childrenUnder_eq (names : OperandNames) (params : ResolvedParams)
    (path kind : String) (raw : List (String × Json)) :
    childrenUnder env names params path kind raw =
      (raw.lookup kind).map (parseChildren env names params (path ++ "." ++ kind) kind) := by
  rw [walk_eq_lookup (childrenUnder env names params path kind)
    (fun value => some (parseChildren env names params (path ++ "." ++ kind) kind value))
    none kind (by rw [childrenUnder]) (fun name value raw => by rw [childrenUnder])]
  cases raw.lookup kind <;> rfl

/-! ## §5 Sides -/

/-- `_parse_entry`. -/
def parseEntry (names : OperandNames) (params : ResolvedParams) (path : String)
    (spec : List (String × Json)) : Checked (Option ConditionGroup) :=
  let raw := extractCondition (Json.get spec "entry")
  if raw.isNull then do
    report (path ++ ".entry.condition") { template := "entry condition is required" }
    return none
  else do return some (← parseGroup env names params (path ++ ".entry.condition") raw)

/-- `_parse_exit_group`. -/
def parseExitGroup (names : OperandNames) (params : ResolvedParams) (path : String)
    (spec : List (String × Json)) : Checked (Option ConditionGroup) :=
  let raw := extractCondition (Json.get spec "exit")
  if raw.isNull then pure none
  else do return some (← parseGroup env names params (path ++ ".exit.condition") raw)

/-- `_parse_side`. -/
def parseSide (names : OperandNames) (params : ResolvedParams) (side : String)
    (spec : Json) : Checked (Option SideRules) :=
  let path := "$.sides." ++ side
  match spec with
  | .dict spec =>
      if side = "long" ∨ side = "short" then do
        match ← parseEntry env names params path spec with
        | none => return none
        | some entry =>
            let exit ← parseExitGroup env names params path spec
            return some { entry := entry, exit := exit }
      else do
        report path { template := "side must be long/short object" }
        return none
  | _ => do
      report path { template := "side must be long/short object" }
      return none

/-- The parsed sides by name. -/
abbrev Sides := OrderedDict String SideRules

/-- Add one side. -/
def addSide (names : OperandNames) (params : ResolvedParams) (sides : Sides)
    (entry : String × Json) : Checked Sides := do
  match ← parseSide env names params entry.1 entry.2 with
  | none => return sides
  | some rules => return sides.assign entry.1 rules

/-- `parse_sides`. -/
def parseSides (names : OperandNames) (params : ResolvedParams) (raw : Json) :
    Checked Sides :=
  match raw with
  | .dict (entry :: entries) => (entry :: entries).foldlM (addSide env names params) {}
  | _ => do
      report "$.sides" { template := "sides must define at least one of long or short" }
      return {}

end Finbar.Parser
