/-
Finbar.Parser.Collector — the bar columns a strategy needs
(`RequiredColumnCollector`).

No `sorry`, no `axiom`.
-/
import Finbar.Parser.Conditions

namespace Finbar.Parser

open Lib Lib.Python Finbar.Evaluation

/-! ## §1 Formula expressions -/

/-- `text.lstrip("-").replace(".", "").isdigit()`. Only ASCII digits are taken for digits here;
`str.isdigit` takes those of every script and the superscripts. -/
def isNumeral (text : String) : Bool :=
  let digits := (text.toList.dropWhile (· = '-')).filter (· ≠ '.')
  !digits.isEmpty && digits.all Char.isDigit

/-- What a string under `left`, `right` or `operand` adds. -/
def sideColumns (text : String) : List String :=
  if isNumeral text then [] else [text]

/-- What a string among the `children` adds. -/
def childColumns (text : String) : List String := [text]

mutual

/-- The columns that a value adds where a string adds `ofText`: the recursion
of `_collect_formula_expr_columns`. `none` is the `TypeError` of iterating over
`children` that are no collection. -/
def placedColumns (ofText : String → List String) : Json → Option (List String)
  | .str text => some (ofText text)
  | .dict expr => do
      let left ← columnsUnder "left" expr
      let right ← columnsUnder "right" expr
      let operand ← columnsUnder "operand" expr
      let children ← childrenColumns expr
      return left ++ right ++ operand ++ children
  | _ => some []

/-- The columns of `expr.get(key)`. -/
def columnsUnder (key : String) : List (String × Json) → Option (List String)
  | [] => some []
  | (name, value) :: expr =>
      if name = key then placedColumns sideColumns value else columnsUnder key expr

/-- The columns of `expr.get("children", [])`. -/
def childrenColumns : List (String × Json) → Option (List String)
  | [] => some []
  | (name, value) :: expr =>
      if name = "children" then iteratedColumns value else childrenColumns expr

/-- The columns of what iterating over a value yields. -/
def iteratedColumns : Json → Option (List String)
  | .list items => itemColumns items
  | .str text => some (text.toList.map String.singleton)
  | .dict entries => some (entries.map Prod.fst)
  | _ => none

/-- The columns of the items of a list. -/
def itemColumns : List Json → Option (List String)
  | [] => some []
  | item :: items => do
      let columns ← placedColumns childColumns item
      let rest ← itemColumns items
      return columns ++ rest

end

/-- `_collect_formula_expr_columns`. -/
def collectFormulaExprColumns (expr : Json) : Option (List String) :=
  placedColumns (fun _ => []) expr

theorem columnsUnder_eq (key : String) (expr : List (String × Json)) :
    columnsUnder key expr =
      ((expr.lookup key).map (placedColumns sideColumns)).getD (some []) :=
  walk_eq_lookup (columnsUnder key) (placedColumns sideColumns) (some []) key
    (by rw [columnsUnder]) (fun name value expr => by rw [columnsUnder]) expr

theorem childrenColumns_eq (expr : List (String × Json)) :
    childrenColumns expr = ((expr.lookup "children").map iteratedColumns).getD (some []) :=
  walk_eq_lookup childrenColumns iteratedColumns (some []) "children"
    (by rw [childrenColumns]) (fun name value expr => by rw [childrenColumns]) expr

/-! ## §2 Definitions -/

/-- `StrategyDefinition`. -/
structure StrategyDefinition where
  name : String
  sides : Sides
  description : String := ""
  parameters : Parameters := {}
  resolvedParams : ResolvedParams := {}
  indicators : List IndicatorSpec := []
  features : List FeatureSpec := []
  timeframes : Option TimeframeDeclaration := none
  risk : Option RiskSpec := none
  metadata : List (String × Json) := []

/-- What the strategy created from a definition evaluates. -/
def StrategyDefinition.evaluated (definition : StrategyDefinition) :
    Evaluation.StrategyDefinition where
  sides := definition.sides.items.map fun side => (side.1, side.2.evaluated)
  risk := definition.risk

/-- The operands of a condition, as the visitor meets them. -/
def Condition.operands (condition : Condition) : List Operand :=
  condition.left :: condition.right.toList

mutual

/-- The conditions of a tree, as the visitor meets them. -/
def ConditionGroup.conditions : ConditionGroup → List Condition
  | .all children => groupConditions children
  | .any children => groupConditions children
  | .not children => groupConditions children
  | .condition condition => [condition]

def groupConditions : List ConditionGroup → List Condition
  | [] => []
  | child :: children => child.conditions ++ groupConditions children

end

/-- The conditions of the entry and exit trees of a side. -/
def SideRules.conditions (rules : SideRules) : List Condition :=
  rules.entry.conditions ++ (rules.exit.map ConditionGroup.conditions).getD []

/-- The conditions of all trees of a definition. -/
def StrategyDefinition.conditions (definition : StrategyDefinition) : List Condition :=
  definition.sides.items.flatMap fun side => side.2.conditions

/-- The operands of all trees of a definition. -/
def StrategyDefinition.operands (definition : StrategyDefinition) : List Operand :=
  definition.conditions.flatMap Condition.operands

/-! ## §3 `collect` -/

variable (env : ParserEnvironment)

/-- `_ENGINE_REQUIRED_COLUMNS`. -/
def engineRequiredColumns : List String := ["open", "high", "low", "close"]

/-- `_add_operand`. -/
def operandColumns (operand : Operand) : List String :=
  if operand.kind.isColumn then [operand.value.toStr env.strOf] else []

/-- `_add_risk_columns`. -/
def riskColumns : Option RiskSpec → List String
  | none => []
  | some risk =>
      (if risk.stopLossType = .atr ∧ risk.stopIndicator ≠ "" then [risk.stopIndicator]
        else []) ++
      (if risk.takeProfitType = .atr ∧ risk.takeProfitIndicator ≠ "" then
        [risk.takeProfitIndicator] else [])

/-- The columns of one feature. -/
def featureColumns (feature : FeatureSpec) : Option (List String) :=
  match feature.rawExpr with
  | none => some []
  | some expr =>
      if feature.type = "formula" then collectFormulaExprColumns expr else some []

/-- `_add_formula_columns`. -/
def formulaColumns : List FeatureSpec → Option (List String)
  | [] => some []
  | feature :: features => do
      let columns ← featureColumns feature
      let rest ← formulaColumns features
      return columns ++ rest

/-- `_add`. -/
def addColumn (columns : List String) (column : String) : List String :=
  if column ∈ columns then columns else columns ++ [column]

/-- `RequiredColumnCollector.collect`. -/
def requiredColumns (definition : StrategyDefinition) : Option (List String) := do
  let formulas ← formulaColumns definition.features
  return (engineRequiredColumns ++ definition.operands.flatMap (operandColumns env) ++
    riskColumns definition.risk ++ formulas).foldl addColumn []

theorem mem_foldl_addColumn {columns found : List String} {column : String} :
    column ∈ columns.foldl addColumn found ↔ column ∈ found ∨ column ∈ columns := by
  induction columns generalizing found with
  | nil => simp
  | cons head columns ih =>
      have hadd : column ∈ addColumn found head ↔ column ∈ found ∨ column = head := by
        by_cases hmem : head ∈ found
        · have : column = head → column ∈ found := fun h => h ▸ hmem
          simp [addColumn, hmem]
          tauto
        · simp [addColumn, hmem]
      simp [ih, hadd, or_assoc]

/-- The columns that `collect` returns. -/
theorem mem_requiredColumns {definition : StrategyDefinition} {columns : List String}
    (h : requiredColumns env definition = some columns) {column : String} :
    column ∈ columns ↔
      column ∈ engineRequiredColumns ∨
      (∃ operand ∈ definition.operands, column ∈ operandColumns env operand) ∨
      column ∈ riskColumns definition.risk ∨
      ∃ formulas, formulaColumns definition.features = some formulas ∧ column ∈ formulas := by
  unfold requiredColumns at h
  cases hformulas : formulaColumns definition.features with
  | none => simp [hformulas] at h
  | some formulas =>
      simp only [hformulas, Option.bind_eq_bind, Option.bind_some, Option.pure_def,
        Option.some.injEq] at h
      subst h
      simp [mem_foldl_addColumn, or_assoc]

end Finbar.Parser
