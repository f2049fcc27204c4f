/-
Finbar.Parser.Reread — a definition after it is serialized and parsed again.

The serializer writes the value of an operand, not its label; it writes no
sources of a fallback, no expression of a formula, no percentage, no ratio and
no symbol. `Rereadable` says that a definition needs none of these, and that
what is written names itself. Then `reread` is the definition that comes back.

No `sorry`, no `axiom`.
-/
import Finbar.Parser.Definition
import Finbar.Evaluation.CrossoverTheorems

namespace Finbar.Parser

open Lib Lib.Python Finbar.Evaluation

/-! ## §1 Values -/

mutual

/-- No text in the value is a parameter reference. -/
def referenceFree : Json → Bool
  | .list items => referenceFreeItems items
  | .str text => (paramName text).isNone
  | _ => true

def referenceFreeItems : List Json → Bool
  | [] => true
  | item :: items => referenceFree item && referenceFreeItems items

end

mutual

/-- Resolving a value without references changes nothing. -/
theorem resolveExpression_of_referenceFree {params : ResolvedParams} {path : String} :
    ∀ {value : Json}, referenceFree value = true →
      resolveExpression params path value = pure value
  | .list items, h => by
      rw [referenceFree] at h
      rw [resolveExpression, resolveExpressions_of_referenceFree h]
      rfl
  | .str text, h => by
      rw [referenceFree, Option.isNone_iff_eq_none] at h
      rw [resolveExpression, resolveText]
      simp only [h]
  | .null, _ => rfl
  | .bool _, _ => rfl
  | .int _, _ => rfl
  | .float _, _ => rfl
  | .dict _, _ => rfl

theorem resolveExpressions_of_referenceFree {params : ResolvedParams} {path : String} :
    ∀ {items : List Json}, referenceFreeItems items = true →
      resolveExpressions params path items = pure items
  | [], _ => rfl
  | item :: items, h => by
      rw [referenceFreeItems, Bool.and_eq_true] at h
      rw [resolveExpressions, resolveExpression_of_referenceFree h.1,
        resolveExpressions_of_referenceFree h.2]
      rfl

end

/-! ## §2 Operands -/

variable (env : ParserEnvironment)

/-- The kind of operand that a name is parsed to. -/
def OperandNames.kindOf (names : OperandNames) (name : String) : OperandKind :=
  if (names.aliases.get name).isSome then .indicator
  else if name ∈ names.features then .feature
  else if name ∈ ohlcvFields then .field
  else .column

/-- The operand that is parsed from the value of an operand. -/
def Operand.reread (names : OperandNames) (operand : Operand) : Operand where
  kind :=
    match operand.value with
    | .str name => names.kindOf name
    | _ => .literal
  value := operand.value
  label := operand.value.toStr env.strOf

def Condition.reread (names : OperandNames) (condition : Condition) : Condition where
  left := condition.left.reread env names
  operator := condition.operator
  right := condition.right.map (Operand.reread env names)

/-! ## §3 Trees -/

mutual

/-- The tree with other conditions. -/
def ConditionGroup.mapConditions (f : Condition → Condition) : ConditionGroup → ConditionGroup
  | .all children => .all (mapGroups f children)
  | .any children => .any (mapGroups f children)
  | .not children => .not (mapGroups f children)
  | .condition condition => .condition (f condition)

def mapGroups (f : Condition → Condition) : List ConditionGroup → List ConditionGroup
  | [] => []
  | child :: children => child.mapConditions f :: mapGroups f children

end

mutual

/-- There is no `not` in the tree. -/
def ConditionGroup.negationFree : ConditionGroup → Bool
  | .all children => negationFreeGroups children
  | .any children => negationFreeGroups children
  | .not _ => false
  | .condition _ => true

def negationFreeGroups : List ConditionGroup → Bool
  | [] => true
  | child :: children => child.negationFree && negationFreeGroups children

end

mutual

/-- Every `all` and every `any` has children. -/
def ConditionGroup.populated : ConditionGroup → Bool
  | .all children => !children.isEmpty && populatedGroups children
  | .any children => !children.isEmpty && populatedGroups children
  | .not children => populatedGroups children
  | .condition _ => true

def populatedGroups : List ConditionGroup → Bool
  | [] => true
  | child :: children => child.populated && populatedGroups children

end

/-- The trees of a side. -/
def SideRules.trees (rules : SideRules) : List ConditionGroup :=
  rules.entry :: rules.exit.toList

/-- The trees of a definition. -/
def StrategyDefinition.trees (definition : StrategyDefinition) : List ConditionGroup :=
  definition.sides.items.flatMap fun side => side.2.trees

/-- The side with other conditions. -/
def SideRules.mapConditions (f : Condition → Condition) (rules : SideRules) : SideRules where
  entry := rules.entry.mapConditions f
  exit := rules.exit.map (ConditionGroup.mapConditions f)

/-! ## §4 Definitions -/

/-- The risk settings without what is not written. -/
def writtenRisk (risk : RiskSpec) : RiskSpec :=
  { risk with stopPct := .fin 0, takeProfitPct := .fin 0, riskRewardRatio := .fin 0 }

/-- The names that the operands of a definition may use. -/
def StrategyDefinition.names (definition : StrategyDefinition) : OperandNames :=
  operandNames definition.indicators definition.features

/-- The definition that is parsed from a serialized one. -/
def StrategyDefinition.reread (definition : StrategyDefinition) : StrategyDefinition :=
  { definition with
    sides := definition.sides.mapValues
      (SideRules.mapConditions (Condition.reread env definition.names))
    resolvedParams := defaultParams definition.parameters
    risk := definition.risk.map writtenRisk }

/-! ## §5 What comes back as it was -/

/-- Looking a name up finds the name itself, or nothing although it is known. -/
def NamesItself (found : Option String) (known : Prop) (name : String) : Prop :=
  found = some name ∨ (found = none ∧ known)

instance (found : Option String) (known : Prop) [Decidable known] (name : String) :
    Decidable (NamesItself found known name) :=
  inferInstanceAs (Decidable (_ ∨ _))

/-- The value of an operand is a literal, or a name for itself; no reference is
left in it. -/
structure RereadableOperand (names : OperandNames) (operand : Operand) : Prop where
  resolved : referenceFree operand.value = true
  named : ∀ name, operand.value = .str name →
    NamesItself (names.aliases.get name)
      (name ∈ names.features ∨ name ∈ ohlcvFields ∨ env.catalog.supportsConcrete name = true)
      name

instance decidableNamed (P : String → Prop) [DecidablePred P] :
    (value : Json) → Decidable (∀ name, value = .str name → P name)
  | .str name => decidable_of_iff (P name)
      ⟨fun h _ hname => Json.str.inj hname ▸ h, fun h => h name rfl⟩
  | .null => .isTrue (by simp)
  | .bool _ => .isTrue (by simp)
  | .int _ => .isTrue (by simp)
  | .float _ => .isTrue (by simp)
  | .list _ => .isTrue (by simp)
  | .dict _ => .isTrue (by simp)

instance (names : OperandNames) (operand : Operand) :
    Decidable (RereadableOperand env names operand) :=
  decidable_of_iff (referenceFree operand.value = true ∧
    ∀ name, operand.value = .str name → NamesItself (names.aliases.get name)
      (name ∈ names.features ∨ name ∈ ohlcvFields ∨ env.catalog.supportsConcrete name = true)
      name) ⟨fun h => ⟨h.1, h.2⟩, fun h => ⟨h.resolved, h.named⟩⟩

/-- What an ATR setting finds under a name, before it asks the catalog. -/
def atrColumn (aliases : OrderedDict String String) (name : String) : Option String :=
  (aliases.get name).or (if name = "atr" then defaultAtrColumn env aliases else none)

/-- No stop or target is a percentage or a ratio, and the ATR columns name
themselves. -/
structure RereadableRisk (aliases : OrderedDict String String) (risk : RiskSpec) : Prop where
  stopLossType : risk.stopLossType ≠ .fixedPct
  takeProfitType : risk.takeProfitType ≠ .fixedPct ∧ risk.takeProfitType ≠ .riskReward
  stopIndicator : risk.stopLossType = .atr →
    NamesItself (atrColumn env aliases risk.stopIndicator)
      (env.catalog.supportsConcrete risk.stopIndicator = true) risk.stopIndicator
  takeProfitIndicator : risk.takeProfitType = .atr →
    NamesItself (atrColumn env aliases risk.takeProfitIndicator)
      (env.catalog.supportsConcrete risk.takeProfitIndicator = true) risk.takeProfitIndicator

/-- The key of a crossover after its values are written and read again. -/
def Condition.writtenKey (condition : Condition) : String :=
  crossoverKey (condition.left.value.toStr env.strOf)
    ((condition.right.map fun operand => operand.value.toStr env.strOf).getD "")
    condition.operator.value

/-- **What the serializer preserves.** -/
structure Rereadable (definition : StrategyDefinition) : Prop where
  negations : ∀ group ∈ definition.trees, group.negationFree = true
  symbols : ∀ timeframes, definition.timeframes = some timeframes →
    ∀ item ∈ timeframes.informative, item.symbol = ""
  indicators : ∀ item ∈ definition.indicators,
    item.type ≠ "fallback" ∧ referenceFree item.period = true
  features : ∀ feature ∈ definition.features, feature.type ≠ "formula" ∧
    NamesItself ((aliasColumns definition.indicators).get feature.source)
      (feature.source ∈ ohlcvFields ∨ env.catalog.supportsConcrete feature.source = true)
      feature.source
  risk : ∀ risk, definition.risk = some risk →
    RereadableRisk env (aliasColumns definition.indicators) risk
  operands : ∀ operand ∈ definition.operands, RereadableOperand env definition.names operand
  crossovers : ∀ c ∈ definition.conditions, ∀ d ∈ definition.conditions,
    c.operator.isCrossover = true → d.operator.isCrossover = true →
    (c.evaluated.key = d.evaluated.key ↔ c.writtenKey env = d.writtenKey env) ∨
      ∀ bar, c.evaluated.pair bar = d.evaluated.pair bar

end Finbar.Parser
