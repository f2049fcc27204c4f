/-
Finbar.Parser.RereadTheorems — the meaning of a definition that is serialized
and parsed again.

The reread definition has the limits, the columns and the document of the first
(§1), and it is related to the first by a relabelling (§2), so that its signals
are the same (`roundtrip_signals`).

No `sorry`, no `axiom`.
-/
import Finbar.Parser.RoundTripTheorems
import Finbar.Parser.RequiredColumnTheorems
import Finbar.Evaluation.Relabelling

namespace Finbar.Parser

open Lib Lib.Python Finbar.Evaluation Checked

variable {env : ParserEnvironment}

/-! ## §1 What the reread definition keeps -/

section Maps

variable {f : Condition → Condition}

mutual

@[simp] theorem conditionDepth_mapConditions :
    ∀ group : ConditionGroup, conditionDepth (group.mapConditions f) = conditionDepth group
  | .all children => by
      rw [ConditionGroup.mapConditions, conditionDepth, conditionDepth, maxDepth_mapGroups]
  | .any children => by
      rw [ConditionGroup.mapConditions, conditionDepth, conditionDepth, maxDepth_mapGroups]
  | .not children => by
      rw [ConditionGroup.mapConditions, conditionDepth, conditionDepth, maxDepth_mapGroups]
  | .condition _ => rfl

theorem maxDepth_mapGroups :
    ∀ children : List ConditionGroup, maxDepth (mapGroups f children) = maxDepth children
  | [] => rfl
  | child :: children => by
      rw [mapGroups, maxDepth, maxDepth, conditionDepth_mapConditions, maxDepth_mapGroups]

end

mutual

@[simp] theorem conditions_mapConditions :
    ∀ group : ConditionGroup, (group.mapConditions f).conditions = group.conditions.map f
  | .all children => groupConditions_mapGroups children
  | .any children => groupConditions_mapGroups children
  | .not children => groupConditions_mapGroups children
  | .condition _ => rfl

theorem groupConditions_mapGroups :
    ∀ children : List ConditionGroup,
      groupConditions (mapGroups f children) = (groupConditions children).map f
  | [] => rfl
  | child :: children => by
      rw [mapGroups, groupConditions, groupConditions, conditions_mapConditions,
        groupConditions_mapGroups, List.map_append]

end

mutual

@[simp] theorem negationFree_mapConditions :
    ∀ group : ConditionGroup, (group.mapConditions f).negationFree = group.negationFree
  | .all children => negationFreeGroups_mapGroups children
  | .any children => negationFreeGroups_mapGroups children
  | .not _ => rfl
  | .condition _ => rfl

theorem negationFreeGroups_mapGroups :
    ∀ children : List ConditionGroup,
      negationFreeGroups (mapGroups f children) = negationFreeGroups children
  | [] => rfl
  | child :: children => by
      rw [mapGroups, negationFreeGroups, negationFreeGroups, negationFree_mapConditions,
        negationFreeGroups_mapGroups]

end

mutual

theorem document_mapConditions (hf : ∀ c, serializeCondition (f c) = serializeCondition c) :
    ∀ group : ConditionGroup, (group.mapConditions f).document = group.document
  | .all children => by
      rw [ConditionGroup.mapConditions, ConditionGroup.document, ConditionGroup.document,
        documents_mapGroups hf]
  | .any children => by
      rw [ConditionGroup.mapConditions, ConditionGroup.document, ConditionGroup.document,
        documents_mapGroups hf]
  | .not _ => rfl
  | .condition c => hf c

theorem documents_mapGroups (hf : ∀ c, serializeCondition (f c) = serializeCondition c) :
    ∀ children : List ConditionGroup, documents (mapGroups f children) = documents children
  | [] => rfl
  | child :: children => by
      rw [mapGroups, documents, documents, document_mapConditions hf, documents_mapGroups hf]

end

end Maps

section Reread

variable {definition : StrategyDefinition}

theorem serializeCondition_reread (names : OperandNames) (condition : Condition) :
    serializeCondition (condition.reread env names) = serializeCondition condition := by
  obtain ⟨left, operator, right⟩ := condition
  cases right <;> rfl

/-- The conditions of the reread definition. -/
theorem conditions_reread :
    (definition.reread env).conditions =
      definition.conditions.map (Condition.reread env definition.names) := by
  unfold StrategyDefinition.conditions
  simp only [StrategyDefinition.reread, OrderedDict.mapValues, List.flatMap_map,
    List.map_flatMap]
  congr 1
  funext side
  obtain ⟨name, entry, exit⟩ := side
  cases exit with
  | none => simp [SideRules.conditions, SideRules.mapConditions]
  | some exit => simp [SideRules.conditions, SideRules.mapConditions]

theorem trees_reread :
    (definition.reread env).trees = definition.trees.map
      (ConditionGroup.mapConditions (Condition.reread env definition.names)) := by
  unfold StrategyDefinition.trees
  simp only [StrategyDefinition.reread, OrderedDict.mapValues, List.flatMap_map,
    List.map_flatMap]
  congr 1
  funext side
  obtain ⟨name, entry, exit⟩ := side
  cases exit with
  | none => simp [SideRules.trees, SideRules.mapConditions]
  | some exit => simp [SideRules.trees, SideRules.mapConditions]

/-- The limits are the same. -/
theorem limitErrors_reread : limitErrors (definition.reread env) = limitErrors definition := by
  have hsides : maxConditionDepthLimit (definition.reread env).sides =
      maxConditionDepthLimit definition.sides := by
    unfold maxConditionDepthLimit
    simp only [StrategyDefinition.reread, OrderedDict.mapValues, List.findSome?_map]
    congr 2
    funext side
    obtain ⟨name, entry, exit⟩ := side
    cases exit with
    | none => simp [checkSide, SideRules.mapConditions, depthError]
    | some exit => simp [checkSide, SideRules.mapConditions, depthError]
  unfold limitErrors
  rw [hsides]
  rfl

/-- The operands of the reread definition. -/
theorem operands_reread :
    (definition.reread env).operands =
      definition.operands.map (Operand.reread env definition.names) := by
  unfold StrategyDefinition.operands
  rw [conditions_reread, List.flatMap_map, List.map_flatMap]
  congr 1
  funext condition
  obtain ⟨left, operator, right⟩ := condition
  cases right <;> rfl

/-- The operands name the same columns. -/
theorem requiredColumns_reread {params : ResolvedParams}
    (h : ∀ operand ∈ definition.operands, ParsedOperand env definition.names params operand) :
    requiredColumns env (definition.reread env) = requiredColumns env definition := by
  have hoperands : (definition.reread env).operands.flatMap (operandColumns env) =
      definition.operands.flatMap (operandColumns env) := by
    rw [operands_reread, List.flatMap_map]
    refine List.flatMap_congr fun operand hoperand => ?_
    unfold operandColumns
    rw [isColumn_reread (h operand hoperand)]
    rfl
  have hrisk : riskColumns (definition.reread env).risk = riskColumns definition.risk := by
    simp only [StrategyDefinition.reread]
    cases definition.risk <;> rfl
  unfold requiredColumns
  rw [hoperands, hrisk]
  rfl

/-- **The serializer writes the reread definition as it wrote the first.** -/
theorem serialize_reread (h : ∀ group ∈ definition.trees, group.negationFree = true) :
    serialize (definition.reread env) = serialize definition := by
  have hfree : ∀ group ∈ (definition.reread env).trees, group.negationFree = true := by
    rw [trees_reread]
    intro group hgroup
    obtain ⟨tree, htree, rfl⟩ := List.mem_map.mp hgroup
    rw [negationFree_mapConditions]
    exact h tree htree
  have hwritten : writtenSides (definition.reread env).sides = writtenSides definition.sides := by
    unfold writtenSides
    simp only [StrategyDefinition.reread, OrderedDict.mapValues, List.map_map]
    congr 1
    funext side
    obtain ⟨name, entry, exit⟩ := side
    cases exit with
    | none =>
        simp [SideRules.document, SideRules.mapConditions,
          document_mapConditions (serializeCondition_reread definition.names)]
    | some exit =>
        simp [SideRules.document, SideRules.mapConditions,
          document_mapConditions (serializeCondition_reread definition.names)]
  have hsides : (definition.reread env).sides.items.mapM serializeSide =
      definition.sides.items.mapM serializeSide := by
    rw [mapM_serializeSide fun side hside group hgroup =>
        hfree group (List.mem_flatMap.mpr ⟨side, hside, hgroup⟩),
      mapM_serializeSide fun side hside group hgroup =>
        h group (List.mem_flatMap.mpr ⟨side, hside, hgroup⟩)]
    exact congrArg Except.ok hwritten
  have hrisk : ((definition.reread env).risk.map fun risk => ("risk", serializeRisk risk)) =
      definition.risk.map fun risk => ("risk", serializeRisk risk) := by
    simp only [StrategyDefinition.reread]
    cases definition.risk <;> rfl
  unfold serialize
  rw [hsides, hrisk]
  rfl

/-- The prices are computed from what is written. -/
theorem calculate_written {risk : RiskSpec} (hstop : risk.stopLossType ≠ .fixedPct)
    (htarget : risk.takeProfitType ≠ .fixedPct ∧ risk.takeProfitType ≠ .riskReward)
    (bar : BarDict) (side : Simulation.Side) :
    JsonRiskPriceCalculator.calculate (some risk) bar side =
      JsonRiskPriceCalculator.calculate (some (writtenRisk risk)) bar side := by
  have hstops : ∀ close, calculateStop risk bar close side =
      calculateStop (writtenRisk risk) bar close side := by
    intro close
    unfold calculateStop writtenRisk
    cases htype : risk.stopLossType with
    | fixedPct => exact absurd htype hstop
    | _ => rfl
  have htargets : ∀ close stop, calculateTarget risk bar close side stop =
      calculateTarget (writtenRisk risk) bar close side stop := by
    intro close stop
    unfold calculateTarget writtenRisk
    cases htype : risk.takeProfitType with
    | fixedPct => exact absurd htype htarget.1
    | riskReward => exact absurd htype htarget.2
    | _ => rfl
  unfold JsonRiskPriceCalculator.calculate
  simp only [hstops, htargets]

/-! ## §2 Signals -/

mutual

/-- Without `not` the evaluator reaches every condition. -/
theorem evaluated_conditions_of_negationFree :
    ∀ {group : ConditionGroup}, group.negationFree = true →
      group.evaluated.conditions = group.conditions.map Condition.evaluated
  | .all _, h => evaluatedGroups_conditions_of_negationFree h
  | .any _, h => evaluatedGroups_conditions_of_negationFree h
  | .not _, h => by cases h
  | .condition _, _ => rfl

theorem evaluatedGroups_conditions_of_negationFree :
    ∀ {children : List ConditionGroup}, negationFreeGroups children = true →
      childConditions (evaluatedGroups children) =
        (groupConditions children).map Condition.evaluated
  | [], _ => rfl
  | child :: children, h => by
      rw [negationFreeGroups, Bool.and_eq_true] at h
      rw [evaluatedGroups, childConditions, groupConditions,
        evaluated_conditions_of_negationFree h.1,
        evaluatedGroups_conditions_of_negationFree h.2, List.map_append]

end

theorem definition_evaluated_conditions
    (h : ∀ group ∈ definition.trees, group.negationFree = true) :
    definition.evaluated.conditions = definition.conditions.map Condition.evaluated := by
  unfold Evaluation.StrategyDefinition.conditions StrategyDefinition.conditions
  simp only [StrategyDefinition.evaluated, List.flatMap_map, List.map_flatMap]
  refine List.flatMap_congr fun side hside => ?_
  have htree : ∀ group ∈ side.2.trees, group.negationFree = true := fun group hgroup =>
    h group (List.mem_flatMap.mpr ⟨side, hside, hgroup⟩)
  obtain ⟨name, entry, exit⟩ := side
  have hentry := evaluated_conditions_of_negationFree (htree entry (by simp [SideRules.trees]))
  cases exit with
  | none =>
      simp [Evaluation.SideRules.conditions, SideRules.conditions, SideRules.evaluated,
        optionalConditions, hentry]
  | some exit =>
      have hexit := evaluated_conditions_of_negationFree
        (htree exit (by simp [SideRules.trees]))
      simp [Evaluation.SideRules.conditions, SideRules.conditions, SideRules.evaluated,
        optionalConditions, hentry, hexit]

section Related

variable {R : Evaluation.Condition → Evaluation.Condition → Prop} {f : Condition → Condition}

mutual

theorem related_mapConditions :
    ∀ {group : ConditionGroup}, (∀ c ∈ group.conditions, R c.evaluated (f c).evaluated) →
      group.evaluated.Related R (group.mapConditions f).evaluated
  | .all _, h => ⟨_, rfl, related_mapGroups h⟩
  | .any _, h => ⟨_, rfl, related_mapGroups h⟩
  | .not _, h => ⟨_, rfl, related_mapGroups h⟩
  | .condition c, h => ⟨_, rfl, h c (List.mem_singleton.mpr rfl)⟩

theorem related_mapGroups :
    ∀ {children : List ConditionGroup},
      (∀ c ∈ groupConditions children, R c.evaluated (f c).evaluated) →
      RelatedGroups R (evaluatedGroups children) (evaluatedGroups (mapGroups f children))
  | [], _ => rfl
  | _ :: _, h => ⟨_, _, rfl,
      related_mapConditions fun c hc => h c (List.mem_append_left _ hc),
      related_mapGroups fun c hc => h c (List.mem_append_right _ hc)⟩

end

end Related

theorem key_reread (names : OperandNames) (condition : Condition) :
    (condition.reread env names).evaluated.key = condition.writtenKey env := by
  obtain ⟨left, operator, right⟩ := condition
  cases right <;> rfl

/-- A condition as it is evaluated, and as it is after it is read back. -/
def RereadAs (env : ParserEnvironment) (definition : StrategyDefinition)
    (c c' : Evaluation.Condition) : Prop :=
  ∃ condition ∈ definition.conditions, c = condition.evaluated ∧
    c' = (condition.reread env definition.names).evaluated

/-- What the parser makes of every operand: it is parsed, and no fallback stands
behind it. -/
theorem stages_operands {data overrides : List (String × Json)}
    (h : Stages env data overrides definition) (hr : Rereadable env definition) :
    ∀ operand ∈ definition.operands,
      ParsedOperand env definition.names definition.resolvedParams operand ∧
        operand.sources = [] := by
  have hsources : ∀ column, (definition.names.sourcesMap.get column).getD [] = [] :=
    operandNames_sources fun item hitem =>
      parseIndicators_sources h.indicators item hitem (hr.indicators item hitem).1
  intro operand hoperand
  obtain ⟨condition, hcondition, hmem⟩ := List.mem_flatMap.mp hoperand
  obtain ⟨side, hside, hcondition⟩ := List.mem_flatMap.mp hcondition
  have hparsed := ((parseSides_conditions h.sides).of_mem hside condition hcondition).operands
    operand hmem
  refine ⟨hparsed, ?_⟩
  obtain ⟨path, raw, hparse⟩ := hparsed
  obtain ⟨value, -, ⟨-, rfl⟩ | ⟨name, -, hname⟩⟩ := parseOperand_eq hparse
  · rfl
  · rcases parseNamed_eq hname with ⟨column, -, rfl⟩ | ⟨-, kind, -, -, rfl⟩
    · exact hsources column
    · rfl

/-- **Reading back is a relabelling.** -/
theorem relabelling_reread {data overrides : List (String × Json)}
    (h : Stages env data overrides definition) (hr : Rereadable env definition) :
    Relabelling (RereadAs env definition) := by
  have hoperands := stages_operands h hr
  constructor
  · rintro _ _ ⟨condition, hcondition, rfl, rfl⟩ bar
    have hresolve : ∀ operand ∈ condition.operands,
        resolveOperand operand.evaluated bar =
          resolveOperand (operand.reread env definition.names).evaluated bar := by
      intro operand hoperand
      obtain ⟨hparsed, hsources⟩ :=
        hoperands operand (List.mem_flatMap.mpr ⟨condition, hcondition, hoperand⟩)
      exact resolveOperand_reread hparsed hsources bar
    refine ⟨rfl, hresolve _ (by simp [Condition.operands]), ?_⟩
    obtain ⟨left, operator, right⟩ := condition
    cases right with
    | none => rfl
    | some right =>
        exact congrArg some (hresolve right (by simp [Condition.operands]))
  · rintro _ _ _ _ ⟨c, hc, rfl, rfl⟩ ⟨d, hd, rfl, rfl⟩ hcross hcross'
    rw [key_reread, key_reread]
    exact hr.crossovers c hc d hd hcross hcross'

/-- The reread definition is related to the first. -/
theorem related_reread (hr : Rereadable env definition) :
    definition.evaluated.Related (RereadAs env definition)
      (definition.reread env).evaluated := by
  have hfree : ∀ group ∈ (definition.reread env).trees, group.negationFree = true := by
    rw [trees_reread]
    intro group hgroup
    obtain ⟨tree, htree, rfl⟩ := List.mem_map.mp hgroup
    rw [negationFree_mapConditions]
    exact hr.negations tree htree
  constructor
  · simp only [StrategyDefinition.evaluated, StrategyDefinition.reread, OrderedDict.mapValues,
      List.map_map, List.forall₂_map_left_iff, List.forall₂_map_right_iff, List.forall₂_same]
    intro side hside
    have htree : ∀ group ∈ side.2.trees, group.evaluated.Related (RereadAs env definition)
        (group.mapConditions (Condition.reread env definition.names)).evaluated := by
      intro group hgroup
      have hmem : group ∈ definition.trees := List.mem_flatMap.mpr ⟨side, hside, hgroup⟩
      exact related_mapConditions fun c hc => ⟨c, mem_conditions_of_tree hmem hc, rfl, rfl⟩
    obtain ⟨name, entry, exit⟩ := side
    refine ⟨rfl, htree entry (by simp [SideRules.trees]), ?_, rfl, rfl⟩
    cases exit with
    | none => exact .none
    | some exit => exact .some (htree exit (by simp [SideRules.trees]))
  · intro bar side
    simp only [StrategyDefinition.evaluated, StrategyDefinition.reread]
    cases hrisk : definition.risk with
    | none => rfl
    | some risk =>
        obtain ⟨hstop, htarget, -, -⟩ := hr.risk risk hrisk
        exact calculate_written hstop htarget bar side
  · rintro _ _ ⟨condition, hcondition, rfl, rfl⟩
    rw [definition_evaluated_conditions hr.negations, definition_evaluated_conditions hfree,
      conditions_reread, List.map_map]
    exact ⟨List.mem_map_of_mem hcondition, List.mem_map_of_mem hcondition⟩

end Reread

/-! ## §3 The round trip -/

/-- The parser finds no error in a document: what is left is to serialize the
definition. -/
structure FindsNoError (env : ParserEnvironment) (data overrides : List (String × Json))
    (definition : StrategyDefinition) : Prop where
  parsed : parseDefinition env data overrides = pure definition
  limits : limitErrors definition = []
  known : ∀ columns, requiredColumns env definition = some columns →
    unknownRequiredColumns definition columns
      (primaryRequiredIndicators env definition columns) = []

/-- Without formulas the columns are collected. -/
theorem requiredColumns_of_rereadable {definition : StrategyDefinition}
    (hr : Rereadable env definition) :
    ∃ columns, requiredColumns env definition = some columns := by
  have hformulas : ∀ features : List FeatureSpec,
      (∀ feature ∈ features, feature.type ≠ "formula") → formulaColumns features = some [] := by
    intro features
    induction features with
    | nil => exact fun _ => rfl
    | cons feature features ih =>
        intro hall
        have hnone : featureColumns feature = some [] := by
          unfold featureColumns
          cases feature.rawExpr with
          | none => rfl
          | some expr => simp [hall feature (by simp)]
        simp [formulaColumns, hnone, ih fun other hother => hall other (by simp [hother])]
  refine ⟨(engineRequiredColumns ++ definition.operands.flatMap (operandColumns env) ++
    riskColumns definition.risk ++ []).foldl addColumn [], ?_⟩
  unfold requiredColumns
  rw [hformulas definition.features fun feature hfeature => (hr.features feature hfeature).1]
  rfl

theorem validated_of_noError {definition : StrategyDefinition} {normalized : Json}
    {columns : List String} (hlimits : limitErrors definition = [])
    (hcolumns : requiredColumns env definition = some columns)
    (hknown : unknownRequiredColumns definition columns
      (primaryRequiredIndicators env definition columns) = [])
    (hserialize : serialize definition = .ok normalized) :
    validated env definition = .ok (.valid
      { definition := definition
        normalized := normalized
        requiredColumns := columns
        primaryRequiredIndicators := primaryRequiredIndicators env definition columns }) := by
  unfold validated
  simp [hlimits, hcolumns, hknown, hserialize]

theorem parse_of_parsed {data overrides : List (String × Json)}
    {definition : StrategyDefinition}
    (h : parseDefinition env data overrides = pure definition) :
    parse env (.dict data) overrides = validated env definition := by
  simp [parse, h]

/-- **The round trip.** A definition in which the parser finds no error, and that
needs nothing the serializer leaves out, is returned. The parser accepts its
normalized document again, with the same indicators, features, timeframes and
columns, and on all bars and positions the second definition returns the signals
of the first. -/
theorem roundtrip_signals {data overrides : List (String × Json)}
    {definition : StrategyDefinition} (h : FindsNoError env data overrides definition)
    (hr : Rereadable env definition) :
    ∃ accepted again, parse env (.dict data) overrides = .ok (.valid accepted) ∧
      accepted.definition = definition ∧
      parse env accepted.normalized [] = .ok (.valid again) ∧
      again.normalized = accepted.normalized ∧
      again.requiredColumns = accepted.requiredColumns ∧
      again.definition.indicators = definition.indicators ∧
      again.definition.features = definition.features ∧
      again.definition.timeframes = definition.timeframes ∧
      ∀ bars positions i, signalAt again.definition bars positions i =
        signalAt definition bars positions i := by
  have hstages := parseDefinition_eq h.parsed
  obtain ⟨entries, hserialize, hwritten⟩ :
      ∃ entries, serialize definition = .ok (.dict entries) ∧ Written env definition entries :=
    serialize_eq hr.negations
  obtain ⟨columns, hcolumns⟩ := requiredColumns_of_rereadable hr
  have hknown := h.known columns hcolumns
  have hcolumns' : requiredColumns env (definition.reread env) = some columns := by
    rw [requiredColumns_reread fun operand hoperand =>
      (stages_operands hstages hr operand hoperand).1, hcolumns]
  have hserialize' : serialize (definition.reread env) = .ok (.dict entries) := by
    rw [serialize_reread hr.negations, hserialize]
  have hparse := parse_of_parsed h.parsed
  rw [validated_of_noError h.limits hcolumns hknown hserialize] at hparse
  have hagain := parse_of_parsed (parseDefinition_written hstages hr hwritten)
  rw [validated_of_noError (limitErrors_reread.trans h.limits) hcolumns' hknown hserialize']
    at hagain
  refine ⟨_, _, hparse, rfl, hagain, rfl, rfl, rfl, rfl, rfl, fun bars positions i => ?_⟩
  exact (run_related (relabelling_reread hstages hr) (related_reread hr) bars positions i).2.symm

/-- Enter long when the hourly strength crosses above the level while the close is
below its latest high; exit when the strength is back. -/
def hourlyStrategy : List (String × Json) :=
  [("schema_version", .str "2.0"), ("name", .str " hourly "),
    ("parameters", .dict [("level", .dict [("type", .str "int"), ("default", .int 30)])]),
    ("timeframes", .dict [("primary", .str "5min"),
      ("informative", .list [.dict [("alias", .str "htf"), ("interval", .str "1h")]])]),
    ("indicators", .list [.dict [("name", .str "rsi_14_1h"), ("type", .str "RSI"),
      ("period", .int 14), ("timeframe", .str "htf")]]),
    ("features", .list [.dict [("name", .str "peak"), ("type", .str "rolling_max"),
      ("source", .str "high"), ("window", .int 5)]]),
    ("sides", .dict [("long", .dict
      [("entry", .dict [("condition", .dict [("all", .list
        [.dict [("left", .str "rsi_14_1h"), ("operator", .str "crosses_above"),
          ("right", .str "\x7b\x7blevel\x7d\x7d")],
        .dict [("left", .str "close"), ("operator", .str "<"), ("right", .str "peak")]])])]),
      ("exit", .dict [("condition", .dict [("left", .str "rsi_14_1h"),
        ("operator", .str "<"), ("right", .int 30)])])])])]

/-- The hourly strategy is read back. -/
theorem roundtrip_signals_hourly :
    ∃ accepted again,
      parse smallEnvironment (.dict hourlyStrategy) [] = .ok (.valid accepted) ∧
      parse smallEnvironment accepted.normalized [] = .ok (.valid again) ∧
      ∀ bars positions i, signalAt again.definition bars positions i =
        signalAt accepted.definition bars positions i := by
  have hnoError : FindsNoError smallEnvironment hourlyStrategy []
      (parseDefinition smallEnvironment hourlyStrategy []).value := by
    refine ⟨Checked.ext rfl (by decide +kernel), by decide +kernel, fun columns hcolumns => ?_⟩
    have hfound : requiredColumns smallEnvironment
        (parseDefinition smallEnvironment hourlyStrategy []).value =
          some ["open", "high", "low", "close", "rsi_14_1h", "peak"] := by decide +kernel
    obtain rfl := Option.some.inj (hfound.symm.trans hcolumns)
    decide +kernel
  have hrereadable : Rereadable smallEnvironment
      (parseDefinition smallEnvironment hourlyStrategy []).value := by
    constructor
    · decide +kernel
    · intro timeframes htimeframes
      obtain rfl := Option.some.inj htimeframes
      decide +kernel
    · decide +kernel
    · decide +kernel
    · intro risk hrisk
      cases hrisk
    · decide +kernel
    · have hkeys : ∀ c ∈ (parseDefinition smallEnvironment hourlyStrategy []).value.conditions,
          ∀ d ∈ (parseDefinition smallEnvironment hourlyStrategy []).value.conditions,
          (c.evaluated.key = d.evaluated.key ↔
            c.writtenKey smallEnvironment = d.writtenKey smallEnvironment) := by
        decide +kernel
      exact fun c hc d hd _ _ => .inl (hkeys c hc d hd)
  obtain ⟨accepted, again, hparse, hdefinition, hagain, -, -, -, -, -, hsignals⟩ :=
    roundtrip_signals hnoError hrereadable
  exact ⟨accepted, again, hparse, hagain, fun bars positions i =>
    hdefinition ▸ hsignals bars positions i⟩

/-- Enter long unless the strength is above 30. -/
def negatedStrategy : List (String × Json) :=
  [("schema_version", .str "2.0"), ("name", .str "negated"),
    ("indicators", .list [.dict [("name", .str "strength"), ("type", .str "rsi"),
      ("period", .int 14)]]),
    ("sides", .dict [("long", .dict [("entry", .dict [("condition", .dict [("not", .dict
      [("left", .str "strength"), ("operator", .str ">"), ("right", .int 30)])])])])])]

/-- **A `not` cannot be serialized**: the parser finds no error, and raises. -/
theorem not_is_not_serialized :
    ∃ definition, FindsNoError smallEnvironment negatedStrategy [] definition ∧
      parse smallEnvironment (.dict negatedStrategy) [] = .error notHasNoAppend := by
  refine ⟨(parseDefinition smallEnvironment negatedStrategy []).value,
    ⟨Checked.ext rfl (by decide +kernel), by decide +kernel, fun columns hcolumns => ?_⟩, rfl⟩
  have hfound : requiredColumns smallEnvironment
      (parseDefinition smallEnvironment negatedStrategy []).value =
        some ["open", "high", "low", "close", "rsi_14"] := by decide +kernel
  obtain rfl := Option.some.inj (hfound.symm.trans hcolumns)
  decide +kernel

end Finbar.Parser
