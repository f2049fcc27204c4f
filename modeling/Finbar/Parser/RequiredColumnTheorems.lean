/-
Finbar.Parser.RequiredColumnTheorems — what the required columns of an
accepted strategy say about its signals.

The collector lists the column of every operand and of the risk settings, but
not the fallback sources that the evaluator turns to where a column is missing.

No `sorry`, no `axiom`.
-/
import Finbar.Parser.ParseTheorems
import Finbar.Evaluation.Footprint

namespace Finbar.Parser

open Lib Lib.Python Finbar.Evaluation Checked

variable {env : ParserEnvironment}

/-! ## §1 Operands -/

/-- The column that an operand names. -/
def Operand.column (operand : Operand) : String := operand.value.toValue.toStr

theorem operandColumns_eq {names : OperandNames} {params : ResolvedParams} {operand : Operand}
    (h : ParsedOperand env names params operand) (hkind : operand.kind.isColumn = true) :
    operandColumns env operand = [operand.column] := by
  obtain ⟨column, hvalue⟩ := h.value_of_isColumn hkind
  simp [operandColumns, hkind, Operand.column, hvalue, Json.toValue, PyValue.toStr]

/-- Two bars agree on an operand: on its column, and on its fallback sources
where the column is missing. -/
structure OperandAgrees (bar bar' : BarDict) (operand : Operand) : Prop where
  column : operand.kind.isColumn = true → bar.get operand.column = bar'.get operand.column
  sources : operand.kind.isColumn = true → present (bar.get operand.column) = false →
    ∀ source ∈ operand.sources, bar.get source = bar'.get source

/-- The value of an operand on bars that agree on it. -/
theorem resolveOperand_congr {bar bar' : BarDict} {operand : Operand}
    (h : OperandAgrees bar bar' operand) :
    resolveOperand operand.evaluated bar = resolveOperand operand.evaluated bar' := by
  unfold resolveOperand
  cases hkind : operand.evaluated.kind.isColumn with
  | false => rfl
  | true =>
      have hcolumn : bar.get operand.evaluated.value.toStr =
          bar'.get operand.evaluated.value.toStr := h.column hkind
      simp only [if_true, List.map_cons, List.find?_cons, ← hcolumn]
      cases hpresent : present (bar.get operand.evaluated.value.toStr) with
      | true => rfl
      | false =>
          have hsources : operand.evaluated.sources.map bar.get =
              operand.evaluated.sources.map bar'.get :=
            List.map_congr_left (h.sources hkind hpresent)
          simp only [hsources]

/-! ## §2 Trees -/

mutual

/-- The conditions that the evaluator reaches are conditions of the tree. -/
theorem mem_evaluated_conditions {c : Evaluation.Condition} :
    ∀ {group : ConditionGroup}, c ∈ group.evaluated.conditions →
      ∃ condition ∈ group.conditions, c = condition.evaluated
  | .all children, h => mem_evaluatedGroups_conditions h
  | .any children, h => mem_evaluatedGroups_conditions h
  | .not [], h => by simp [ConditionGroup.evaluated, evaluatedGroups,
      Evaluation.ConditionGroup.conditions] at h
  | .not (child :: children), h => by
      have hchild : c ∈ child.evaluated.conditions := h
      obtain ⟨condition, hcondition, hc⟩ := mem_evaluated_conditions hchild
      exact ⟨condition, List.mem_append_left _ hcondition, hc⟩
  | .condition condition, h =>
      ⟨condition, List.mem_singleton.mpr rfl, List.mem_singleton.mp h⟩

theorem mem_evaluatedGroups_conditions {c : Evaluation.Condition} :
    ∀ {children : List ConditionGroup}, c ∈ childConditions (evaluatedGroups children) →
      ∃ condition ∈ groupConditions children, c = condition.evaluated
  | [], h => by simp [evaluatedGroups, childConditions] at h
  | child :: children, h => by
      rcases List.mem_append.mp h with h | h
      · obtain ⟨condition, hcondition, hc⟩ := mem_evaluated_conditions h
        exact ⟨condition, List.mem_append_left _ hcondition, hc⟩
      · obtain ⟨condition, hcondition, hc⟩ := mem_evaluatedGroups_conditions h
        exact ⟨condition, List.mem_append_right _ hcondition, hc⟩

end

/-- The conditions that the strategy created from a definition evaluates. -/
theorem mem_definition_conditions {definition : StrategyDefinition} {c : Evaluation.Condition}
    (h : c ∈ definition.evaluated.conditions) :
    ∃ condition ∈ definition.conditions, c = condition.evaluated := by
  obtain ⟨side, hside, hc⟩ := List.mem_flatMap.mp h
  obtain ⟨⟨name, rules⟩, hrules, rfl⟩ := List.mem_map.mp hside
  rcases List.mem_append.mp hc with hc | hc
  · obtain ⟨condition, hcondition, hc⟩ := mem_evaluated_conditions hc
    exact ⟨condition, List.mem_flatMap.mpr ⟨_, hrules, List.mem_append_left _ hcondition⟩, hc⟩
  · cases hexit : rules.exit with
    | none => simp [SideRules.evaluated, hexit, optionalConditions] at hc
    | some exit =>
        obtain ⟨condition, hcondition, hc⟩ :=
          mem_evaluated_conditions (by simpa [SideRules.evaluated, hexit, optionalConditions] using hc)
        refine ⟨condition, List.mem_flatMap.mpr ⟨_, hrules, List.mem_append_right _ ?_⟩, hc⟩
        simpa [hexit] using hcondition

theorem readsAlike_evaluated {bar bar' : BarDict} {condition : Condition}
    (h : ∀ operand ∈ condition.operands, OperandAgrees bar bar' operand) :
    ReadsAlike bar bar' condition.evaluated condition.evaluated where
  operator := rfl
  left := resolveOperand_congr (h _ (by simp [Condition.operands]))
  right := by
    cases hright : condition.right with
    | none => simp [Condition.evaluated, hright]
    | some right =>
        simp [Condition.evaluated, hright,
          resolveOperand_congr (h right (by simp [Condition.operands, hright]))]

/-! ## §3 Accepted strategies -/

/-- The columns of the risk settings are required. -/
theorem riskReads_required (hcatalog : env.catalog.Named) {data : Json}
    {overrides : List (String × Json)} {accepted : AcceptedStrategy}
    (h : parse env data overrides = .ok (.valid accepted)) :
    ∀ column ∈ riskReads accepted.definition.risk, column ∈ accepted.requiredColumns := by
  obtain ⟨entries, -, hdefinition, hvalidated⟩ := parse_eq_valid env h
  obtain ⟨-, -, hrequired, -, -⟩ := validated_eq_valid env hvalidated
  have hstages := parseDefinition_eq hdefinition
  have hmem := fun column : String => @mem_requiredColumns env _ _ hrequired column
  intro column hcolumn
  rw [hmem]
  cases hrisk : accepted.definition.risk with
  | none => simp [hrisk, riskReads] at hcolumn
  | some risk =>
      have hparse := hstages.risk
      rw [hrisk] at hparse hcolumn
      obtain ⟨stop, target, hparsed⟩ := parseRisk_eq hparse
      have haliases := aliasColumns_named (parseIndicators_forall
        (fun _ _ _ item hitem => parseIndicator_columnName hcatalog hitem) hstages.indicators)
      simp only [riskReads, List.mem_append, List.mem_cons] at hcolumn
      rcases hcolumn with (rfl | hstop) | htarget
      · exact .inl (by decide)
      · split_ifs at hstop with htype
        · obtain rfl := List.mem_singleton.mp hstop
          have hnamed : risk.stopIndicator ≠ "" := by
            have hresolve := hparsed.stopIndicator
            rw [htype, decide_eq_true rfl] at hresolve
            exact resolveAtrIndicator_named hcatalog haliases hresolve
          exact .inr (.inr (.inl (by simp [riskColumns, htype, hnamed])))
        · cases hstop
      · split_ifs at htarget with htype
        · obtain rfl := List.mem_singleton.mp htarget
          have hnamed : risk.takeProfitIndicator ≠ "" := by
            have hresolve := hparsed.takeProfitIndicator
            rw [htype, decide_eq_true rfl] at hresolve
            exact resolveAtrIndicator_named hcatalog haliases hresolve
          exact .inr (.inr (.inl (by simp [riskColumns, htype, hnamed])))
        · cases htarget

/-- The column of every operand is required. -/
theorem operand_required {data : Json} {overrides : List (String × Json)}
    {accepted : AcceptedStrategy} (h : parse env data overrides = .ok (.valid accepted)) :
    ∀ operand ∈ accepted.definition.operands, operand.kind.isColumn = true →
      operand.column ∈ accepted.requiredColumns := by
  obtain ⟨entries, -, hdefinition, hvalidated⟩ := parse_eq_valid env h
  obtain ⟨-, -, hrequired, -, -⟩ := validated_eq_valid env hvalidated
  intro operand hoperand hkind
  rw [mem_requiredColumns env hrequired]
  refine .inr (.inl ⟨operand, hoperand, ?_⟩)
  rw [operandColumns_eq (accepted_operand h operand hoperand) hkind]
  exact List.mem_singleton.mpr rfl

/-- Two bars agree on OHLCV, the timestamp and the required columns. -/
def AgreeOnRequired (accepted : AcceptedStrategy) (bar bar' : BarDict) : Prop :=
  ∀ column, column ∈ ohlcvFields ∨ column ∈ accepted.requiredColumns →
    bar.get column = bar'.get column

/-- Two bars agree on the fallback sources of every operand whose own column is
missing. -/
def AgreeOnFallbacks (definition : StrategyDefinition) (bar bar' : BarDict) : Prop :=
  ∀ operand ∈ definition.operands, operand.kind.isColumn = true →
    present (bar.get operand.column) = false →
    ∀ source ∈ operand.sources, bar.get source = bar'.get source

/-- The signal of a run at a bar. -/
def signalAt (definition : StrategyDefinition) (bars : ℕ → BarDict)
    (positions : ℕ → Option PositionDict) (i : ℕ) : Except PyError RuleSignal :=
  (JsonRuleBasedStrategy.onBar definition.evaluated
    (JsonRuleBasedStrategy.memoryAfter definition.evaluated bars positions i) (bars i)
    (positions i)).2

/-- Bars that agree on the operands and on the columns of the risk levels give the
same signals. -/
theorem signalAt_congr {definition : StrategyDefinition} {bars bars' : ℕ → BarDict}
    (hoperands : ∀ i, ∀ operand ∈ definition.operands, OperandAgrees (bars i) (bars' i) operand)
    (hrisk : ∀ i, ∀ column ∈ riskReads definition.evaluated.risk,
      (bars i).get column = (bars' i).get column)
    (positions : ℕ → Option PositionDict) (i : ℕ) :
    signalAt definition bars positions i = signalAt definition bars' positions i := by
  have hreadings : ∀ i, SameReadings definition.evaluated (bars i) (bars' i) := by
    intro i
    constructor
    · intro c hc
      obtain ⟨condition, hcondition, rfl⟩ := mem_definition_conditions hc
      exact readsAlike_evaluated fun operand hoperand =>
        hoperands i operand (List.mem_flatMap.mpr ⟨condition, hcondition, hoperand⟩)
    · exact hrisk i
  exact congrArg Prod.snd (run_congr hreadings positions i).2

/-- **Signals depend on the required columns**, on runs that agree on the
fallback sources wherever these are read. -/
theorem signals_depend_on_required_columns (hcatalog : env.catalog.Named) {data : Json}
    {overrides : List (String × Json)} {accepted : AcceptedStrategy}
    (h : parse env data overrides = .ok (.valid accepted)) {bars bars' : ℕ → BarDict}
    (hagree : ∀ i, AgreeOnRequired accepted (bars i) (bars' i))
    (hfallback : ∀ i, AgreeOnFallbacks accepted.definition (bars i) (bars' i))
    (positions : ℕ → Option PositionDict) (i : ℕ) :
    signalAt accepted.definition bars positions i =
      signalAt accepted.definition bars' positions i := by
  refine signalAt_congr (fun i operand hoperand => ?_) (fun i column hcolumn => ?_) positions i
  · constructor
    · exact fun hkind => hagree i _ (.inr (operand_required h operand hoperand hkind))
    · exact fun hkind => hfallback i operand hoperand hkind
  · exact hagree i column (.inr (riskReads_required hcatalog h column hcolumn))

theorem smallCatalog_named : smallCatalog.Named where
  resolve := by
    intro type period column h
    unfold smallCatalog at h
    dsimp only at h
    split at h
    · obtain rfl := Option.some.inj h
      decide
    · obtain rfl := Option.some.inj h
      decide
    · cases h
  supportsConcrete := by decide +kernel

/-- Enter long while the strength is above 30: `rsi_14`, or else `sma_20`. -/
def fallbackStrategy : Json :=
  .dict [("schema_version", .str "2.0"), ("name", .str "fallback"),
    ("indicators", .list [.dict [("name", .str "strength"), ("type", .str "fallback"),
      ("sources", .list [.str "rsi_14", .str "sma_20"])]]),
    ("sides", .dict [("long", .dict [("entry", .dict [("condition", .dict
      [("left", .str "strength"), ("operator", .str ">"), ("right", .int 30)])])])])]

/-- A bar with or without `rsi_14`, and with a value of `sma_20`. -/
def fallbackBar (rsi : PyValue) (sma : ℚ) : BarDict :=
  [("open", .ofRat 1), ("high", .ofRat 1), ("low", .ofRat 1), ("close", .ofRat 1),
    ("rsi_14", rsi), ("sma_20", .ofRat sma)]

theorem fallbackBar_get (rsi : PyValue) (sma sma' : ℚ) {column : String}
    (h : column ≠ "sma_20") :
    (fallbackBar rsi sma).get column = (fallbackBar rsi sma').get column := by
  simp [BarDict.get, fallbackBar, lookup_cons_ite, h]

/-- While `rsi_14` is there, `sma_20` does not matter. -/
theorem signals_depend_on_required_columns_present :
    ∃ accepted, parse smallEnvironment fallbackStrategy [] = .ok (.valid accepted) ∧
      signalAt accepted.definition (fun _ => fallbackBar (.ofRat 50) 10) (fun _ => none) 0 =
        signalAt accepted.definition (fun _ => fallbackBar (.ofRat 50) 90) (fun _ => none) 0 := by
  have hparse : parse smallEnvironment fallbackStrategy [] = .ok (.valid _) := rfl
  refine ⟨_, hparse, signals_depend_on_required_columns smallCatalog_named hparse
    (fun _ column hcolumn => fallbackBar_get _ _ _ ?_)
    (fun _ operand hoperand hkind hmissing => ?_) _ 0⟩
  · rintro rfl
    revert hcolumn
    decide +kernel
  · rcases List.mem_cons.mp hoperand with rfl | hoperand
    · exact absurd hmissing (by decide +kernel)
    · obtain rfl := List.mem_singleton.mp hoperand
      exact absurd hkind (by decide)

/-- **A fallback source is read but not required**: without `rsi_14` the signal
depends on `sma_20`, on which bars that agree on the required columns may
differ. -/
theorem fallback_source_not_required :
    ∃ accepted, parse smallEnvironment fallbackStrategy [] = .ok (.valid accepted) ∧
      AgreeOnRequired accepted (fallbackBar .none 10) (fallbackBar .none 90) ∧
      signalAt accepted.definition (fun _ => fallbackBar .none 10) (fun _ => none) 0 ≠
        signalAt accepted.definition (fun _ => fallbackBar .none 90) (fun _ => none) 0 := by
  refine ⟨_, rfl, fun column hcolumn => fallbackBar_get _ _ _ ?_, by decide +kernel⟩
  rintro rfl
  revert hcolumn
  decide +kernel

end Finbar.Parser
