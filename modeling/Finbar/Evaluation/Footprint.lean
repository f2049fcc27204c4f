/-
Finbar.Evaluation.Footprint — what a strategy reads of a bar: the operands of
its conditions and the columns of its risk settings. Two runs whose bars agree
there return the same signals.

No `sorry`, no `axiom`.
-/
import Finbar.Evaluation.CrossoverTheorems

namespace Finbar.Evaluation

open Lib.Python Lib.Dictionary Finbar.Simulation Finbar.Backtest

/-! ## §1 Conditions -/

/-- Two conditions read the same values, each on its bar, and compare them in
the same way. -/
structure ReadsAlike (bar bar' : BarDict) (c c' : Condition) : Prop where
  operator : c.operator = c'.operator
  left : resolveOperand c.left bar = resolveOperand c'.left bar'
  right : (c.right.map fun operand => resolveOperand operand bar) =
    c'.right.map fun operand => resolveOperand operand bar'

/-- The operands of a crossover are the same numbers. -/
theorem ReadsAlike.pair {bar bar' : BarDict} {c c' : Condition}
    (h : ReadsAlike bar bar' c c') : c.pair bar = c'.pair bar' := by
  obtain ⟨hoperator, hleft, hright⟩ := h
  unfold Condition.pair
  rw [hoperator]
  cases hc : c.right with
  | none =>
      cases hc' : c'.right with
      | none => rfl
      | some right' => simp [hc, hc'] at hright
  | some right =>
      cases hc' : c'.right with
      | none => simp [hc, hc'] at hright
      | some right' =>
          have hvalue : resolveOperand right bar = resolveOperand right' bar' := by
            simpa [hc, hc'] using hright
          simp only [hleft, hvalue]

/-- What a condition makes of its values does not depend on the bar. -/
theorem evaluateCondition_congr {bar bar' : BarDict} {c : Condition}
    (h : ReadsAlike bar bar' c c) (previous pending : CrossoverValues) :
    evaluateCondition c bar previous pending = evaluateCondition c bar' previous pending := by
  obtain ⟨left, operator, right⟩ := c
  obtain ⟨-, hleft, hright⟩ := h
  unfold evaluateCondition
  cases right with
  | none => simp only [hleft]
  | some right =>
      have hvalue : resolveOperand right bar = resolveOperand right bar' := by
        simpa using hright
      simp only [hleft, hvalue]

/-! ## §2 Trees -/

section Trees

variable {bar bar' : BarDict}

theorem recordAll_congr {conditions : List Condition}
    (h : ∀ c ∈ conditions, ReadsAlike bar bar' c c) (pending : CrossoverValues) :
    recordAll (Condition.entry bar) conditions pending =
      recordAll (Condition.entry bar') conditions pending := by
  induction conditions generalizing pending with
  | nil => rfl
  | cons c conditions ih =>
      have hentry : Condition.entry bar c = Condition.entry bar' c := by
        unfold Condition.entry
        rw [(h c (by simp)).pair]
      simp only [recordAll, List.foldl_cons, record, hentry] at ih ⊢
      exact ih (fun c hc => h c (by simp [hc])) _

mutual

theorem evaluateBool_congr (previous : CrossoverValues) :
    ∀ (group : ConditionGroup) (pending : CrossoverValues),
      (∀ c ∈ group.conditions, ReadsAlike bar bar' c c) →
        evaluateBool previous group bar pending = evaluateBool previous group bar' pending
  | .all children, pending, h => by
      rw [ConditionGroup.conditions] at h
      rw [evaluateBool, evaluateBool]
      exact (evaluateChildren_congr previous children pending h).1
  | .any children, pending, h => by
      rw [ConditionGroup.conditions] at h
      rw [evaluateBool, evaluateBool]
      exact (evaluateChildren_congr previous children pending h).2
  | .not [], pending, _ => by rw [evaluateBool, evaluateBool]
  | .not (child :: _), pending, h => by
      rw [ConditionGroup.conditions] at h
      rw [evaluateBool, evaluateBool, evaluateBool_congr previous child pending h]
  | .condition none, pending, _ => by rw [evaluateBool, evaluateBool]
  | .condition (some condition), pending, h => by
      rw [evaluateBool, evaluateBool]
      exact evaluateCondition_congr (h condition (by simp [ConditionGroup.conditions])) _ _

theorem evaluateChildren_congr (previous : CrossoverValues) :
    ∀ (children : List ConditionGroup) (pending : CrossoverValues),
      (∀ c ∈ childConditions children, ReadsAlike bar bar' c c) →
        evaluateAll previous children bar pending = evaluateAll previous children bar' pending ∧
        evaluateAny previous children bar pending = evaluateAny previous children bar' pending
  | [], pending, _ => by simp [evaluateAll, evaluateAny]
  | child :: children, pending, h => by
      simp only [childConditions, List.mem_append] at h
      have hchild := evaluateBool_congr previous child pending fun c hc => h c (.inl hc)
      have hrest := fun after => evaluateChildren_congr previous children after
        fun c hc => h c (.inr hc)
      rw [evaluateAll, evaluateAll, evaluateAny, evaluateAny, hchild]
      generalize evaluateBool previous child bar' pending = evaluated
      obtain ⟨result, after⟩ := evaluated
      cases result with
      | true => exact ⟨(hrest after).1, rfl⟩
      | false => exact ⟨rfl, (hrest after).2⟩

end

/-- `evaluate` depends on the values of the operands only. -/
theorem evaluate_congr {group : ConditionGroup}
    (h : ∀ c ∈ group.conditions, ReadsAlike bar bar' c c) (previous pending : CrossoverValues) :
    ConditionEvaluator.evaluate group bar previous pending =
      ConditionEvaluator.evaluate group bar' previous pending := by
  unfold ConditionEvaluator.evaluate
  rw [collectState_eq_recordAll, collectState_eq_recordAll, recordAll_congr h]
  exact evaluateBool_congr previous group _ h

end Trees

/-! ## §3 Risk settings -/

/-- The columns that the prices of an entry are computed from. -/
def riskReads : Option RiskSpec → List String
  | none => []
  | some risk =>
      "close" :: (if risk.stopLossType = .atr then [risk.stopIndicator] else []) ++
        (if risk.takeProfitType = .atr then [risk.takeProfitIndicator] else [])

theorem calculate_congr {risk : Option RiskSpec} {bar bar' : BarDict}
    (h : ∀ column ∈ riskReads risk, bar.get column = bar'.get column) (side : Side) :
    JsonRiskPriceCalculator.calculate risk bar side =
      JsonRiskPriceCalculator.calculate risk bar' side := by
  cases risk with
  | none => rfl
  | some risk =>
      have hclose : columnValue bar "close" = columnValue bar' "close" := by
        unfold columnValue
        rw [h "close" (by simp [riskReads])]
      have hstop : ∀ close, calculateStop risk bar close side =
          calculateStop risk bar' close side := by
        intro close
        unfold calculateStop columnValue
        cases htype : risk.stopLossType with
        | atr => rw [h risk.stopIndicator (by simp [riskReads, htype])]
        | _ => rfl
      have htarget : ∀ close stop, calculateTarget risk bar close side stop =
          calculateTarget risk bar' close side stop := by
        intro close stop
        unfold calculateTarget columnValue
        cases htype : risk.takeProfitType with
        | atr => rw [h risk.takeProfitIndicator (by simp [riskReads, htype])]
        | _ => rfl
      unfold JsonRiskPriceCalculator.calculate
      simp only [hclose, hstop, htarget]

/-! ## §4 Calls and runs -/

/-- Two bars agree on everything that a strategy reads. -/
structure SameReadings (definition : StrategyDefinition) (bar bar' : BarDict) : Prop where
  conditions : ∀ c ∈ definition.conditions, ReadsAlike bar bar' c c
  risk : ∀ column ∈ riskReads definition.risk, bar.get column = bar'.get column

section Calls

variable {definition : StrategyDefinition} {bar bar' : BarDict}

theorem sideEntrySignal_congr (h : SameReadings definition bar bar')
    (previous pending : CrossoverValues) (side : Side) :
    sideEntrySignal definition bar previous pending side =
      sideEntrySignal definition bar' previous pending side := by
  unfold sideEntrySignal
  cases hrules : definition.sides.lookup (sideName side) with
  | none => rfl
  | some rules =>
      have hentry := evaluate_congr (fun c hc => h.conditions c
        (lookup_conditions hrules (List.mem_append_left _ hc))) previous pending
      simp only [hentry, calculate_congr h.risk side]

theorem exitSignal_congr (h : SameReadings definition bar bar') (direction : String)
    (previous pending : CrossoverValues) :
    exitSignal definition bar direction previous pending =
      exitSignal definition bar' direction previous pending := by
  unfold exitSignal
  cases hrules : definition.sides.lookup direction with
  | none => rfl
  | some rules =>
      cases hexit : rules.exit with
      | none => simp only [hexit]
      | some exit =>
          have hconditions : ∀ c ∈ exit.conditions, ReadsAlike bar bar' c c :=
            fun c hc => h.conditions c (lookup_conditions hrules
              (List.mem_append_right _ (by rw [hexit]; exact hc)))
          simp only [hexit, evaluate_congr hconditions previous pending]

/-- **One call** on bars that agree on what is read. -/
theorem onBar_congr (h : SameReadings definition bar bar') (previous : CrossoverValues)
    (position : Option PositionDict) :
    JsonRuleBasedStrategy.onBar definition previous bar position =
      JsonRuleBasedStrategy.onBar definition previous bar' position := by
  have hcollect : collectSides definition.sides bar empty =
      collectSides definition.sides bar' empty := by
    rw [collectSides_eq_recordAll, collectSides_eq_recordAll]
    exact recordAll_congr h.conditions empty
  have hentry : ∀ pending, entrySignal definition bar previous pending =
      entrySignal definition bar' previous pending := by
    intro pending
    unfold entrySignal
    simp only [sideEntrySignal_congr h]
  unfold JsonRuleBasedStrategy.onBar barSignal
  simp only [hcollect, hentry, exitSignal_congr h]

end Calls

/-- **Two runs** over bars that agree on what is read: the same memory and the
same signal at every bar. -/
theorem run_congr {definition : StrategyDefinition} {bars bars' : ℕ → BarDict}
    (h : ∀ i, SameReadings definition (bars i) (bars' i)) (positions : ℕ → Option PositionDict)
    (i : ℕ) :
    JsonRuleBasedStrategy.memoryAfter definition bars positions i =
        JsonRuleBasedStrategy.memoryAfter definition bars' positions i ∧
      JsonRuleBasedStrategy.onBar definition
          (JsonRuleBasedStrategy.memoryAfter definition bars positions i) (bars i) (positions i) =
        JsonRuleBasedStrategy.onBar definition
          (JsonRuleBasedStrategy.memoryAfter definition bars' positions i) (bars' i)
          (positions i) := by
  induction i with
  | zero => exact ⟨rfl, onBar_congr (h 0) _ _⟩
  | succ i ih =>
      have hmemory : JsonRuleBasedStrategy.memoryAfter definition bars positions (i + 1) =
          JsonRuleBasedStrategy.memoryAfter definition bars' positions (i + 1) :=
        congrArg Prod.fst ih.2
      exact ⟨hmemory, by rw [hmemory]; exact onBar_congr (h (i + 1)) _ _⟩

end Finbar.Evaluation
