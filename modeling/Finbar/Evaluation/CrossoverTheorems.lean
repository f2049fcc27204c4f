/-
Finbar.Evaluation.CrossoverTheorems — the crossover memory of a JSON strategy
and the truth of a crossover.

Collecting the state of a tree runs its conditions as writers
(`collectState_eq_recordAll`), and evaluating the tree runs some of them
again. Where the conditions that share a key agree on its value the second
time changes nothing, so the memory holds the latest values of every key
whatever the positions were (`memoryAfter_eq_latest`). Where they do not
agree it depends on which tree is evaluated
(`collidingLabels_memory_depends_on_position`).

No `sorry`, no `axiom`.
-/
import Finbar.Evaluation.Strategy
import Finbar.Lib.Entries
import Finbar.Lib.Latest

namespace Finbar.Evaluation

open Lib.Python Lib.Dictionary Lib.Latest Finbar.Simulation Finbar.Backtest

/-! ## §1 Conditions as writers -/

mutual

/-- The conditions of a tree that the walks can reach, in their order. -/
def ConditionGroup.conditions : ConditionGroup → List Condition
  | .all children => childConditions children
  | .any children => childConditions children
  | .not [] => []
  | .not (child :: _) => child.conditions
  | .condition none => []
  | .condition (some condition) => [condition]

/-- The conditions of a list of trees. -/
def childConditions : List ConditionGroup → List Condition
  | [] => []
  | child :: children => child.conditions ++ childConditions children

end

/-- The conditions of an optional tree. -/
def optionalConditions : Option ConditionGroup → List Condition
  | none => []
  | some group => group.conditions

/-- The conditions of one side. -/
def SideRules.conditions (rules : SideRules) : List Condition :=
  rules.entry.conditions ++ optionalConditions rules.exit

/-- All conditions of a definition, in the order of its trees. -/
def StrategyDefinition.conditions (definition : StrategyDefinition) : List Condition :=
  definition.sides.flatMap fun side => side.2.conditions

/-- The memory entry a condition writes on a bar. -/
def Condition.entry (bar : BarDict) (condition : Condition) :
    Option (String × (PyFloat × PyFloat)) :=
  (condition.pair bar).map fun values => (condition.key, values)

theorem entry_eq_some_iff {bar : BarDict} {condition : Condition} {key : String}
    {values : PyFloat × PyFloat} :
    condition.entry bar = some (key, values) ↔
      condition.pair bar = some values ∧ condition.key = key := by
  unfold Condition.entry
  cases hpair : condition.pair bar with
  | none => simp
  | some now =>
      simp only [Option.map_some, Option.some.injEq, Prod.mk.injEq]
      exact And.comm

theorem collectCrossover_eq_record (condition : Condition) (bar : BarDict)
    (pending : CrossoverValues) :
    collectCrossover condition bar pending
      = record (Condition.entry bar) pending condition := by
  unfold collectCrossover record Condition.entry
  cases condition.pair bar with
  | none => rfl
  | some values => rfl

mutual

/-- Collecting the state of a tree runs its conditions. -/
theorem collectState_eq_recordAll (group : ConditionGroup) (bar : BarDict)
    (pending : CrossoverValues) :
    collectState group bar pending
      = recordAll (Condition.entry bar) group.conditions pending := by
  cases group with
  | all children =>
      rw [collectState, ConditionGroup.conditions]
      exact collectStates_eq_recordAll children bar pending
  | any children =>
      rw [collectState, ConditionGroup.conditions]
      exact collectStates_eq_recordAll children bar pending
  | not children =>
      cases children with
      | nil =>
          rw [collectState, ConditionGroup.conditions]
          rfl
      | cons child rest =>
          rw [collectState, ConditionGroup.conditions]
          exact collectState_eq_recordAll child bar pending
  | condition condition =>
      cases condition with
      | none =>
          rw [collectState, ConditionGroup.conditions]
          rfl
      | some condition =>
          rw [collectState, ConditionGroup.conditions]
          exact collectCrossover_eq_record condition bar pending

theorem collectStates_eq_recordAll (children : List ConditionGroup) (bar : BarDict)
    (pending : CrossoverValues) :
    collectStates children bar pending
      = recordAll (Condition.entry bar) (childConditions children) pending := by
  cases children with
  | nil =>
      rw [collectStates, childConditions]
      rfl
  | cons child rest =>
      rw [collectStates, childConditions, recordAll_append,
        ← collectState_eq_recordAll child bar pending]
      exact collectStates_eq_recordAll rest bar (collectState child bar pending)

end

/-- Collecting the state of all sides runs the conditions of the
definition. -/
theorem collectSides_eq_recordAll (sides : List (String × SideRules)) (bar : BarDict)
    (pending : CrossoverValues) :
    collectSides sides bar pending
      = recordAll (Condition.entry bar) (sides.flatMap fun side => side.2.conditions)
          pending := by
  induction sides generalizing pending with
  | nil => rfl
  | cons side sides ih =>
      unfold collectSides at ih ⊢
      rw [List.foldl_cons, ih, List.flatMap_cons, recordAll_append]
      congr 1
      unfold SideRules.conditions ConditionEvaluator.collectState
      rw [recordAll_append, ← collectState_eq_recordAll side.2.entry bar pending]
      cases side.2.exit with
      | none => rfl
      | some exit => exact collectState_eq_recordAll exit bar _

/-! ## §2 Evaluation runs writers again -/

/-- Evaluating a condition runs it as a writer. -/
theorem evaluateCondition_pending (condition : Condition) (bar : BarDict)
    (previous pending : CrossoverValues) :
    (evaluateCondition condition bar previous pending).2
      = record (Condition.entry bar) pending condition := by
  obtain ⟨left, operator, right⟩ := condition
  unfold record Condition.entry Condition.pair evaluateCondition
  cases right with
  | none => cases operator <;> rfl
  | some right =>
      cases operator with
      | crossesAbove | crossesBelow =>
          simp only [ConditionOperator.isCrossover]
          cases toFloat (resolveOperand left bar) with
          | none => rfl
          | some l =>
              cases toFloat (resolveOperand right bar) with
              | none => rfl
              | some r => rfl
      | lt | gt | le | ge | eq | ne =>
          simp only [ConditionOperator.isCrossover]
          cases toFloat (resolveOperand left bar) with
          | none => rfl
          | some l =>
              cases toFloat (resolveOperand right bar) with
              | none => rfl
              | some r => rfl
      | between | notBetween | isTrue | isFalse | «exists» | missing => rfl

/-- A crossover is true when its operands are numbers and cross from those
in memory. -/
theorem evaluateCondition_crossover {condition : Condition}
    (hcross : condition.operator.isCrossover = true) (bar : BarDict)
    (previous pending : CrossoverValues) :
    (evaluateCondition condition bar previous pending).1 = true ↔
      ∃ now before, condition.pair bar = some now ∧ previous condition.key = some before ∧
        crosses condition.operator before now = true := by
  obtain ⟨left, operator, right⟩ := condition
  unfold evaluateCondition Condition.pair
  cases operator with
  | crossesAbove | crossesBelow =>
      cases right with
      | none => simp
      | some right =>
          simp only [ConditionOperator.isCrossover]
          cases toFloat (resolveOperand left bar) with
          | none => simp
          | some l =>
              cases toFloat (resolveOperand right bar) with
              | none => simp
              | some r =>
                  simp only [crossed]
                  generalize previous _ = before
                  cases before with
                  | none => simp
                  | some values => simp
  | lt | gt | le | ge | eq | ne | between | notBetween | isTrue | isFalse | «exists»
  | missing => cases hcross

/-- Running a condition again changes nothing at a settled key. -/
theorem evaluateCondition_of_settled {condition : Condition} {bar : BarDict}
    {previous pending : CrossoverValues} {key : String}
    (h : Settled (Condition.entry bar) [condition] pending key) :
    (evaluateCondition condition bar previous pending).2 key = pending key := by
  rw [evaluateCondition_pending]
  exact record_of_settled (h condition List.mem_cons_self)

mutual

/-- Evaluating a tree changes nothing at a key settled for its
conditions. -/
theorem evaluateBool_of_settled (previous : CrossoverValues) (group : ConditionGroup)
    (bar : BarDict) (pending : CrossoverValues) (key : String)
    (h : Settled (Condition.entry bar) group.conditions pending key) :
    (evaluateBool previous group bar pending).2 key = pending key := by
  cases group with
  | all children =>
      rw [ConditionGroup.conditions] at h
      rw [evaluateBool]
      exact (evaluateChildren_of_settled previous children bar pending key h).1
  | any children =>
      rw [ConditionGroup.conditions] at h
      rw [evaluateBool]
      exact (evaluateChildren_of_settled previous children bar pending key h).2
  | not children =>
      cases children with
      | nil => rw [evaluateBool]
      | cons child rest =>
          rw [ConditionGroup.conditions] at h
          rw [evaluateBool]
          exact evaluateBool_of_settled previous child bar pending key h
  | condition condition =>
      cases condition with
      | none => rw [evaluateBool]
      | some condition =>
          rw [ConditionGroup.conditions] at h
          rw [evaluateBool]
          exact evaluateCondition_of_settled h

theorem evaluateChildren_of_settled (previous : CrossoverValues)
    (children : List ConditionGroup) (bar : BarDict) (pending : CrossoverValues)
    (key : String) (h : Settled (Condition.entry bar) (childConditions children) pending key) :
    (evaluateAll previous children bar pending).2 key = pending key ∧
      (evaluateAny previous children bar pending).2 key = pending key := by
  cases children with
  | nil =>
      rw [evaluateAll, evaluateAny]
      exact ⟨rfl, rfl⟩
  | cons child rest =>
      rw [childConditions, settled_append] at h
      have hchild := evaluateBool_of_settled previous child bar pending key h.1
      have hrest := evaluateChildren_of_settled previous rest bar
        (evaluateBool previous child bar pending).2 key (settled_congr hchild h.2)
      rw [hchild] at hrest
      rw [evaluateAll, evaluateAny]
      generalize evaluateBool previous child bar pending = evaluated at hchild hrest ⊢
      obtain ⟨result, after⟩ := evaluated
      cases result with
      | true => exact ⟨hrest.1, hchild⟩
      | false => exact ⟨hchild, hrest.2⟩

end

/-- `evaluate` changes nothing at a key settled for the tree. -/
theorem evaluate_of_settled {group : ConditionGroup} {bar : BarDict}
    {pending : CrossoverValues} {key : String}
    (h : Settled (Condition.entry bar) group.conditions pending key)
    (previous : CrossoverValues) :
    (ConditionEvaluator.evaluate group bar previous pending).2 key = pending key := by
  unfold ConditionEvaluator.evaluate
  have hcollect : collectState group bar pending key = pending key := by
    rw [collectState_eq_recordAll]
    exact recordAll_of_settled h
  rw [evaluateBool_of_settled previous group bar _ key (settled_congr hcollect h), hcollect]

/-! ## §3 One call -/

/-- The conditions that share a memory key record the same operands on a
bar. -/
def RecordsAgree (definition : StrategyDefinition) (bar : BarDict) : Prop :=
  ∀ c ∈ definition.conditions, ∀ c' ∈ definition.conditions, c.key = c'.key →
    ∀ v v', c.pair bar = some v → c'.pair bar = some v' → v = v'

/-- No conversion of a call to `on_bar` raises: the position's size is a
number and the risk prices can be computed from the bar. -/
structure CallReadable (definition : StrategyDefinition) (bar : BarDict)
    (position : Option PositionDict) : Prop where
  size : ∃ size, (position.getD []).size = .ok size
  prices : ∀ side, ∃ prices,
    JsonRiskPriceCalculator.calculate definition.risk bar side = .ok prices

/-- The values that a bar records. -/
def recorded (definition : StrategyDefinition) (bar : BarDict) : CrossoverValues :=
  collectSides definition.sides bar empty

theorem recorded_eq_recordAll (definition : StrategyDefinition) (bar : BarDict) :
    recorded definition bar
      = recordAll (Condition.entry bar) definition.conditions empty :=
  collectSides_eq_recordAll definition.sides bar empty

/-- The conditions of a side that is looked up are conditions of the
definition. -/
theorem lookup_conditions {definition : StrategyDefinition} {name : String}
    {rules : SideRules} (h : definition.sides.lookup name = some rules) {c : Condition}
    (hc : c ∈ rules.conditions) : c ∈ definition.conditions := by
  unfold StrategyDefinition.conditions
  rw [List.mem_flatMap]
  exact ⟨(name, rules), Lib.mem_of_lookup h, hc⟩

section Call

variable {definition : StrategyDefinition} {bar : BarDict} {pending : CrossoverValues}
  {key : String}

/-- Evaluating the entry rules of a side changes nothing at a settled key. -/
theorem sideEntrySignal_of_settled
    (h : Settled (Condition.entry bar) definition.conditions pending key)
    (previous : CrossoverValues) (side : Side) :
    (sideEntrySignal definition bar previous pending side).2 key = pending key := by
  unfold sideEntrySignal
  cases hrules : definition.sides.lookup (sideName side) with
  | none => rfl
  | some rules =>
      have hentry : Settled (Condition.entry bar) rules.entry.conditions pending key := by
        intro c hc
        exact h c (lookup_conditions hrules (List.mem_append_left _ hc))
      have hkeep := evaluate_of_settled hentry previous
      simp only
      generalize ConditionEvaluator.evaluate rules.entry bar previous pending = evaluated
        at hkeep ⊢
      obtain ⟨result, after⟩ := evaluated
      cases result with
      | false => exact hkeep
      | true =>
          cases JsonRiskPriceCalculator.calculate definition.risk bar side with
          | error e => exact hkeep
          | ok prices => exact hkeep

/-- Evaluating the entry rules changes nothing at a settled key. -/
theorem entrySignal_of_settled
    (h : Settled (Condition.entry bar) definition.conditions pending key)
    (previous : CrossoverValues) :
    (entrySignal definition bar previous pending).2 key = pending key := by
  have hlong := sideEntrySignal_of_settled h previous .long
  unfold entrySignal
  generalize sideEntrySignal definition bar previous pending .long = long at hlong ⊢
  obtain ⟨result, after⟩ := long
  have hshort := sideEntrySignal_of_settled (settled_congr hlong h) previous .short
  cases result with
  | error e => exact hlong
  | ok signal =>
      cases signal with
      | some signal => exact hlong
      | none =>
          simp only at hlong hshort ⊢
          generalize sideEntrySignal definition bar previous after .short = short at hshort ⊢
          obtain ⟨result, final⟩ := short
          have hfinal : final key = pending key := hshort.trans hlong
          cases result with
          | error e => exact hfinal
          | ok signal =>
              cases signal with
              | some signal => exact hfinal
              | none => exact hfinal

/-- Evaluating exit rules changes nothing at a settled key. -/
theorem exitSignal_of_settled
    (h : Settled (Condition.entry bar) definition.conditions pending key)
    (previous : CrossoverValues) (direction : String) :
    (exitSignal definition bar direction previous pending).2 key = pending key := by
  unfold exitSignal
  cases hrules : definition.sides.lookup direction with
  | none => rfl
  | some rules =>
      simp only
      cases hexit : rules.exit with
      | none => rfl
      | some exit =>
          have hconditions : Settled (Condition.entry bar) exit.conditions pending key := by
            intro c hc
            refine h c (lookup_conditions hrules (List.mem_append_right _ ?_))
            rw [hexit]
            exact hc
          have hkeep := evaluate_of_settled hconditions previous
          simp only
          generalize ConditionEvaluator.evaluate exit bar previous pending = evaluated
            at hkeep ⊢
          obtain ⟨result, after⟩ := evaluated
          cases result with
          | false => exact hkeep
          | true => exact hkeep

/-- Where the collected values are settled, a bar's signal leaves what was
collected. -/
theorem barSignal_of_settled
    (h : Settled (Condition.entry bar) definition.conditions (recorded definition bar) key)
    (previous : CrossoverValues) (position : PositionDict) (size : PyFloat) :
    (barSignal definition previous bar position size).2 key = recorded definition bar key := by
  unfold barSignal
  simp only
  split
  · exact exitSignal_of_settled h previous position.direction
  · exact entrySignal_of_settled h previous

/-- A signal is returned when the risk prices can be computed. -/
theorem barSignal_returns
    (h : ∀ side, ∃ prices,
      JsonRiskPriceCalculator.calculate definition.risk bar side = .ok prices)
    (previous : CrossoverValues) (position : PositionDict) (size : PyFloat) :
    ∃ signal, (barSignal definition previous bar position size).1 = .ok signal := by
  have hside : ∀ side pending, ∃ signal,
      (sideEntrySignal definition bar previous pending side).1 = .ok signal := by
    intro side pending
    obtain ⟨prices, hprices⟩ := h side
    unfold sideEntrySignal
    cases definition.sides.lookup (sideName side) with
    | none => exact ⟨none, rfl⟩
    | some rules =>
        simp only
        generalize ConditionEvaluator.evaluate rules.entry bar previous pending = evaluated
        obtain ⟨result, after⟩ := evaluated
        cases result with
        | false => exact ⟨none, rfl⟩
        | true =>
            rw [hprices]
            exact ⟨_, rfl⟩
  unfold barSignal
  simp only
  split
  · exact ⟨_, rfl⟩
  · unfold entrySignal
    obtain ⟨long, hlong⟩ := hside .long (collectSides definition.sides bar empty)
    generalize sideEntrySignal definition bar previous
      (collectSides definition.sides bar empty) .long = first at hlong ⊢
    obtain ⟨result, after⟩ := first
    cases hlong
    cases long with
    | some signal => exact ⟨signal, rfl⟩
    | none =>
        obtain ⟨short, hshort⟩ := hside .short after
        simp only
        generalize sideEntrySignal definition bar previous after .short = second at hshort ⊢
        obtain ⟨result, final⟩ := second
        cases hshort
        cases short with
        | some signal => exact ⟨signal, rfl⟩
        | none => exact ⟨_, rfl⟩

/-- **One call.** Where the collected values are settled, a readable call
overwrites the memory with what the bar records. -/
theorem onBar_memory {position : Option PositionDict}
    (hreadable : CallReadable definition bar position)
    (h : Settled (Condition.entry bar) definition.conditions (recorded definition bar) key)
    (previous : CrossoverValues) :
    (JsonRuleBasedStrategy.onBar definition previous bar position).1 key
      = (recorded definition bar key).or (previous key) := by
  obtain ⟨size, hsize⟩ := hreadable.size
  obtain ⟨signal, hsignal⟩ :=
    barSignal_returns hreadable.prices previous (position.getD []) size
  have hkeep := barSignal_of_settled h previous (position.getD []) size
  unfold JsonRuleBasedStrategy.onBar
  simp only
  rw [hsize]
  simp only
  generalize barSignal definition previous bar (position.getD []) size = called
    at hsignal hkeep ⊢
  obtain ⟨result, after⟩ := called
  cases hsignal
  simp only at hkeep
  show (after key).or (previous key) = _
  rw [hkeep]

end Call

/-! ## §4 Runs -/

section Runs

variable {definition : StrategyDefinition} {bars : ℕ → BarDict}
  {positions : ℕ → Option PositionDict}

/-- **The memory of a key.** If every call is readable and the collected
values of a key are settled on every bar, its memory holds the latest value
recorded. -/
theorem memoryAfter_eq_latest {key : String} {n : ℕ}
    (hreadable : ∀ k < n, CallReadable definition (bars k) (positions k))
    (hsettled : ∀ k < n, Settled (Condition.entry (bars k)) definition.conditions
      (recorded definition (bars k)) key) :
    JsonRuleBasedStrategy.memoryAfter definition bars positions n key
      = latest (fun k => recorded definition (bars k) key) n := by
  have hstep : ∀ k < n,
      JsonRuleBasedStrategy.memoryAfter definition bars positions (k + 1) key
        = (recorded definition (bars k) key).or
            (JsonRuleBasedStrategy.memoryAfter definition bars positions k key) := by
    intro k hk
    exact onBar_memory (hreadable k hk) (hsettled k hk) _
  exact eq_latest
    (fun k => JsonRuleBasedStrategy.memoryAfter definition bars positions k key) rfl hstep

/-- Conditions that agree on their keys leave every key settled. -/
theorem settled_of_recordsAgree {bar : BarDict} (h : RecordsAgree definition bar)
    (key : String) :
    Settled (Condition.entry bar) definition.conditions (recorded definition bar) key := by
  rw [recorded_eq_recordAll]
  refine settled_recordAll ?_
  intro c hc c' hc' v v' hv hv'
  rw [entry_eq_some_iff] at hv hv'
  exact h c hc c' hc' (hv.2.trans hv'.2.symm) v v' hv.1 hv'.1

/-- The operands of a crossover are identified by their labels: every
crossover of the definition with its key has its operands. -/
def IdentifiedByLabels (definition : StrategyDefinition) (c : Condition) : Prop :=
  ∀ c' ∈ definition.conditions, c'.operator.isCrossover = true → c'.key = c.key →
    c'.left = c.left ∧ c'.right = c.right

theorem pair_of_identified {c c' : Condition} {bar : BarDict} {values : PyFloat × PyFloat}
    (hid : IdentifiedByLabels definition c) (hcross : c.operator.isCrossover = true)
    (hmem : c' ∈ definition.conditions) (hkey : c'.key = c.key)
    (hpair : c'.pair bar = some values) : c.pair bar = some values := by
  have hcross' : c'.operator.isCrossover = true := by
    by_contra hne
    unfold Condition.pair at hpair
    rw [if_neg hne] at hpair
    cases hpair
  obtain ⟨hleft, hright⟩ := hid c' hmem hcross' hkey
  unfold Condition.pair at hpair ⊢
  rw [if_pos hcross', hleft, hright] at hpair
  rw [if_pos hcross]
  exact hpair

/-- The key of a crossover that is identified by its labels is settled on
every bar. -/
theorem settled_of_identified {c : Condition} (hid : IdentifiedByLabels definition c)
    (hcross : c.operator.isCrossover = true) (bar : BarDict) :
    Settled (Condition.entry bar) definition.conditions (recorded definition bar) c.key := by
  rw [recorded_eq_recordAll]
  refine settled_recordAll ?_
  intro c₁ hmem₁ c₂ hmem₂ v₁ v₂ hv₁ hv₂
  rw [entry_eq_some_iff] at hv₁ hv₂
  have hpair₁ := pair_of_identified hid hcross hmem₁ hv₁.2 hv₁.1
  have hpair₂ := pair_of_identified hid hcross hmem₂ hv₂.2 hv₂.1
  rw [hpair₁] at hpair₂
  cases hpair₂
  rfl

/-- What is recorded at the key of a crossover that is identified by its
labels are its operands. -/
theorem recorded_of_identified {c : Condition} (hid : IdentifiedByLabels definition c)
    (hcross : c.operator.isCrossover = true) (hmem : c ∈ definition.conditions)
    (bar : BarDict) : recorded definition bar c.key = c.pair bar := by
  rw [recorded_eq_recordAll]
  cases hpair : c.pair bar with
  | some values =>
      refine recordAll_of_mem hmem (entry_eq_some_iff.mpr ⟨hpair, rfl⟩) ?_
      intro c' hmem' v hv
      rw [entry_eq_some_iff] at hv
      have hpair' := pair_of_identified hid hcross hmem' hv.2 hv.1
      rw [hpair] at hpair'
      cases hpair'
      rfl
  | none =>
      have hsilent : Settled (Condition.entry bar) definition.conditions empty c.key := by
        intro c' hmem' v hv
        rw [entry_eq_some_iff] at hv
        have hpair' := pair_of_identified hid hcross hmem' hv.2 hv.1
        rw [hpair] at hpair'
        cases hpair'
      rw [recordAll_of_settled hsilent]
      rfl

/-- The truth of a crossover that is identified by its labels: its operands
are numbers now and cross from those of the latest bar on which both were. -/
theorem crossover_true_iff {c : Condition} (hid : IdentifiedByLabels definition c)
    (hcross : c.operator.isCrossover = true) (hmem : c ∈ definition.conditions) {n : ℕ}
    (hreadable : ∀ k < n, CallReadable definition (bars k) (positions k))
    (pending : CrossoverValues) :
    (evaluateCondition c (bars n)
        (JsonRuleBasedStrategy.memoryAfter definition bars positions n) pending).1 = true ↔
      ∃ now, c.pair (bars n) = some now ∧
        ∃ m < n, ∃ before, c.pair (bars m) = some before ∧
          (∀ k, m < k → k < n → c.pair (bars k) = none) ∧
          crosses c.operator before now = true := by
  have hmemory := memoryAfter_eq_latest hreadable
    (fun k _ => settled_of_identified hid hcross (bars k))
  simp only [recorded_of_identified hid hcross hmem] at hmemory
  rw [evaluateCondition_crossover hcross, hmemory]
  simp only [latest_eq_some_iff]
  constructor
  · rintro ⟨now, before, hnow, ⟨m, hm, hbefore, hlast⟩, hcrosses⟩
    exact ⟨now, hnow, m, hm, before, hbefore, hlast, hcrosses⟩
  · rintro ⟨now, hnow, m, hm, before, hbefore, hlast, hcrosses⟩
    exact ⟨now, before, hnow, ⟨m, hm, hbefore, hlast⟩, hcrosses⟩

end Runs

/-- **Crossovers do not depend on positions.** In two runs over the same
bars whose calls are readable, with conditions that agree on the keys they
share, the memories are equal after every call. In every run whose calls are
readable, a crossover that is identified by its labels is true exactly when
its operands are numbers and cross from those of the latest bar on which both
were. -/
theorem crossover_memory_spec (definition : StrategyDefinition) :
    (∀ (bars : ℕ → BarDict) (positions positions' : ℕ → Option PositionDict) (n : ℕ),
      (∀ k < n, RecordsAgree definition (bars k) ∧
        CallReadable definition (bars k) (positions k) ∧
        CallReadable definition (bars k) (positions' k)) →
      JsonRuleBasedStrategy.memoryAfter definition bars positions n
        = JsonRuleBasedStrategy.memoryAfter definition bars positions' n) ∧
    (∀ c ∈ definition.conditions, c.operator.isCrossover = true →
      IdentifiedByLabels definition c →
      ∀ (bars : ℕ → BarDict) (positions : ℕ → Option PositionDict) (n : ℕ),
        (∀ k < n, CallReadable definition (bars k) (positions k)) →
        ∀ pending,
          (evaluateCondition c (bars n)
            (JsonRuleBasedStrategy.memoryAfter definition bars positions n) pending).1
              = true ↔
          ∃ now, c.pair (bars n) = some now ∧
            ∃ m < n, ∃ before, c.pair (bars m) = some before ∧
              (∀ k, m < k → k < n → c.pair (bars k) = none) ∧
              crosses c.operator before now = true) := by
  constructor
  · intro bars positions positions' n h
    funext key
    rw [memoryAfter_eq_latest (fun k hk => (h k hk).2.1)
        (fun k hk => settled_of_recordsAgree (h k hk).1 key),
      memoryAfter_eq_latest (fun k hk => (h k hk).2.2)
        (fun k hk => settled_of_recordsAgree (h k hk).1 key)]
  · intro c hmem hcross hid bars positions n hreadable pending
    exact crossover_true_iff hid hcross hmem hreadable pending

/-! ## §5 Two definitions -/

/-- An indicator operand. -/
def indicatorOperand (column label : String) : Operand :=
  { kind := .indicator, value := .str column, label := label }

/-- The leaf `left crosses_above right`. -/
def crossesAboveLeaf (left right : Operand) : Condition :=
  { left := left, operator := .crossesAbove, right := some right }

/-- Enter long when the fast average crosses above the slow one. -/
def averagesCross : StrategyDefinition where
  sides := [("long",
    { entry := .condition (some
        (crossesAboveLeaf (indicatorOperand "sma_5" "fast") (indicatorOperand "sma_20" "slow")))
      })]

/-- The fast average is below the slow one on the first bar and above it from
then on. -/
def crossingBars (n : ℕ) : BarDict :=
  [("close", .ofRat 100), ("sma_5", .ofRat (if n = 0 then 1 else 3)), ("sma_20", .ofRat 2)]

/-- A long position of ten. -/
def longTen : PositionDict := [("direction", .str "long"), ("size", .ofRat 10)]

theorem callReadable_of_noRisk {definition : StrategyDefinition} {bar : BarDict}
    {position : Option PositionDict} (hrisk : definition.risk = none)
    (hsize : ∃ size, (position.getD []).size = .ok size) :
    CallReadable definition bar position := by
  refine ⟨hsize, ?_⟩
  intro side
  rw [hrisk]
  exact ⟨_, rfl⟩

/-- The averages cross on the second bar, and flat and long runs remember the
same. -/
theorem crossover_memory_spec_averages :
    JsonRuleBasedStrategy.memoryAfter averagesCross crossingBars (fun _ => none) 2
      = JsonRuleBasedStrategy.memoryAfter averagesCross crossingBars (fun _ => some longTen) 2 ∧
    (evaluateCondition
      (crossesAboveLeaf (indicatorOperand "sma_5" "fast") (indicatorOperand "sma_20" "slow"))
      (crossingBars 1)
      (JsonRuleBasedStrategy.memoryAfter averagesCross crossingBars (fun _ => none) 1)
      empty).1 = true := by
  obtain ⟨hmemory, htruth⟩ := crossover_memory_spec averagesCross
  have hflat : ∀ bar, CallReadable averagesCross bar none :=
    fun bar => callReadable_of_noRisk rfl ⟨.fin 0, rfl⟩
  have hlong : ∀ bar, CallReadable averagesCross bar (some longTen) :=
    fun bar => callReadable_of_noRisk rfl ⟨.fin 10, rfl⟩
  constructor
  · refine hmemory crossingBars _ _ 2 ?_
    intro k hk
    refine ⟨?_, hflat _, hlong _⟩
    intro c hc c' hc' hkey v v' hv hv'
    simp only [StrategyDefinition.conditions, averagesCross, SideRules.conditions,
      ConditionGroup.conditions, optionalConditions, List.flatMap_cons, List.flatMap_nil,
      List.append_nil, List.mem_singleton] at hc hc'
    rw [hc] at hv
    rw [hc', hv] at hv'
    cases hv'
    rfl
  · refine (htruth _ List.mem_cons_self rfl ?_ crossingBars (fun _ => none) 1
      (fun k _ => hflat _) empty).mpr ?_
    · intro c hc hcross hkey
      simp only [StrategyDefinition.conditions, averagesCross, SideRules.conditions,
        ConditionGroup.conditions, optionalConditions, List.flatMap_cons, List.flatMap_nil,
        List.append_nil, List.mem_singleton] at hc
      rw [hc]
      exact ⟨rfl, rfl⟩
    · refine ⟨(.fin 3, .fin 2), rfl, 0, Nat.zero_lt_one, (.fin 1, .fin 2), rfl, ?_, ?_⟩
      · intro k hk hk'
        omega
      · decide +kernel

/-- Enter long when the fast average crosses above the number 30, exit when
it crosses above the indicator whose alias is `30`. -/
def collidingLabels : StrategyDefinition where
  sides := [("long",
    { entry := .condition (some (crossesAboveLeaf (indicatorOperand "sma_5" "fast")
        { kind := .literal, value := .ofRat 30, label := "30" }))
      exit := some (.condition (some (crossesAboveLeaf (indicatorOperand "sma_5" "fast")
        (indicatorOperand "rsi_14" "30")))) })]

/-- A bar on which the number 30 and the indicator `30` differ. -/
def collidingBar : BarDict := [("sma_5", .ofRat 50), ("rsi_14", .ofRat 60)]

/-- After one bar the memory of the shared key holds the entry's operands in
the flat run and the exit's in the long one. -/
theorem collidingLabels_memory_depends_on_position :
    JsonRuleBasedStrategy.memoryAfter collidingLabels (fun _ => collidingBar)
        (fun _ => none) 1 (crossoverKey "fast" "30" "crosses_above")
      = some (.fin 50, .fin 30) ∧
    JsonRuleBasedStrategy.memoryAfter collidingLabels (fun _ => collidingBar)
        (fun _ => some longTen) 1 (crossoverKey "fast" "30" "crosses_above")
      = some (.fin 50, .fin 60) := by
  constructor
  · decide +kernel
  · decide +kernel

end Finbar.Evaluation
