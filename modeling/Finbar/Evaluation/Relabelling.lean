/-
Finbar.Evaluation.Relabelling — two strategies that compare the same values
under different labels.

The labels of a crossover are the key of its memory, so new labels may tell
apart what shared a key before, or the other way round. Where that happens only
to crossovers that record the same operands, both strategies return the same
signals (`run_related`).

No `sorry`, no `axiom`.
-/
import Finbar.Evaluation.Footprint

namespace Finbar.Evaluation

open Lib.Python Lib.Dictionary Finbar.Simulation Finbar.Backtest

/-! ## §1 Relabelled conditions -/

/-- Related conditions compare the same values, and two crossovers share a key
before exactly when they share one afterwards, or else record the same
operands. -/
structure Relabelling (R : Condition → Condition → Prop) : Prop where
  alike : ∀ {c c'}, R c c' → ∀ bar, ReadsAlike bar bar c c'
  keys : ∀ {c c' d d'}, R c c' → R d d' → c.operator.isCrossover = true →
    d.operator.isCrossover = true →
    (c.key = d.key ↔ c'.key = d'.key) ∨ ∀ bar, c.pair bar = d.pair bar

/-- The new keys tell a crossover apart from another one, or no longer do. -/
def Separated (R : Condition → Condition → Prop) (c c' : Condition) : Prop :=
  ∃ d d', R d d' ∧ d.operator.isCrossover = true ∧ ¬(c.key = d.key ↔ c'.key = d'.key)

/-- Only crossovers have operands to record. -/
theorem isCrossover_of_pair {c : Condition} {bar : BarDict} {values : PyFloat × PyFloat}
    (h : c.pair bar = some values) : c.operator.isCrossover = true := by
  by_contra hcross
  simp [Condition.pair, hcross] at h

section Relabelled

variable {R : Condition → Condition → Prop} {bar : BarDict} {c c' d d' : Condition}

/-- **Separated crossovers** record what every crossover records that has one of
their keys. -/
theorem Relabelling.pair_of_separated (hR : Relabelling R) (hc : R c c')
    (hcross : c.operator.isCrossover = true) (hseparated : Separated R c c') (hd : R d d')
    (hcross' : d.operator.isCrossover = true) (hkey : c.key = d.key ∨ c'.key = d'.key)
    (bar : BarDict) : c.pair bar = d.pair bar := by
  obtain ⟨e, e', he, hecross, hdiffer⟩ := hseparated
  have hpair : c.pair bar = e.pair bar :=
    (hR.keys hc he hcross hecross).resolve_left hdiffer bar
  rcases hR.keys hc hd hcross hcross' with hiff | hsame
  · -- `d` has both keys of `c`, so that `e` tells it apart as well
    have hold : c.key = d.key := hkey.elim id hiff.mpr
    have hnew : c'.key = d'.key := hiff.mp hold
    rw [hold, hnew] at hdiffer
    exact hpair.trans ((hR.keys hd he hcross' hecross).resolve_left hdiffer bar).symm
  · exact hsame bar

/-! ## §2 Memories -/

/-- Two memories hold the same values, each under its keys. -/
def MemoryLinked (R : Condition → Condition → Prop) (m m' : CrossoverValues) : Prop :=
  ∀ c c', R c c' → c.operator.isCrossover = true → m c.key = m' c'.key

/-- The same for pending values, where a separated crossover is recorded
already. -/
structure PendingLinked (R : Condition → Condition → Prop) (bar : BarDict)
    (p p' : CrossoverValues) : Prop where
  same : MemoryLinked R p p'
  separated : ∀ c c', R c c' → c.operator.isCrossover = true → Separated R c c' →
    p c.key = c.pair bar

/-- The value at a key after a condition is recorded. -/
theorem record_entry_apply (c : Condition) (bar : BarDict) (p : CrossoverValues)
    (key : String) :
    record (Condition.entry bar) p c key =
      if c.key = key then (c.pair bar).or (p key) else p key := by
  unfold record Condition.entry
  cases c.pair bar with
  | none => simp
  | some values =>
      simp only [Option.map_some, Option.some_or]
      split_ifs with hkey
      · rw [← hkey, set_self]
      · exact set_of_ne (Ne.symm hkey) p values

/-- Recording related conditions where the keys are not told apart. -/
theorem record_of_not_separated (hR : Relabelling R) {p p' : CrossoverValues} (hd : R d d')
    (hseparated : ¬Separated R c c') (h : p c.key = p' c'.key) :
    record (Condition.entry bar) p d c.key = record (Condition.entry bar) p' d' c'.key := by
  have hpair : d.pair bar = d'.pair bar := (hR.alike hd bar).pair
  rw [record_entry_apply, record_entry_apply, ← hpair]
  cases hvalues : d.pair bar with
  | none => simpa using h
  | some values =>
      have hkeys : c.key = d.key ↔ c'.key = d'.key := by
        by_contra hdiffer
        exact hseparated ⟨d, d', hd, isCrossover_of_pair hvalues, hdiffer⟩
      by_cases hkey : d.key = c.key
      · rw [if_pos hkey, if_pos (hkeys.mp hkey.symm).symm, Option.some_or, Option.some_or]
      · rw [if_neg hkey, if_neg fun hkey' => hkey (hkeys.mpr hkey'.symm).symm]
        exact h

/-- **Recording related conditions** keeps pending values linked. -/
theorem PendingLinked.record (hR : Relabelling R) {p p' : CrossoverValues}
    (h : PendingLinked R bar p p') (hd : R d d') :
    PendingLinked R bar (Lib.Dictionary.record (Condition.entry bar) p d)
      (Lib.Dictionary.record (Condition.entry bar) p' d') := by
  have hpair : d.pair bar = d'.pair bar := (hR.alike hd bar).pair
  have hold : ∀ c c', R c c' → c.operator.isCrossover = true → Separated R c c' →
      Lib.Dictionary.record (Condition.entry bar) p d c.key = c.pair bar := by
    intro c c' hc hcross hseparated
    rw [record_entry_apply, h.separated c c' hc hcross hseparated]
    split_ifs with hkey
    · cases hvalues : d.pair bar with
      | none => rfl
      | some values =>
          rw [Option.some_or, hR.pair_of_separated hc hcross hseparated hd
            (isCrossover_of_pair hvalues) (.inl hkey.symm), hvalues]
    · rfl
  refine ⟨fun c c' hc hcross => ?_, hold⟩
  by_cases hseparated : Separated R c c'
  · rw [hold c c' hc hcross hseparated, record_entry_apply, ← h.same c c' hc hcross,
      h.separated c c' hc hcross hseparated, ← hpair]
    split_ifs with hkey
    · cases hvalues : d.pair bar with
      | none => rfl
      | some values =>
          rw [Option.some_or, hR.pair_of_separated hc hcross hseparated hd
            (isCrossover_of_pair hvalues) (.inr hkey.symm), hvalues]
    · rfl
  · exact record_of_not_separated hR hd hseparated (h.same c c' hc hcross)

theorem PendingLinked.recordAll (hR : Relabelling R) {conditions conditions' : List Condition}
    (hconditions : List.Forall₂ R conditions conditions') {p p' : CrossoverValues}
    (h : PendingLinked R bar p p') :
    PendingLinked R bar (Lib.Dictionary.recordAll (Condition.entry bar) conditions p)
      (Lib.Dictionary.recordAll (Condition.entry bar) conditions' p') := by
  induction hconditions generalizing p p' with
  | nil => exact h
  | cons hd _ ih => exact ih (h.record hR hd)

/-- Crossovers that share a key and record the same operands leave these. -/
theorem recordAll_eq_pair {conditions : List Condition} (hmem : c ∈ conditions)
    (h : ∀ d ∈ conditions, d.operator.isCrossover = true → c.key = d.key →
      c.pair bar = d.pair bar) :
    recordAll (Condition.entry bar) conditions empty c.key = c.pair bar := by
  have hwritten : ∀ d ∈ conditions, ∀ values,
      Condition.entry bar d = some (c.key, values) → c.pair bar = some values := by
    intro d hd values hentry
    obtain ⟨hvalues, hkey⟩ := entry_eq_some_iff.mp hentry
    rw [h d hd (isCrossover_of_pair hvalues) hkey.symm, hvalues]
  cases hpair : c.pair bar with
  | some values =>
      refine recordAll_of_mem hmem (entry_eq_some_iff.mpr ⟨hpair, rfl⟩) ?_
      intro d hd now hentry
      exact Option.some.inj ((hwritten d hd now hentry).symm.trans hpair)
  | none =>
      have hsilent : Settled (Condition.entry bar) conditions empty c.key := by
        intro d hd now hentry
        rw [hwritten d hd now hentry] at hpair
        cases hpair
      rw [recordAll_of_settled hsilent]
      rfl

/-- **What a bar records** under the old keys and under the new ones. -/
theorem pendingLinked_recordAll (hR : Relabelling R) {conditions conditions' : List Condition}
    (hconditions : List.Forall₂ R conditions conditions')
    (hmem : ∀ c c', R c c' → c ∈ conditions ∧ c' ∈ conditions') :
    PendingLinked R bar (recordAll (Condition.entry bar) conditions empty)
      (recordAll (Condition.entry bar) conditions' empty) := by
  have hrelated : ∀ {conditions conditions' : List Condition},
      List.Forall₂ R conditions conditions' →
      (∀ d ∈ conditions, ∃ d', R d d') ∧ ∀ d' ∈ conditions', ∃ d, R d d' := by
    intro conditions conditions' h
    induction h with
    | nil => simp
    | cons hd _ ih =>
        exact ⟨List.forall_mem_cons.mpr ⟨⟨_, hd⟩, ih.1⟩,
          List.forall_mem_cons.mpr ⟨⟨_, hd⟩, ih.2⟩⟩
  have hold : ∀ c c', R c c' → c.operator.isCrossover = true → Separated R c c' →
      recordAll (Condition.entry bar) conditions empty c.key = c.pair bar := by
    intro c c' hc hcross hseparated
    refine recordAll_eq_pair (hmem c c' hc).1 fun d hd hdcross hkey => ?_
    obtain ⟨d', hd'⟩ := (hrelated hconditions).1 d hd
    exact hR.pair_of_separated hc hcross hseparated hd' hdcross (.inl hkey) bar
  refine ⟨fun c c' hc hcross => ?_, hold⟩
  by_cases hseparated : Separated R c c'
  · have hpair : c.pair bar = c'.pair bar := (hR.alike hc bar).pair
    rw [hold c c' hc hcross hseparated, hpair]
    refine (recordAll_eq_pair (hmem c c' hc).2 fun d' hd' hdcross hkey => ?_).symm
    obtain ⟨d, hd⟩ := (hrelated hconditions).2 d' hd'
    have hoperator : d.operator = d'.operator := (hR.alike hd bar).operator
    rw [← hpair, ← (hR.alike hd bar).pair]
    exact hR.pair_of_separated hc hcross hseparated hd (hoperator ▸ hdcross) (.inr hkey) bar
  · have hstep : ∀ {conditions conditions' : List Condition} {p p' : CrossoverValues},
        List.Forall₂ R conditions conditions' → p c.key = p' c'.key →
        recordAll (Condition.entry bar) conditions p c.key =
          recordAll (Condition.entry bar) conditions' p' c'.key := by
      intro conditions conditions' p p' h
      induction h generalizing p p' with
      | nil => exact fun hp => hp
      | cons hd _ ih => exact fun hp => ih (record_of_not_separated hR hd hseparated hp)
    exact hstep hconditions rfl

end Relabelled

/-! ## §3 Trees -/

mutual

/-- Two trees of one shape, with related conditions. -/
def ConditionGroup.Related (R : Condition → Condition → Prop) :
    ConditionGroup → ConditionGroup → Prop
  | .all children, group => ∃ children', group = .all children' ∧
      RelatedGroups R children children'
  | .any children, group => ∃ children', group = .any children' ∧
      RelatedGroups R children children'
  | .not children, group => ∃ children', group = .not children' ∧
      RelatedGroups R children children'
  | .condition none, group => group = .condition none
  | .condition (some c), group => ∃ c', group = .condition (some c') ∧ R c c'

/-- Two lists of related trees. -/
def RelatedGroups (R : Condition → Condition → Prop) :
    List ConditionGroup → List ConditionGroup → Prop
  | [], groups => groups = []
  | child :: children, groups => ∃ child' children', groups = child' :: children' ∧
      child.Related R child' ∧ RelatedGroups R children children'

end

/-- Two computations with equal results that leave pending values linked. -/
structure InStep {α : Type} (R : Condition → Condition → Prop) (bar : BarDict)
    (x x' : α × CrossoverValues) : Prop where
  result : x.1 = x'.1
  pending : PendingLinked R bar x.2 x'.2

section Trees

variable {R : Condition → Condition → Prop} {bar : BarDict}
  {previous previous' pending pending' : CrossoverValues}

mutual

/-- The reachable conditions of related trees are related one by one. -/
theorem conditions_related :
    ∀ {group group' : ConditionGroup}, group.Related R group' →
      List.Forall₂ R group.conditions group'.conditions
  | .all _, _, h => by
      obtain ⟨_, rfl, h⟩ := h
      exact childConditions_related h
  | .any _, _, h => by
      obtain ⟨_, rfl, h⟩ := h
      exact childConditions_related h
  | .not [], _, h => by
      obtain ⟨_, rfl, rfl⟩ := h
      exact .nil
  | .not (_ :: _), _, h => by
      obtain ⟨_, rfl, _, _, rfl, h, -⟩ := h
      rw [ConditionGroup.conditions, ConditionGroup.conditions]
      exact conditions_related h
  | .condition none, _, h => by
      obtain rfl := h
      exact .nil
  | .condition (some _), _, h => by
      obtain ⟨_, rfl, h⟩ := h
      exact .cons h .nil

theorem childConditions_related :
    ∀ {children children' : List ConditionGroup}, RelatedGroups R children children' →
      List.Forall₂ R (childConditions children) (childConditions children')
  | [], _, h => by
      obtain rfl := h
      exact .nil
  | _ :: _, _, h => by
      obtain ⟨_, _, rfl, hchild, hchildren⟩ := h
      exact List.rel_append (conditions_related hchild) (childConditions_related hchildren)

end

/-- The truth of related conditions is the same. -/
theorem evaluateCondition_related (hR : Relabelling R)
    (hprevious : MemoryLinked R previous previous') {c c' : Condition} (hc : R c c')
    (hpending : PendingLinked R bar pending pending') :
    InStep R bar (evaluateCondition c bar previous pending)
      (evaluateCondition c' bar previous' pending') := by
  have hkey := hprevious c c' hc
  constructor
  · obtain ⟨hoperator, hleft, hright⟩ := hR.alike hc bar
    obtain ⟨left, operator, right⟩ := c
    obtain ⟨left', operator', right'⟩ := c'
    dsimp only at hoperator hleft hright hkey
    subst hoperator
    unfold evaluateCondition
    cases right with
    | none =>
        obtain rfl : right' = none := by simpa using hright.symm
        cases operator <;> simp only [hleft]
    | some right =>
        obtain ⟨right', rfl, hvalue⟩ : ∃ operand, right' = some operand ∧
            resolveOperand operand bar = resolveOperand right bar := by
          simpa using hright.symm
        simp only [hleft, hvalue]
        cases operator with
        | crossesAbove | crossesBelow =>
            simp only [ConditionOperator.isCrossover, forall_const, if_true] at hkey ⊢
            cases toFloat (resolveOperand left' bar) with
            | none => rfl
            | some l =>
                cases toFloat (resolveOperand right bar) with
                | none => rfl
                | some r => simp only [crossed, hkey]
        | lt | gt | le | ge | eq | ne =>
            cases toFloat (resolveOperand left' bar) with
            | none => rfl
            | some l =>
                cases toFloat (resolveOperand right bar) with
                | none => rfl
                | some r => rfl
        | between | notBetween | isTrue | isFalse | «exists» | missing => rfl
  · rw [evaluateCondition_pending, evaluateCondition_pending]
    exact hpending.record hR hc

mutual

/-- **Related trees** have the same truth. -/
theorem evaluateBool_related (hR : Relabelling R)
    (hprevious : MemoryLinked R previous previous') :
    ∀ {group group' : ConditionGroup} {pending pending' : CrossoverValues},
      group.Related R group' → PendingLinked R bar pending pending' →
      InStep R bar (evaluateBool previous group bar pending)
        (evaluateBool previous' group' bar pending')
  | .all _, _, _, _, h, hpending => by
      obtain ⟨_, rfl, h⟩ := h
      rw [evaluateBool, evaluateBool]
      exact (evaluateChildren_related hR hprevious h hpending).1
  | .any _, _, _, _, h, hpending => by
      obtain ⟨_, rfl, h⟩ := h
      rw [evaluateBool, evaluateBool]
      exact (evaluateChildren_related hR hprevious h hpending).2
  | .not [], _, _, _, h, hpending => by
      obtain ⟨_, rfl, rfl⟩ := h
      rw [evaluateBool, evaluateBool]
      exact ⟨rfl, hpending⟩
  | .not (_ :: _), _, _, _, h, hpending => by
      obtain ⟨_, rfl, _, _, rfl, h, -⟩ := h
      rw [evaluateBool, evaluateBool]
      obtain ⟨hresult, hafter⟩ := evaluateBool_related hR hprevious h hpending
      exact ⟨congrArg Bool.not hresult, hafter⟩
  | .condition none, _, _, _, h, hpending => by
      obtain rfl := h
      rw [evaluateBool, evaluateBool]
      exact ⟨rfl, hpending⟩
  | .condition (some _), _, _, _, h, hpending => by
      obtain ⟨_, rfl, h⟩ := h
      rw [evaluateBool, evaluateBool]
      exact evaluateCondition_related hR hprevious h hpending

theorem evaluateChildren_related (hR : Relabelling R)
    (hprevious : MemoryLinked R previous previous') :
    ∀ {children children' : List ConditionGroup} {pending pending' : CrossoverValues},
      RelatedGroups R children children' → PendingLinked R bar pending pending' →
      InStep R bar (evaluateAll previous children bar pending)
          (evaluateAll previous' children' bar pending') ∧
        InStep R bar (evaluateAny previous children bar pending)
          (evaluateAny previous' children' bar pending')
  | [], _, _, _, h, hpending => by
      obtain rfl := h
      simp only [evaluateAll, evaluateAny]
      exact ⟨⟨rfl, hpending⟩, ⟨rfl, hpending⟩⟩
  | child :: _, _, pending, pending', h, hpending => by
      obtain ⟨child', _, rfl, hchild, hchildren⟩ := h
      have hstep := evaluateBool_related hR hprevious hchild hpending
      rw [evaluateAll, evaluateAll, evaluateAny, evaluateAny]
      generalize evaluateBool previous child bar pending = first at hstep
      generalize evaluateBool previous' child' bar pending' = first' at hstep
      obtain ⟨result, after⟩ := first
      obtain ⟨result', after'⟩ := first'
      obtain ⟨hresult, hafter⟩ := hstep
      dsimp only at hresult hafter
      subst hresult
      have hrest := evaluateChildren_related hR hprevious hchildren hafter
      cases result with
      | true => exact ⟨hrest.1, ⟨rfl, hafter⟩⟩
      | false => exact ⟨⟨rfl, hafter⟩, hrest.2⟩

end

theorem evaluate_related (hR : Relabelling R) (hprevious : MemoryLinked R previous previous')
    {group group' : ConditionGroup} (h : group.Related R group')
    (hpending : PendingLinked R bar pending pending') :
    InStep R bar (ConditionEvaluator.evaluate group bar previous pending)
      (ConditionEvaluator.evaluate group' bar previous' pending') := by
  unfold ConditionEvaluator.evaluate
  rw [collectState_eq_recordAll, collectState_eq_recordAll]
  exact evaluateBool_related hR hprevious h (hpending.recordAll hR (conditions_related h))

end Trees

/-! ## §4 Calls -/

/-- Two sides with related trees. -/
structure SideRules.Related (R : Condition → Condition → Prop) (rules rules' : SideRules) :
    Prop where
  entry : rules.entry.Related R rules'.entry
  exit : Option.Rel (ConditionGroup.Related R) rules.exit rules'.exit
  entryConfidence : rules.entryConfidence = rules'.entryConfidence
  exitConfidence : rules.exitConfidence = rules'.exitConfidence

/-- Two definitions with related trees on the same sides, and the same prices. -/
structure StrategyDefinition.Related (R : Condition → Condition → Prop)
    (definition definition' : StrategyDefinition) : Prop where
  sides : List.Forall₂ (fun side side' => side.1 = side'.1 ∧ side.2.Related R side'.2)
    definition.sides definition'.sides
  prices : ∀ bar side, JsonRiskPriceCalculator.calculate definition.risk bar side =
    JsonRiskPriceCalculator.calculate definition'.risk bar side
  reached : ∀ c c', R c c' → c ∈ definition.conditions ∧ c' ∈ definition'.conditions

section Calls

variable {R : Condition → Condition → Prop} {definition definition' : StrategyDefinition}
  {bar : BarDict} {previous previous' pending pending' : CrossoverValues}

theorem optionalConditions_related {exit exit' : Option ConditionGroup}
    (h : Option.Rel (ConditionGroup.Related R) exit exit') :
    List.Forall₂ R (optionalConditions exit) (optionalConditions exit') := by
  cases h with
  | none => exact .nil
  | some h => exact conditions_related h

/-- The conditions of related definitions are related one by one. -/
theorem definition_conditions_related (h : definition.Related R definition') :
    List.Forall₂ R definition.conditions definition'.conditions := by
  have hsides := h.sides
  unfold StrategyDefinition.conditions
  generalize definition.sides = sides at hsides
  generalize definition'.sides = sides' at hsides
  induction hsides with
  | nil => exact .nil
  | cons hside _ ih =>
      exact List.rel_append (List.rel_append (conditions_related hside.2.entry)
        (optionalConditions_related hside.2.exit)) ih

/-- The rules of a side are there in both definitions, or in none. -/
theorem lookup_related (h : definition.Related R definition') (name : String) :
    Option.Rel (SideRules.Related R) (definition.sides.lookup name)
      (definition'.sides.lookup name) := by
  have hsides := h.sides
  generalize definition.sides = sides at hsides
  generalize definition'.sides = sides' at hsides
  induction hsides with
  | nil => exact .none
  | @cons side side' _ _ hside _ ih =>
      obtain ⟨key, rules⟩ := side
      obtain ⟨key', rules'⟩ := side'
      obtain ⟨hkey, hrules⟩ := hside
      dsimp only at hkey hrules
      subst hkey
      rw [List.lookup_cons, List.lookup_cons]
      cases name == key with
      | true => exact .some hrules
      | false => exact ih

theorem sideEntrySignal_related (hR : Relabelling R) (h : definition.Related R definition')
    (hprevious : MemoryLinked R previous previous')
    (hpending : PendingLinked R bar pending pending') (side : Side) :
    InStep R bar (sideEntrySignal definition bar previous pending side)
      (sideEntrySignal definition' bar previous' pending' side) := by
  unfold sideEntrySignal
  have hrules := lookup_related h (sideName side)
  generalize definition.sides.lookup (sideName side) = rules at hrules
  generalize definition'.sides.lookup (sideName side) = rules' at hrules
  cases hrules with
  | none => exact ⟨rfl, hpending⟩
  | @some rules rules' hrules =>
      have hstep := evaluate_related hR hprevious hrules.entry hpending
      dsimp only
      generalize ConditionEvaluator.evaluate rules.entry bar previous pending = x at hstep
      generalize ConditionEvaluator.evaluate rules'.entry bar previous' pending' = x' at hstep
      obtain ⟨result, after⟩ := x
      obtain ⟨result', after'⟩ := x'
      obtain ⟨hresult, hafter⟩ := hstep
      dsimp only at hresult hafter
      subst hresult
      cases result with
      | false => exact ⟨rfl, hafter⟩
      | true =>
          dsimp only
          rw [h.prices bar side, hrules.entryConfidence]
          cases JsonRiskPriceCalculator.calculate definition'.risk bar side with
          | error e => exact ⟨rfl, hafter⟩
          | ok prices => exact ⟨rfl, hafter⟩

theorem entrySignal_related (hR : Relabelling R) (h : definition.Related R definition')
    (hprevious : MemoryLinked R previous previous')
    (hpending : PendingLinked R bar pending pending') :
    InStep R bar (entrySignal definition bar previous pending)
      (entrySignal definition' bar previous' pending') := by
  have hlong := sideEntrySignal_related hR h hprevious hpending .long
  unfold entrySignal
  generalize sideEntrySignal definition bar previous pending .long = x at hlong
  generalize sideEntrySignal definition' bar previous' pending' .long = x' at hlong
  obtain ⟨result, after⟩ := x
  obtain ⟨result', after'⟩ := x'
  obtain ⟨hresult, hafter⟩ := hlong
  dsimp only at hresult hafter
  subst hresult
  cases result with
  | error e => exact ⟨rfl, hafter⟩
  | ok signal =>
      cases signal with
      | some signal => exact ⟨rfl, hafter⟩
      | none =>
          have hshort := sideEntrySignal_related hR h hprevious hafter .short
          dsimp only
          generalize sideEntrySignal definition bar previous after .short = y at hshort
          generalize sideEntrySignal definition' bar previous' after' .short = y' at hshort
          obtain ⟨result, final⟩ := y
          obtain ⟨result', final'⟩ := y'
          obtain ⟨hresult, hfinal⟩ := hshort
          dsimp only at hresult hfinal
          subst hresult
          cases result with
          | error e => exact ⟨rfl, hfinal⟩
          | ok signal =>
              cases signal with
              | some signal => exact ⟨rfl, hfinal⟩
              | none => exact ⟨rfl, hfinal⟩

theorem exitSignal_related (hR : Relabelling R) (h : definition.Related R definition')
    (hprevious : MemoryLinked R previous previous')
    (hpending : PendingLinked R bar pending pending') (direction : String) :
    InStep R bar (exitSignal definition bar direction previous pending)
      (exitSignal definition' bar direction previous' pending') := by
  unfold exitSignal
  have hrules := lookup_related h direction
  generalize definition.sides.lookup direction = rules at hrules
  generalize definition'.sides.lookup direction = rules' at hrules
  cases hrules with
  | none => exact ⟨rfl, hpending⟩
  | @some rules rules' hrules =>
      obtain ⟨-, hexit, -, hconfidence⟩ := hrules
      dsimp only
      rw [hconfidence]
      generalize rules.exit = exit at hexit
      generalize rules'.exit = exit' at hexit
      cases hexit with
      | none => exact ⟨rfl, hpending⟩
      | @some exit exit' hexit =>
          have hstep := evaluate_related hR hprevious hexit hpending
          dsimp only
          generalize ConditionEvaluator.evaluate exit bar previous pending = x at hstep
          generalize ConditionEvaluator.evaluate exit' bar previous' pending' = x' at hstep
          obtain ⟨result, after⟩ := x
          obtain ⟨result', after'⟩ := x'
          obtain ⟨hresult, hafter⟩ := hstep
          dsimp only at hresult hafter
          subst hresult
          cases result with
          | false => exact ⟨rfl, hafter⟩
          | true => exact ⟨rfl, hafter⟩

theorem barSignal_related (hR : Relabelling R) (h : definition.Related R definition')
    (hprevious : MemoryLinked R previous previous') (bar : BarDict) (position : PositionDict)
    (size : PyFloat) :
    InStep R bar (barSignal definition previous bar position size)
      (barSignal definition' previous' bar position size) := by
  have hcollected : PendingLinked R bar (collectSides definition.sides bar empty)
      (collectSides definition'.sides bar empty) := by
    rw [collectSides_eq_recordAll, collectSides_eq_recordAll]
    exact pendingLinked_recordAll hR (definition_conditions_related h) h.reached
  unfold barSignal
  dsimp only
  split_ifs with hsize
  · obtain ⟨hsignal, hafter⟩ :=
      exitSignal_related hR h hprevious hcollected position.direction
    exact ⟨congrArg Except.ok hsignal, hafter⟩
  · exact entrySignal_related hR h hprevious hcollected

/-- **One call** of related strategies: the same signal, and memories that hold
the same values. -/
theorem onBar_related (hR : Relabelling R) (h : definition.Related R definition')
    (hprevious : MemoryLinked R previous previous') (bar : BarDict)
    (position : Option PositionDict) :
    MemoryLinked R (JsonRuleBasedStrategy.onBar definition previous bar position).1
        (JsonRuleBasedStrategy.onBar definition' previous' bar position).1 ∧
      (JsonRuleBasedStrategy.onBar definition previous bar position).2 =
        (JsonRuleBasedStrategy.onBar definition' previous' bar position).2 := by
  unfold JsonRuleBasedStrategy.onBar
  dsimp only
  cases (position.getD []).size with
  | error e => exact ⟨hprevious, rfl⟩
  | ok size =>
      have hstep := barSignal_related hR h hprevious bar (position.getD []) size
      dsimp only
      generalize barSignal definition previous bar (position.getD []) size = x at hstep
      generalize barSignal definition' previous' bar (position.getD []) size = x' at hstep
      obtain ⟨result, after⟩ := x
      obtain ⟨result', after'⟩ := x'
      obtain ⟨hresult, hafter⟩ := hstep
      dsimp only at hresult hafter
      subst hresult
      cases result with
      | error e => exact ⟨hprevious, rfl⟩
      | ok signal =>
          refine ⟨fun c c' hc hcross => ?_, rfl⟩
          show (after c.key).or (previous c.key) = (after' c'.key).or (previous' c'.key)
          rw [hafter.same c c' hc hcross, hprevious c c' hc hcross]

end Calls

/-! ## §5 Runs -/

/-- **Two runs** of related strategies over the same bars and positions: the same
signal at every bar. -/
theorem run_related {R : Condition → Condition → Prop}
    {definition definition' : StrategyDefinition} (hR : Relabelling R)
    (h : definition.Related R definition') (bars : ℕ → BarDict)
    (positions : ℕ → Option PositionDict) (i : ℕ) :
    MemoryLinked R (JsonRuleBasedStrategy.memoryAfter definition bars positions i)
        (JsonRuleBasedStrategy.memoryAfter definition' bars positions i) ∧
      (JsonRuleBasedStrategy.onBar definition
          (JsonRuleBasedStrategy.memoryAfter definition bars positions i) (bars i)
          (positions i)).2 =
        (JsonRuleBasedStrategy.onBar definition'
          (JsonRuleBasedStrategy.memoryAfter definition' bars positions i) (bars i)
          (positions i)).2 := by
  induction i with
  | zero =>
      have hempty : MemoryLinked R JsonRuleBasedStrategy.onReset JsonRuleBasedStrategy.onReset :=
        fun _ _ _ _ => rfl
      exact ⟨hempty, (onBar_related hR h hempty (bars 0) (positions 0)).2⟩
  | succ i ih =>
      have hmemory := (onBar_related hR h ih.1 (bars i) (positions i)).1
      exact ⟨hmemory, (onBar_related hR h hmemory (bars (i + 1)) (positions (i + 1))).2⟩

end Finbar.Evaluation
