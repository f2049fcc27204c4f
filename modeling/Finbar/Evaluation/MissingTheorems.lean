/-
Finbar.Evaluation.MissingTheorems — what missing values make of conditions.

A comparison, a range or a crossover is false when one of the values it needs is
missing or no number (`evaluateCondition_of_unreadable`). In a tree of `all` and
`any` over such conditions, operands that go missing turn the tree off at most
(`evaluate_of_fades`). An operand that falls back to one of its sources does not go
missing, and `missing`, `is_false` and `not_between` are true of missing values.

No `sorry`, no `axiom`.
-/
import Finbar.Evaluation.Footprint

namespace Finbar.Evaluation

open Lib Lib.Python Lib.Dictionary

/-! ## §1 Conditions that need values -/

/-- Comparisons, `between` and the crossovers. -/
def ConditionOperator.needsValues : ConditionOperator → Bool
  | lt | gt | le | ge | eq | ne => true
  | crossesAbove | crossesBelow => true
  | between => true
  | notBetween | isTrue | isFalse | «exists» | missing => false

/-- The values on the right that an operator needs are numbers: both ends of a range,
and one number otherwise. -/
def RightReadable (operator : ConditionOperator) (right : PyValue) : Prop :=
  match operator with
  | .between => ∃ low high, right = .list [low, high] ∧ (toFloat low).isSome ∧
      (toFloat high).isSome
  | _ => (toFloat right).isSome

/-- The left operand and the values on the right are there and are numbers. -/
def Condition.Readable (condition : Condition) (bar : BarDict) : Prop :=
  (toFloat (resolveOperand condition.left bar)).isSome ∧
    ∃ right, condition.right = some right ∧
      RightReadable condition.operator (resolveOperand right bar)

/-- A range is compared with two numbers. -/
theorem between_readable {left right : PyValue} (h : between left right = true) :
    (toFloat left).isSome ∧ RightReadable .between right := by
  unfold between at h
  split at h
  · rename_i x low high hleft
    rw [hleft]
    split at h
    · rename_i lowNumber highNumber hlow hhigh
      exact ⟨rfl, low, high, rfl, by rw [hlow]; rfl, by rw [hhigh]; rfl⟩
    · cases h
  · cases h

/-- **A condition that is true has read its values.** -/
theorem evaluateCondition_readable {condition : Condition} {bar : BarDict}
    {previous pending : CrossoverValues} (hneeds : condition.operator.needsValues = true)
    (h : (evaluateCondition condition bar previous pending).1 = true) :
    condition.Readable bar := by
  obtain ⟨left, operator, right⟩ := condition
  unfold evaluateCondition at h
  cases right with
  | none => cases operator <;> simp_all [ConditionOperator.needsValues]
  | some right =>
      cases operator with
      | between =>
          obtain ⟨hleft, hright⟩ := between_readable h
          exact ⟨hleft, right, rfl, hright⟩
      | lt | gt | le | ge | eq | ne | crossesAbove | crossesBelow =>
          refine ⟨?_, right, rfl, ?_⟩
          · cases hleft : toFloat (resolveOperand left bar) with
            | none => simp [hleft] at h
            | some x => rfl
          · cases hright : toFloat (resolveOperand right bar) with
            | none => simp [hright] at h
            | some x => exact Option.isSome_iff_exists.mpr ⟨x, hright⟩
      | notBetween | isTrue | isFalse | «exists» | missing => cases hneeds

/-- **Missing values turn a condition off.** -/
theorem evaluateCondition_of_unreadable {condition : Condition} {bar : BarDict}
    (hneeds : condition.operator.needsValues = true) (h : ¬ condition.Readable bar)
    (previous pending : CrossoverValues) :
    (evaluateCondition condition bar previous pending).1 = false := by
  by_contra htrue
  exact h (evaluateCondition_readable hneeds (eq_true_of_ne_false htrue))

/-! ## §2 Operands that go missing -/

/-- Columns of the bar go missing, the others stay. -/
def GoesMissing (bar bar' : BarDict) : Prop :=
  ∀ key, bar'.get key = bar.get key ∨ present (bar'.get key) = false

/-- The operand resolves as before, or to missing. -/
def Operand.Fades (operand : Operand) (bar bar' : BarDict) : Prop :=
  resolveOperand operand bar' = resolveOperand operand bar ∨ resolveOperand operand bar' = .none

/-- So do the operands of the condition. -/
def Condition.Fades (condition : Condition) (bar bar' : BarDict) : Prop :=
  condition.left.Fades bar bar' ∧ ∀ right, condition.right = some right → right.Fades bar bar'

/-- An operand without sources goes missing with its column. -/
theorem Operand.fades_of_goesMissing {operand : Operand} {bar bar' : BarDict}
    (h : GoesMissing bar bar') (hsources : operand.sources = []) : operand.Fades bar bar' := by
  unfold Operand.Fades resolveOperand
  split
  · simp only [hsources, List.map_cons, List.map_nil]
    rcases h operand.value.toStr with hsame | hmissing
    · exact .inl (by rw [hsame])
    · exact .inr (by simp [hmissing])
  · exact .inl rfl

/-- The truth of a condition does not depend on the pending values. -/
theorem evaluateCondition_pending_irrelevant (condition : Condition) (bar : BarDict)
    (previous pending pending' : CrossoverValues) :
    (evaluateCondition condition bar previous pending).1
      = (evaluateCondition condition bar previous pending').1 := by
  obtain ⟨left, operator, right⟩ := condition
  unfold evaluateCondition
  cases right with
  | none => cases operator <;> rfl
  | some right =>
      cases operator with
      | between | notBetween | isTrue | isFalse | «exists» | missing => rfl
      | lt | gt | le | ge | eq | ne | crossesAbove | crossesBelow =>
          simp only
          cases toFloat (resolveOperand left bar) with
          | none => rfl
          | some x =>
              cases toFloat (resolveOperand right bar) with
              | none => rfl
              | some y => rfl

theorem RightReadable.ne_none {operator : ConditionOperator} {right : PyValue}
    (h : RightReadable operator right) : right ≠ .none := by
  rintro rfl
  cases operator with
  | between =>
      obtain ⟨low, high, hlist, -⟩ := h
      cases hlist
  | lt | gt | le | ge | eq | ne | crossesAbove | crossesBelow | notBetween | isTrue | isFalse
  | «exists» | missing => cases h

/-- A condition that is true after operands went missing was true before: it has read
its values, so they are the old ones. -/
theorem evaluateCondition_of_fades {condition : Condition} {bar bar' : BarDict}
    {previous pending pending' : CrossoverValues}
    (hneeds : condition.operator.needsValues = true) (hfades : condition.Fades bar bar')
    (h : (evaluateCondition condition bar' previous pending').1 = true) :
    (evaluateCondition condition bar previous pending).1 = true := by
  obtain ⟨hleft, right, hright, hreadable⟩ := evaluateCondition_readable hneeds h
  have hsame : ReadsAlike bar' bar condition condition := by
    refine ⟨rfl, hfades.1.resolve_right ?_, ?_⟩
    · intro hnone
      rw [hnone] at hleft
      cases hleft
    · rw [hright, Option.map_some, Option.map_some,
        (hfades.2 right hright).resolve_right hreadable.ne_none]
  rw [evaluateCondition_congr hsame] at h
  rwa [evaluateCondition_pending_irrelevant condition bar previous pending pending']

/-! ## §3 Trees without negation -/

mutual

/-- The tree is built from `all` and `any`. -/
def ConditionGroup.NegationFree : ConditionGroup → Prop
  | .all children => ChildrenNegationFree children
  | .any children => ChildrenNegationFree children
  | .not _ => False
  | .condition _ => True

def ChildrenNegationFree : List ConditionGroup → Prop
  | [] => True
  | child :: children => child.NegationFree ∧ ChildrenNegationFree children

end

/-- The conditions need their values, and operands go missing at most. -/
def AllFade (conditions : List Condition) (bar bar' : BarDict) : Prop :=
  ∀ c ∈ conditions, c.operator.needsValues = true ∧ c.Fades bar bar'

section Trees

variable {bar bar' : BarDict}

mutual

/-- **A tree without negation that is true after operands went missing was true
before**, whatever is pending; one case for each kind of group. -/
theorem evaluateBool_of_fades (previous : CrossoverValues) :
    ∀ (group : ConditionGroup) (pending pending' : CrossoverValues), group.NegationFree →
      AllFade group.conditions bar bar' →
      (evaluateBool previous group bar' pending').1 = true →
        (evaluateBool previous group bar pending).1 = true
  | .all children, pending, pending', hfree, hfade, h => by
      rw [ConditionGroup.conditions] at hfade
      rw [ConditionGroup.NegationFree] at hfree
      rw [evaluateBool] at h ⊢
      exact (evaluateChildren_of_fades previous children pending pending' hfree hfade).1 h
  | .any children, pending, pending', hfree, hfade, h => by
      rw [ConditionGroup.conditions] at hfade
      rw [ConditionGroup.NegationFree] at hfree
      rw [evaluateBool] at h ⊢
      exact (evaluateChildren_of_fades previous children pending pending' hfree hfade).2 h
  | .not children, _, _, hfree, _, _ => by
      rw [ConditionGroup.NegationFree] at hfree
      exact hfree.elim
  | .condition none, _, _, _, _, h => by
      rw [evaluateBool] at h
      cases h
  | .condition (some condition), pending, pending', _, hfade, h => by
      obtain ⟨hneeds, hfades⟩ := hfade condition (by simp [ConditionGroup.conditions])
      rw [evaluateBool] at h ⊢
      exact evaluateCondition_of_fades hneeds hfades h

theorem evaluateChildren_of_fades (previous : CrossoverValues) :
    ∀ (children : List ConditionGroup) (pending pending' : CrossoverValues),
      ChildrenNegationFree children → AllFade (childConditions children) bar bar' →
      ((evaluateAll previous children bar' pending').1 = true →
          (evaluateAll previous children bar pending).1 = true) ∧
        ((evaluateAny previous children bar' pending').1 = true →
          (evaluateAny previous children bar pending).1 = true)
  | [], _, _, _, _ => by simp [evaluateAll, evaluateAny]
  | child :: children, pending, pending', hfree, hfade => by
      rw [ChildrenNegationFree] at hfree
      simp only [AllFade, childConditions, List.mem_append] at hfade
      have hchild := evaluateBool_of_fades previous child pending pending' hfree.1
        fun c hc => hfade c (.inl hc)
      have hrest := fun after after' => evaluateChildren_of_fades previous children after after'
        hfree.2 fun c hc => hfade c (.inr hc)
      rw [evaluateAll, evaluateAll, evaluateAny, evaluateAny]
      generalize evaluateBool previous child bar' pending' = childNow at hchild ⊢
      generalize evaluateBool previous child bar pending = childBefore at hchild ⊢
      obtain ⟨now, after'⟩ := childNow
      obtain ⟨before, after⟩ := childBefore
      cases now with
      | true =>
          obtain rfl : before = true := hchild rfl
          exact ⟨(hrest after after').1, fun _ => rfl⟩
      | false =>
          refine ⟨nofun, fun h => ?_⟩
          cases before with
          | true => rfl
          | false => exact (hrest after after').2 h

end

end Trees

/-- **Missing values turn conditions and trees off.** A comparison, `between` or a
crossover is false when a value it needs is missing or no number; and a tree of `all`
and `any` over such conditions that fires after operands went missing fired before. -/
theorem missing_turns_off (previous : CrossoverValues) :
    (∀ (condition : Condition) (bar : BarDict) (pending : CrossoverValues),
      condition.operator.needsValues = true → ¬ condition.Readable bar →
        (evaluateCondition condition bar previous pending).1 = false) ∧
    ∀ (group : ConditionGroup) (bar bar' : BarDict) (pending pending' : CrossoverValues),
      group.NegationFree → AllFade group.conditions bar bar' →
      (ConditionEvaluator.evaluate group bar' previous pending').1 = true →
        (ConditionEvaluator.evaluate group bar previous pending).1 = true :=
  ⟨fun _ _ pending hneeds hnot => evaluateCondition_of_unreadable hneeds hnot previous pending,
    fun group _ _ _ _ hfree hfade h => evaluateBool_of_fades previous group _ _ hfree hfade h⟩

def literalOperand (value : PyValue) : Operand where
  kind := .literal
  value := value

/-- A column is above `30`. -/
def aboveThirty (operand : Operand) : Condition :=
  { left := operand, operator := .gt, right := some (literalOperand (.ofRat 30)) }

/-- `rsi` goes missing: `rsi > 30` is false, and `rsi > 30` or `ema > 30` fires because it
fired before. -/
theorem missing_turns_off_rsi :
    (evaluateCondition (aboveThirty (indicatorOperand "rsi" "rsi")) [("rsi", .none)] empty
        empty).1 = false ∧
      (ConditionEvaluator.evaluate
        (.any [.condition (some (aboveThirty (indicatorOperand "rsi" "rsi"))),
          .condition (some (aboveThirty (indicatorOperand "ema" "ema")))])
        [("rsi", .ofRat 40), ("ema", .ofRat 50)] empty empty).1 = true := by
  have hgone : GoesMissing [("rsi", .ofRat 40), ("ema", .ofRat 50)]
      [("rsi", .none), ("ema", .ofRat 50)] := by
    intro key
    by_cases hkey : key = "rsi"
    · subst hkey
      exact .inr rfl
    · exact .inl (by simp [BarDict.get, lookup_cons_ite, hkey])
  have hfades : ∀ column, (aboveThirty (indicatorOperand column column)).Fades
      [("rsi", .ofRat 40), ("ema", .ofRat 50)] [("rsi", .none), ("ema", .ofRat 50)] := by
    refine fun column => ⟨Operand.fades_of_goesMissing hgone rfl, fun right hright => ?_⟩
    cases hright
    exact .inl rfl
  refine ⟨(missing_turns_off empty).1 _ _ _ rfl ?_, (missing_turns_off empty).2 _ _
    [("rsi", .none), ("ema", .ofRat 50)] empty empty ?_ ?_ (by decide +kernel)⟩
  · rintro ⟨hleft, -⟩
    cases hleft
  · simp [ConditionGroup.NegationFree, ChildrenNegationFree]
  · intro c hc
    simp only [ConditionGroup.conditions, childConditions, List.append_nil,
      List.singleton_append, List.mem_cons, List.not_mem_nil, or_false] at hc
    rcases hc with rfl | rfl
    · exact ⟨rfl, hfades "rsi"⟩
    · exact ⟨rfl, hfades "ema"⟩

/-- The column `rsi`, or else the column `sma`. -/
def rsiOrSma : Operand where
  kind := .indicator
  value := .str "rsi"
  sources := ["sma"]

/-- When `rsi` goes missing, `rsi > 30` is compared with the source `sma` and fires, and
so does `rsi missing`; and `not_between` is true of a missing value. -/
theorem missing_turns_on :
    let above : ConditionGroup := .condition (some (aboveThirty rsiOrSma))
    let absent : ConditionGroup := .condition (some ⟨indicatorOperand "rsi" "rsi", .missing, none⟩)
    let outside : Condition :=
      ⟨indicatorOperand "rsi" "rsi", .notBetween,
        some (literalOperand (.list [.ofRat 30, .ofRat 70]))⟩
    let bar : BarDict := [("rsi", .ofRat 10), ("sma", .ofRat 50)]
    let bar' : BarDict := [("rsi", .none), ("sma", .ofRat 50)]
    let fires := fun (group : ConditionGroup) (bar : BarDict) =>
      (ConditionEvaluator.evaluate group bar empty empty).1
    (fires above bar = false ∧ fires above bar' = true) ∧
      (fires absent bar = false ∧ fires absent bar' = true) ∧
      resolveOperand outside.left bar' = .none ∧
      (evaluateCondition outside bar' empty empty).1 = true :=
  ⟨by decide +kernel, by decide +kernel, rfl, by decide +kernel⟩

end Finbar.Evaluation
