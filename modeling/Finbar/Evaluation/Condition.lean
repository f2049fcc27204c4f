/-
Finbar.Evaluation.Condition — condition trees and `ConditionEvaluator`.

The evaluator walks a tree twice: `collectState` records the operands of
every crossover in the pending values, `evaluateBool` computes the truth of
the tree with short-circuiting `all` and `any`. Evaluating a crossover writes
its pending value again, so the second walk threads the pending values too.

No `sorry`, no `axiom`.
-/
import Finbar.Lib.PyValue
import Finbar.Lib.Dictionary

namespace Finbar.Evaluation

open Lib.Python Lib.Dictionary

/-! ## §1 Operands and conditions -/

/-- `Operand.kind`. -/
inductive OperandKind where
  | field
  | indicator
  | feature
  | column
  | param
  | literal
  deriving DecidableEq, Repr

/-- Operands of this kind are read from the bar. -/
def OperandKind.isColumn : OperandKind → Bool
  | field => true
  | indicator => true
  | feature => true
  | column => true
  | param => false
  | literal => false

/-- `Operand`: one side of a condition. -/
structure Operand where
  kind : OperandKind
  /-- The bar key of a column operand, else the value itself. -/
  value : PyValue
  label : String := ""
  /-- Fallback bar keys, tried in order. -/
  sources : List String := []

/-- `Condition.operator`. -/
inductive ConditionOperator where
  | lt
  | gt
  | le
  | ge
  | eq
  | ne
  | crossesAbove
  | crossesBelow
  | between
  | notBetween
  | isTrue
  | isFalse
  | exists
  | missing
  deriving DecidableEq, Repr

/-- The operator as it is written. -/
def ConditionOperator.value : ConditionOperator → String
  | lt => "<"
  | gt => ">"
  | le => "<="
  | ge => ">="
  | eq => "=="
  | ne => "!="
  | crossesAbove => "crosses_above"
  | crossesBelow => "crosses_below"
  | between => "between"
  | notBetween => "not_between"
  | isTrue => "is_true"
  | isFalse => "is_false"
  | «exists» => "exists"
  | missing => "missing"

/-- `_CROSSOVER_OPERATORS`. -/
def ConditionOperator.isCrossover : ConditionOperator → Bool
  | crossesAbove => true
  | crossesBelow => true
  | _ => false

/-- `Condition`: a comparison between operands. -/
structure Condition where
  left : Operand
  operator : ConditionOperator
  right : Option Operand := none

/-- `ConditionGroup`: a tree of conditions. `not` negates its first child. -/
inductive ConditionGroup where
  | all (children : List ConditionGroup)
  | any (children : List ConditionGroup)
  | not (children : List ConditionGroup)
  | condition (condition : Option Condition)

/-! ## §2 Values -/

/-- An enriched bar: a row as a dictionary. -/
abbrev BarDict := List (String × PyValue)

/-- `bar.get(key)`. -/
def BarDict.get (bar : BarDict) (key : String) : PyValue :=
  (bar.lookup key).getD .none

/-- The value is present: neither `None` nor the float NaN (`_is_nan`). -/
def present (value : PyValue) : Bool := !value.isMissing

/-- `_resolve_operand`. -/
def resolveOperand (operand : Operand) (bar : BarDict) : PyValue :=
  if operand.kind.isColumn then
    let keys := operand.value.toStr :: operand.sources
    ((keys.map bar.get).find? present).getD .none
  else operand.value

/-- `_to_float`: the number a value reads as. Booleans do not count as
numbers, nor does NaN. -/
def toFloat : PyValue → Option PyFloat
  | .none => none
  | .bool _ => none
  | value =>
      match value.toFloat with
      | .ok x => if x.isNan then none else some x
      | .error _ => none

/-- `_between`. -/
def between (left right : PyValue) : Bool :=
  match toFloat left, right with
  | some x, .list [low, high] =>
      match toFloat low, toFloat high with
      | some low, some high => low.le x && x.le high
      | _, _ => false
  | _, _ => false

/-- `_compare`: equality is up to `1e-9`. -/
def compare (left : PyFloat) (operator : ConditionOperator) (right : PyFloat) : Bool :=
  match operator with
  | .lt => left.lt right
  | .gt => right.lt left
  | .le => left.le right
  | .ge => right.le left
  | .eq => (left.sub right).abs.lt (.fin (1 / 10 ^ 9))
  | .ne => (PyFloat.fin (1 / 10 ^ 9)).le (left.sub right).abs
  | _ => false

/-! ## §3 Crossovers -/

/-- `PrevValues`, `PendingValues`: crossover operands by key. -/
abbrev CrossoverValues := Dict String (PyFloat × PyFloat)

/-- `_CROSSOVER_KEY_SEP`. -/
def crossoverKeySep : String := "\x1f"

/-- `_crossover_key`. -/
def crossoverKey (leftLabel rightLabel operator : String) : String :=
  leftLabel ++ crossoverKeySep ++ rightLabel ++ crossoverKeySep ++ operator

/-- The key under which a condition's crossover values are kept. -/
def Condition.key (condition : Condition) : String :=
  crossoverKey condition.left.label ((condition.right.map Operand.label).getD "")
    condition.operator.value

/-- The operands of a crossover, if both read as numbers. -/
def Condition.pair (condition : Condition) (bar : BarDict) : Option (PyFloat × PyFloat) :=
  if condition.operator.isCrossover then
    match condition.right with
    | none => none
    | some right =>
        match toFloat (resolveOperand condition.left bar),
            toFloat (resolveOperand right bar) with
        | some left, some right => some (left, right)
        | _, _ => none
  else none

/-- `_collect_crossover`: record the operands of a crossover. -/
def collectCrossover (condition : Condition) (bar : BarDict) (pending : CrossoverValues) :
    CrossoverValues :=
  match condition.pair bar with
  | some values => set pending condition.key values
  | none => pending

/-- The crossing that an operator asks for, from the previous operands to the
present ones. -/
def crosses (operator : ConditionOperator) (previous now : PyFloat × PyFloat) : Bool :=
  match operator with
  | .crossesAbove => previous.1.le previous.2 && now.2.lt now.1
  | .crossesBelow => previous.2.le previous.1 && now.1.lt now.2
  | _ => false

/-- `_crossed`, with the pending values it writes. -/
def crossed (condition : Condition) (left right : PyFloat)
    (previous pending : CrossoverValues) : Bool × CrossoverValues :=
  let result :=
    match previous condition.key with
    | none => false
    | some values => crosses condition.operator values (left, right)
  (result, set pending condition.key (left, right))

/-! ## §4 The two walks -/

/-- `_evaluate_condition`. -/
def evaluateCondition (condition : Condition) (bar : BarDict)
    (previous pending : CrossoverValues) : Bool × CrossoverValues :=
  let left := resolveOperand condition.left bar
  match condition.operator with
  | .exists => (match left with | .none => false | _ => true, pending)
  | .missing => (match left with | .none => true | _ => false, pending)
  | .isTrue => (left.truthy, pending)
  | .isFalse => (!left.truthy, pending)
  | operator =>
      match condition.right with
      | none => (false, pending)
      | some rightOperand =>
          let right := resolveOperand rightOperand bar
          match operator with
          | .between => (between left right, pending)
          | .notBetween => (!between left right, pending)
          | operator =>
              match toFloat left, toFloat right with
              | some left, some right =>
                  if operator.isCrossover then crossed condition left right previous pending
                  else (compare left operator right, pending)
              | _, _ => (false, pending)

mutual

/-- `_collect_state`: record the operands of every crossover of a tree. -/
def collectState : ConditionGroup → BarDict → CrossoverValues → CrossoverValues
  | .all children, bar, pending => collectStates children bar pending
  | .any children, bar, pending => collectStates children bar pending
  | .not [], _, pending => pending
  | .not (child :: _), bar, pending => collectState child bar pending
  | .condition none, _, pending => pending
  | .condition (some condition), bar, pending => collectCrossover condition bar pending

/-- The children of a group, in order. -/
def collectStates : List ConditionGroup → BarDict → CrossoverValues → CrossoverValues
  | [], _, pending => pending
  | child :: children, bar, pending =>
      collectStates children bar (collectState child bar pending)

end

mutual

/-- `_evaluate_bool`, with the pending values it leaves. -/
def evaluateBool (previous : CrossoverValues) :
    ConditionGroup → BarDict → CrossoverValues → Bool × CrossoverValues
  | .all children, bar, pending => evaluateAll previous children bar pending
  | .any children, bar, pending => evaluateAny previous children bar pending
  | .not [], _, pending => (false, pending)
  | .not (child :: _), bar, pending =>
      let (result, pending) := evaluateBool previous child bar pending
      (!result, pending)
  | .condition none, _, pending => (false, pending)
  | .condition (some condition), bar, pending =>
      evaluateCondition condition bar previous pending

/-- `all(results)`: up to the first false child. -/
def evaluateAll (previous : CrossoverValues) :
    List ConditionGroup → BarDict → CrossoverValues → Bool × CrossoverValues
  | [], _, pending => (true, pending)
  | child :: children, bar, pending =>
      match evaluateBool previous child bar pending with
      | (true, pending) => evaluateAll previous children bar pending
      | (false, pending) => (false, pending)

/-- `any(results)`: up to the first true child. -/
def evaluateAny (previous : CrossoverValues) :
    List ConditionGroup → BarDict → CrossoverValues → Bool × CrossoverValues
  | [], _, pending => (false, pending)
  | child :: children, bar, pending =>
      match evaluateBool previous child bar pending with
      | (true, pending) => (true, pending)
      | (false, pending) => evaluateAny previous children bar pending

end

/-- `collect_state`: `None` has no state. -/
def ConditionEvaluator.collectState (group : Option ConditionGroup) (bar : BarDict)
    (pending : CrossoverValues) : CrossoverValues :=
  match group with
  | none => pending
  | some group => Evaluation.collectState group bar pending

/-- `commit`. -/
def ConditionEvaluator.commit (previous pending : CrossoverValues) : CrossoverValues :=
  update previous pending

/-- `evaluate` with the caller's pending values: collect the state of the
tree, then evaluate it. -/
def ConditionEvaluator.evaluate (group : ConditionGroup) (bar : BarDict)
    (previous pending : CrossoverValues) : Bool × CrossoverValues :=
  evaluateBool previous group bar (Evaluation.collectState group bar pending)

end Finbar.Evaluation
