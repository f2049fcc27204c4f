/-
Finbar.Indicators.Formula — `PandasFormulaFeatureCalculator`.

`parseOperand` is `_parse_node` and `_parse_operand` in one: on every value
each of the two hands over to the other wherever they differ. A leaf keeps
the operand it was parsed from and its place in the tree, which the source
does not keep. The operations of pandas are a parameter.

No `sorry`, no `axiom`.
-/
import Finbar.Parser.Collector

namespace Finbar.Indicators

open Lib Lib.Python

/-! ## §1 Operators -/

/-- `_COMPARISON_OPS | _ARITHMETIC_OPS`. -/
inductive BinaryOp where
  | gt
  | lt
  | ge
  | le
  | eq
  | ne
  | add
  | sub
  | mul
  | div
  deriving DecidableEq, Repr

/-- `_LOGICAL_OPS`. -/
inductive LogicalOp where
  | and
  | or
  deriving DecidableEq, Repr

/-- `_UNARY_OPS`. -/
inductive UnaryOp where
  | not
  | abs
  | neg
  deriving DecidableEq, Repr

/-- The operators that a node may have. -/
inductive FormulaOp where
  | binary (op : BinaryOp)
  | logical (op : LogicalOp)
  | unary (op : UnaryOp)
  deriving DecidableEq, Repr

/-- The operators as they are written. -/
def formulaOps : List (String × FormulaOp) :=
  [(">", .binary .gt), ("<", .binary .lt), (">=", .binary .ge), ("<=", .binary .le),
    ("==", .binary .eq), ("!=", .binary .ne), ("+", .binary .add), ("-", .binary .sub),
    ("*", .binary .mul), ("/", .binary .div), ("and", .logical .and), ("or", .logical .or),
    ("not", .unary .not), ("abs", .unary .abs), ("neg", .unary .neg)]

/-- `raw.get("op", "")`, looked up in the operator sets; the outer `none` is
the `TypeError` of a value that cannot be hashed. -/
def opOf (raw : List (String × Json)) : Option (Option FormulaOp) :=
  match Json.getD raw "op" (.str "") with
  | .str text => some (formulaOps.lookup text)
  | .list _ => none
  | .dict _ => none
  | _ => some none

/-! ## §2 Places -/

/-- A step from a node to one of its operands. -/
inductive Step where
  | left
  | right
  | operand
  | child (index : ℕ)
  | item (index : ℕ)
  deriving DecidableEq, Repr

/-- The steps from the root to an operand. -/
abbrev Place := List Step

/-- The value that a step leads to. A `child` stands under `children`, an
`item` under `operands`. -/
def stepInto (step : Step) : Json → Option Json
  | .dict raw =>
      match step with
      | .left => raw.lookup "left"
      | .right => raw.lookup "right"
      | .operand => raw.lookup "operand"
      | .child index => ((raw.lookup "children").bind Json.iterate).bind fun items => items[index]?
      | .item index => ((raw.lookup "operands").bind Json.iterate).bind fun items => items[index]?
  | _ => none

/-- The value at a place. -/
def valueAt : Place → Json → Option Json
  | [], raw => some raw
  | step :: place, raw => (stepInto step raw).bind (valueAt place)

/-! ## §3 `_parse_node` -/

/-- `FormulaNode`. -/
inductive FormulaNode where
  | leaf (place : Place) (raw : Json)
  | binary (op : BinaryOp) (left right : FormulaNode)
  | logical (op : LogicalOp) (children : List FormulaNode)
  | unary (op : UnaryOp) (left : FormulaNode)

/-- The `kind` of the leaf that `_parse_operand` makes. -/
def leafKind : Json → Json
  | .str _ => .str "indicator"
  | .dict entries => Json.getD entries "kind" (.str "indicator")
  | _ => .str "literal"

/-- The `value` of the leaf that `_parse_operand` makes. -/
def leafValue : Json → Json
  | .dict entries =>
      Json.getD entries "value"
        (Json.getD entries "indicator" (Json.getD entries "field" (.int 0)))
  | .null => .float (.fin 0)
  | .list _ => .float (.fin 0)
  | .int n => .float (.fin n)
  | raw => raw

/-- What stands under `children` or `operands`, with its items parsed. -/
inductive Operands where
  | items (nodes : List (Option FormulaNode))
  | keys (nodes : List (Option FormulaNode))
  | scalar (truthy : Bool)

/-- `bool(children)`. -/
def Operands.truthy : Operands → Bool
  | items nodes => !nodes.isEmpty
  | keys nodes => !nodes.isEmpty
  | scalar truthy => truthy

/-- `children[0], children[1]` if `children and len(children) >= 2`, else the
other operands. A dictionary has no key 0, a number no length. -/
def Operands.firstTwo (operands : Operands) (sides : Option (FormulaNode × FormulaNode)) :
    Option (FormulaNode × FormulaNode) :=
  match operands with
  | items (left :: right :: _) => do return (← left, ← right)
  | items _ => sides
  | keys (_ :: _ :: _) => none
  | keys _ => sides
  | scalar truthy => if truthy then none else sides

/-- The nodes of `[… for c in children]`. -/
def Operands.iterated : Operands → Option (List FormulaNode)
  | items nodes => nodes.mapM id
  | keys nodes => nodes.mapM id
  | scalar _ => none

/-- The leaves of strings, at consecutive places. -/
def leavesFrom (place : Place) (step : ℕ → Step) (items : List Json) :
    List (Option FormulaNode) :=
  items.mapIdx fun index item => some (.leaf (place ++ [step index]) item)

mutual

/-- `_parse_node`, `_parse_operand`; `none` is an exception. -/
def parseOperand (place : Place) : Json → Option FormulaNode
  | .dict raw =>
      match opOf raw with
      | none => none
      | some none => some (.leaf place (.dict raw))
      | some (some (.binary op)) => do
          let sides := do
            return (← operandUnder place .left "left" raw, ← operandUnder place .right "right" raw)
          let (left, right) ←
            ((operandsUnder place .child "children" raw).getD (.items [])).firstTwo sides
          return .binary op left right
      | some (some (.logical op)) => do
          let children :=
            ((operandsUnder place .child "children" raw).orElse fun _ =>
              operandsUnder place .item "operands" raw).getD (.items [])
          if !children.truthy && (raw.lookup "left").isSome && (raw.lookup "right").isSome then do
            let left ← operandUnder place .left "left" raw
            let right ← operandUnder place .right "right" raw
            return .logical op [left, right]
          else return .logical op (← children.iterated)
      | some (some (.unary op)) => do
          let left ←
            if (raw.lookup "operand").isSome then operandUnder place .operand "operand" raw
            else operandUnder place .left "left" raw
          return .unary op left
  | raw => some (.leaf place raw)

/-- `_parse_operand(raw.get(key))`. -/
def operandUnder (place : Place) (step : Step) (key : String) :
    List (String × Json) → Option FormulaNode
  | [] => some (.leaf (place ++ [step]) .null)
  | (name, value) :: raw =>
      if name = key then parseOperand (place ++ [step]) value
      else operandUnder place step key raw

/-- What stands under a key, if there is such a key. -/
def operandsUnder (place : Place) (step : ℕ → Step) (key : String) :
    List (String × Json) → Option Operands
  | [] => none
  | (name, value) :: raw =>
      if name = key then some (operandsOf place step value) else operandsUnder place step key raw

/-- The operands in a value. -/
def operandsOf (place : Place) (step : ℕ → Step) : Json → Operands
  | .list items => .items (parseOperands place step 0 items)
  | .str text =>
      .items (leavesFrom place step (text.toList.map fun c => .str (String.singleton c)))
  | .dict entries => .keys (leavesFrom place step (entries.map fun entry => .str entry.1))
  | value => .scalar value.truthy

/-- The items of a list, from an index on. -/
def parseOperands (place : Place) (step : ℕ → Step) (index : ℕ) :
    List Json → List (Option FormulaNode)
  | [] => []
  | item :: items =>
      parseOperand (place ++ [step index]) item :: parseOperands place step (index + 1) items

end

/-- `_parse_node` of a feature's expression. -/
def parseNode (raw : Json) : Option FormulaNode := parseOperand [] raw

mutual

/-- The leaves of a tree: the operands it evaluates, with their places. -/
def FormulaNode.leaves : FormulaNode → List (Place × Json)
  | .leaf place raw => [(place, raw)]
  | .binary _ left right => left.leaves ++ right.leaves
  | .logical _ children => leavesOf children
  | .unary _ left => left.leaves

def leavesOf : List FormulaNode → List (Place × Json)
  | [] => []
  | child :: children => child.leaves ++ leavesOf children

end

/-! ## §4 `_evaluate` -/

/-- The operations of pandas on series `S`; `none` is an exception. -/
structure Pandas (S : Type) where
  /-- `pd.Series(value, index=df.index)`. -/
  constant : Json → Option S
  /-- A series of NaN. -/
  missing : S
  /-- `pd.to_numeric(series, errors="coerce")`. -/
  toNumeric : S → Option S
  /-- `_compare` and `_arithmetic`. -/
  binary : BinaryOp → S → S → Option S
  /-- `_logical`. -/
  logical : LogicalOp → List S → Option S
  unary : UnaryOp → S → Option S

/-- A data frame: its columns by name. -/
abbrev DataFrame (S : Type) := String → Option S

/-- A computation on a frame: the columns it reads, and its result unless it
raises. -/
structure Reading (α : Type) where
  columns : List String := []
  value : Option α

instance : Monad Reading where
  pure a := { value := some a }
  bind x f :=
    match x.value with
    | none => { columns := x.columns, value := none }
    | some a => { columns := x.columns ++ (f a).columns, value := (f a).value }

/-- A step that reads nothing. -/
def Reading.of {α : Type} (value : Option α) : Reading α := { value := value }

section Evaluation

variable {S : Type} (pandas : Pandas S) (strOf : Json → String) (frame : DataFrame S)

/-- The column that a leaf names, unless it is a literal. -/
def leafColumn (raw : Json) : Option String :=
  match leafKind raw with
  | .str "literal" => none
  | _ => some ((leafValue raw).toStr strOf)

/-- `_resolve`. -/
def resolveLeafNode (raw : Json) : Reading S :=
  match leafColumn strOf raw with
  | none => .of (pandas.constant (leafValue raw))
  | some column =>
      match frame column with
      | some series => { columns := [column], value := pandas.toNumeric series }
      | none => pure pandas.missing

mutual

/-- `_value`, `_evaluate`. -/
def evaluate : FormulaNode → Reading S
  | .leaf _ raw => resolveLeafNode pandas strOf frame raw
  | .binary op left right => do
      let left ← evaluate left
      let right ← evaluate right
      .of (pandas.binary op left right)
  | .logical op children => do
      let results ← evaluateChildren children
      .of (pandas.logical op results)
  | .unary op left => do
      let left ← evaluate left
      .of (pandas.unary op left)

/-- `[_evaluate(c, df) for c in node.children]`. -/
def evaluateChildren : List FormulaNode → Reading (List S)
  | [] => pure []
  | child :: children => do
      let result ← evaluate child
      let results ← evaluateChildren children
      return result :: results

end

/-- The columns that evaluating an expression reads. What is no object is not
evaluated; an exception of `_parse_node` comes before any column is read. -/
def columnsRead (expr : Json) : List String :=
  match expr with
  | .dict raw =>
      match parseNode (.dict raw) with
      | none => []
      | some node => (evaluate pandas strOf frame node).columns
  | _ => []

/-- The operands that evaluating an expression resolves, with their places. -/
def evaluatedLeaves (expr : Json) : List (Place × Json) :=
  match expr with
  | .dict raw => ((parseNode (.dict raw)).map FormulaNode.leaves).getD []
  | _ => []

end Evaluation

example : evaluatedLeaves (.dict [("op", .str "abs"), ("operand", .str "rsi_14")]) =
    [([.operand], .str "rsi_14")] := by rfl

end Finbar.Indicators
