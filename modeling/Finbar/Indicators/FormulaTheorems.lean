/-
Finbar.Indicators.FormulaTheorems — the three walkers of a formula: the
resolver of parameters, the collector of columns and the calculator.

Each place of a tree is treated by the resolver in one of three ways (`Mode`).
The places that are evaluated are those of `parseNode`; that the walkers agree
on them is decided by the modes of the references and by the places that the
collector walks.

No `sorry`, no `axiom`.
-/
import Finbar.Indicators.Formula
import Finbar.Parser.ParseTheorems

namespace Finbar.Indicators

open Lib Lib.Python Finbar.Parser

/-! ## §1 Walking the operands -/

theorem operandUnder_eq (place : Place) (step : Step) (key : String)
    (raw : List (String × Json)) :
    operandUnder place step key raw =
      match raw.lookup key with
      | some value => parseOperand (place ++ [step]) value
      | none => some (.leaf (place ++ [step]) .null) := by
  rw [walk_eq_lookup (operandUnder place step key) (parseOperand (place ++ [step]))
    (some (.leaf (place ++ [step]) .null)) key (by rw [operandUnder])
    (fun name value raw => by rw [operandUnder])]
  cases raw.lookup key <;> rfl

theorem operandsUnder_eq (place : Place) (step : ℕ → Step) (key : String)
    (raw : List (String × Json)) :
    operandsUnder place step key raw = (raw.lookup key).map (operandsOf place step) := by
  rw [walk_eq_lookup (operandsUnder place step key) (fun value => some (operandsOf place step value))
    none key (by rw [operandsUnder]) (fun name value raw => by rw [operandsUnder])]
  cases raw.lookup key <;> rfl

/-- The nodes that operands hold. -/
def Operands.nodes : Operands → List (Option FormulaNode)
  | items nodes => nodes
  | keys nodes => nodes
  | scalar _ => []

theorem mem_of_firstTwo {operands : Operands}
    {sides : Option (FormulaNode × FormulaNode)} {left right : FormulaNode}
    (h : operands.firstTwo sides = some (left, right)) :
    sides = some (left, right) ∨ (some left ∈ operands.nodes ∧ some right ∈ operands.nodes) := by
  match operands with
  | .items [] => exact .inl h
  | .items [_] => exact .inl h
  | .items (first :: second :: rest) =>
      simp only [Operands.firstTwo, Option.bind_eq_bind, Option.bind_eq_some_iff,
        Option.pure_def, Option.some.injEq, Prod.mk.injEq] at h
      obtain ⟨_, hfirst, _, hsecond, rfl, rfl⟩ := h
      simp [Operands.nodes, hfirst, hsecond]
  | .keys [] => exact .inl h
  | .keys [_] => exact .inl h
  | .keys (_ :: _ :: _) => simp [Operands.firstTwo] at h
  | .scalar true => simp [Operands.firstTwo] at h
  | .scalar false => exact .inl h

theorem mem_of_iterated {operands : Operands} {children : List FormulaNode}
    (h : operands.iterated = some children) {child : FormulaNode} (hchild : child ∈ children) :
    some child ∈ operands.nodes := by
  have hmapM : ∀ {nodes : List (Option FormulaNode)} {children : List FormulaNode},
      nodes.mapM id = some children → child ∈ children → some child ∈ nodes := by
    intro nodes
    induction nodes with
    | nil =>
        intro children h hchild
        simp at h
        simp [h] at hchild
    | cons node nodes ih =>
        intro children h hchild
        simp only [List.mapM_cons, id_eq, Option.bind_eq_bind, Option.bind_eq_some_iff,
          Option.pure_def, Option.some.injEq] at h
        obtain ⟨head, hhead, tail, htail, rfl⟩ := h
        rcases List.mem_cons.mp hchild with rfl | hmem
        · simp [hhead]
        · exact List.mem_cons_of_mem _ (ih htail hmem)
  cases operands with
  | items nodes => exact hmapM h hchild
  | keys nodes => exact hmapM h hchild
  | scalar truthy => simp [Operands.iterated] at h

theorem mem_leavesOf {children : List FormulaNode} {leaf : Place × Json} :
    leaf ∈ leavesOf children ↔ ∃ child ∈ children, leaf ∈ child.leaves := by
  induction children with
  | nil => simp [leavesOf]
  | cons child children ih => simp [leavesOf, ih]

/-- A leaf of a tree at a place stands below that place, where the tree has it;
a missing operand is a null leaf. -/
def StandsIn (place : Place) (tree : Json) (leaf : Place × Json) : Prop :=
  ∃ rest, leaf.1 = place ++ rest ∧
    (valueAt rest tree = some leaf.2 ∨ (valueAt rest tree = none ∧ leaf.2 = .null))

/-- A leaf below a step stands in the tree. -/
theorem StandsIn.of_step {place : Place} {step : Step} {tree value : Json}
    {leaf : Place × Json} (hstep : stepInto step tree = some value)
    (h : StandsIn (place ++ [step]) value leaf) : StandsIn place tree leaf := by
  obtain ⟨rest, hplace, hvalue⟩ := h
  exact ⟨step :: rest, by simp [hplace], by simpa [valueAt, hstep] using hvalue⟩

/-- The leaves of strings are the strings, in order. -/
theorem mem_leavesFrom {place : Place} {step : ℕ → Step} {items : List Json}
    (hitems : ∀ item ∈ items, ∃ text, item = .str text) {node : FormulaNode}
    (h : some node ∈ leavesFrom place step items) :
    ∃ (index : ℕ) (item : Json), items[index]? = some item ∧
      parseOperand (place ++ [step index]) item = some node := by
  obtain ⟨index, hindex, hnode⟩ := List.mem_mapIdx.mp h
  obtain ⟨text, htext⟩ := hitems _ (List.getElem_mem hindex)
  refine ⟨index, items[index], by simp, ?_⟩
  rw [htext] at hnode ⊢
  simpa [parseOperand] using hnode

theorem mem_parseOperands {place : Place} {step : ℕ → Step} {items : List Json}
    {node : FormulaNode} :
    ∀ {start : ℕ}, some node ∈ parseOperands place step start items →
      ∃ (index : ℕ) (item : Json), items[index]? = some item ∧
        parseOperand (place ++ [step (start + index)]) item = some node := by
  induction items with
  | nil => simp [parseOperands]
  | cons item items ih =>
      intro start h
      rcases List.mem_cons.mp (by simpa [parseOperands] using h) with hhead | htail
      · exact ⟨0, item, by simp, hhead.symm⟩
      · obtain ⟨index, other, hother, hnode⟩ := ih htail
        have hstart : start + 1 + index = start + (index + 1) := by omega
        exact ⟨index + 1, other, by simpa using hother, by rw [← hstart]; exact hnode⟩

/-- The operands of a collection are those that the steps lead to. -/
theorem mem_nodes_operandsOf {place : Place} {step : ℕ → Step} {value : Json}
    {node : FormulaNode} (h : some node ∈ (operandsOf place step value).nodes) :
    ∃ (items : List Json) (index : ℕ) (item : Json), value.iterate = some items ∧
      items[index]? = some item ∧ parseOperand (place ++ [step index]) item = some node := by
  have hstrings : ∀ {α : Type} (f : α → String) (parts : List α),
      ∀ item ∈ parts.map (fun part => Json.str (f part)), ∃ text, item = .str text := by
    intro α f parts item hitem
    obtain ⟨part, -, rfl⟩ := List.mem_map.mp hitem
    exact ⟨_, rfl⟩
  cases value with
  | list items =>
      obtain ⟨index, item, hitem, hnode⟩ :=
        mem_parseOperands (by simpa [operandsOf, Operands.nodes] using h)
      exact ⟨items, index, item, rfl, hitem, by simpa using hnode⟩
  | str text =>
      obtain ⟨index, item, hitem, hnode⟩ := mem_leavesFrom (hstrings _ _) h
      exact ⟨_, index, item, rfl, hitem, hnode⟩
  | dict entries =>
      obtain ⟨index, item, hitem, hnode⟩ := mem_leavesFrom (hstrings _ _) h
      exact ⟨_, index, item, rfl, hitem, hnode⟩
  | _ => simp [operandsOf, Operands.nodes] at h

/-- All leaves of a parsed tree stand in it. -/
def LeavesStand (tree : Json) : Prop :=
  ∀ place node, parseOperand place tree = some node →
    ∀ leaf ∈ node.leaves, StandsIn place tree leaf

theorem standsIn_self (place : Place) (tree : Json) : StandsIn place tree (place, tree) :=
  ⟨[], by simp, .inl rfl⟩

/-- What is no object is a leaf. -/
theorem leavesStand_of_not_dict {tree : Json} (h : ∀ raw, tree ≠ .dict raw) :
    LeavesStand tree := by
  intro place node hnode leaf hleaf
  have hparse : parseOperand place tree = some (.leaf place tree) := by
    cases tree with
    | dict raw => exact absurd rfl (h raw)
    | _ => simp [parseOperand]
  rw [hparse, Option.some.injEq] at hnode
  subst hnode
  rw [FormulaNode.leaves, List.mem_singleton] at hleaf
  exact hleaf ▸ standsIn_self place tree

section Object

variable {raw : List (String × Json)} {place : Place} {node : FormulaNode}
  {leaf : Place × Json}

/-- An operand under a key. -/
theorem standsIn_operandUnder {step : Step} {key : String}
    (hstep : stepInto step (.dict raw) = raw.lookup key)
    (hvalues : ∀ entry ∈ raw, LeavesStand entry.2)
    (hnode : operandUnder place step key raw = some node) (hleaf : leaf ∈ node.leaves) :
    StandsIn place (.dict raw) leaf := by
  rw [operandUnder_eq] at hnode
  cases hlookup : raw.lookup key with
  | some value =>
      rw [hlookup] at hnode hstep
      exact .of_step hstep
        (hvalues _ (mem_of_lookup hlookup) _ node hnode leaf hleaf)
  | none =>
      simp only [hlookup, Option.some.injEq] at hnode
      subst hnode
      rw [FormulaNode.leaves, List.mem_singleton] at hleaf
      subst hleaf
      exact ⟨[step], rfl, .inr ⟨by simp [valueAt, hstep, hlookup], rfl⟩⟩

/-- One of the operands of a collection under a key. -/
theorem standsIn_operandsUnder {step : ℕ → Step} {key : String} {operands : Operands}
    (hstep : ∀ index, stepInto (step index) (.dict raw) =
      ((raw.lookup key).bind Json.iterate).bind fun items => items[index]?)
    (hitems : ∀ entry ∈ raw, ∀ items, entry.2.iterate = some items →
      ∀ item ∈ items, LeavesStand item)
    (hoperands : operandsUnder place step key raw = some operands)
    (hnode : some node ∈ operands.nodes) (hleaf : leaf ∈ node.leaves) :
    StandsIn place (.dict raw) leaf := by
  rw [operandsUnder_eq, Option.map_eq_some_iff] at hoperands
  obtain ⟨value, hlookup, rfl⟩ := hoperands
  obtain ⟨items, index, item, hiterate, hitem, hparse⟩ := mem_nodes_operandsOf hnode
  have hinto : stepInto (step index) (.dict raw) = some item := by
    simp [hstep, hlookup, hiterate, hitem]
  refine .of_step hinto ?_
  exact hitems _ (mem_of_lookup hlookup) items hiterate item
      (List.mem_of_getElem? hitem) _ node hparse leaf hleaf

/-- The step of the induction: a tree whose values have only standing leaves. -/
theorem leavesStand_dict (hvalues : ∀ entry ∈ raw, LeavesStand entry.2)
    (hitems : ∀ entry ∈ raw, ∀ items, entry.2.iterate = some items →
      ∀ item ∈ items, LeavesStand item) : LeavesStand (.dict raw) := by
  intro place node hnode leaf hleaf
  have hunder : ∀ {step key operand}, stepInto step (.dict raw) = raw.lookup key →
      operandUnder place step key raw = some operand → leaf ∈ operand.leaves →
      StandsIn place (.dict raw) leaf :=
    fun hstep => standsIn_operandUnder hstep hvalues
  have hchild : ∀ {operands}, operandsUnder place .child "children" raw = some operands →
      ∀ {child}, some child ∈ operands.nodes → leaf ∈ child.leaves →
      StandsIn place (.dict raw) leaf :=
    fun h _ => standsIn_operandsUnder (fun _ => rfl) hitems h
  have hitem : ∀ {operands}, operandsUnder place .item "operands" raw = some operands →
      ∀ {child}, some child ∈ operands.nodes → leaf ∈ child.leaves →
      StandsIn place (.dict raw) leaf :=
    fun h _ => standsIn_operandsUnder (fun _ => rfl) hitems h
  rw [parseOperand] at hnode
  cases hop : opOf raw with
  | none => simp [hop] at hnode
  | some op =>
      rcases op with _ | (op | op | op)
      · simp only [hop, Option.some.injEq] at hnode
        subst hnode
        rw [FormulaNode.leaves, List.mem_singleton] at hleaf
        exact hleaf ▸ standsIn_self place _
      · simp only [hop, Option.bind_eq_bind, Option.bind_eq_some_iff, Option.pure_def,
          Option.some.injEq] at hnode
        obtain ⟨⟨left, right⟩, htwo, rfl⟩ := hnode
        rw [FormulaNode.leaves, List.mem_append] at hleaf
        rcases mem_of_firstTwo htwo with hsides | ⟨hleft, hright⟩
        · simp only [Option.bind_eq_some_iff, Option.some.injEq, Prod.mk.injEq] at hsides
          obtain ⟨_, hleft, _, hright, rfl, rfl⟩ := hsides
          exact hleaf.elim (hunder rfl hleft) (hunder rfl hright)
        · cases hchildren : operandsUnder place .child "children" raw with
          | none => simp [hchildren, Operands.nodes] at hleft
          | some operands =>
              rw [hchildren] at hleft hright
              exact hleaf.elim (hchild hchildren hleft) (hchild hchildren hright)
      · simp only [hop] at hnode
        split at hnode
        · simp only [Option.bind_eq_bind, Option.bind_eq_some_iff, Option.pure_def,
            Option.some.injEq] at hnode
          obtain ⟨left, hleft, right, hright, rfl⟩ := hnode
          simp only [FormulaNode.leaves, leavesOf, List.append_nil, List.mem_append] at hleaf
          exact hleaf.elim (hunder rfl hleft) (hunder rfl hright)
        · simp only [Option.bind_eq_bind, Option.bind_eq_some_iff, Option.pure_def,
            Option.some.injEq] at hnode
          obtain ⟨children, hchildren, rfl⟩ := hnode
          rw [FormulaNode.leaves, mem_leavesOf] at hleaf
          obtain ⟨node, hnode, hleaf⟩ := hleaf
          have hmem := mem_of_iterated hchildren hnode
          cases hunderChildren : operandsUnder place .child "children" raw with
          | some operands =>
              exact hchild hunderChildren (by simpa [hunderChildren] using hmem) hleaf
          | none =>
              cases hunderItems : operandsUnder place .item "operands" raw with
              | some operands =>
                  exact hitem hunderItems
                    (by simpa [hunderChildren, hunderItems] using hmem) hleaf
              | none => simp [hunderChildren, hunderItems, Operands.nodes] at hmem
      · simp only [hop] at hnode
        split at hnode
        all_goals
          simp only [Option.bind_eq_bind, Option.bind_eq_some_iff, Option.pure_def,
            Option.some.injEq] at hnode
          obtain ⟨operand, hoperand, rfl⟩ := hnode
          exact hunder rfl hoperand hleaf

end Object

/-- **Every evaluated operand stands in its tree, at its place.** -/
theorem leavesStand (tree : Json) : LeavesStand tree := by
  suffices h : LeavesStand tree ∧
      ∀ items, tree.iterate = some items → ∀ item ∈ items, LeavesStand item from h.1
  have hstrings : ∀ {α : Type} (f : α → String) (parts : List α),
      ∀ item ∈ parts.map (fun part => Json.str (f part)), LeavesStand item := by
    intro α f parts item hitem
    obtain ⟨part, -, rfl⟩ := List.mem_map.mp hitem
    exact leavesStand_of_not_dict (by simp)
  induction tree using Json.induction with
  | scalar value hscalar =>
      refine ⟨leavesStand_of_not_dict fun raw h => by simp [h, Json.isScalar] at hscalar, ?_⟩
      intro items hitems
      cases value with
      | str text =>
          obtain rfl := Option.some.inj hitems
          exact hstrings _ _
      | list items => simp [Json.isScalar] at hscalar
      | dict entries => simp [Json.isScalar] at hscalar
      | _ => simp [Json.iterate] at hitems
  | list items ih =>
      refine ⟨leavesStand_of_not_dict (by simp), ?_⟩
      intro _ hitems item hitem
      obtain rfl := Option.some.inj hitems
      exact (ih item hitem).1
  | dict entries ih =>
      refine ⟨leavesStand_dict (fun entry h => (ih entry h).1) (fun entry h => (ih entry h).2), ?_⟩
      intro _ hitems
      obtain rfl := Option.some.inj hitems
      exact hstrings _ _

/-- A place that is evaluated is a place of the tree. -/
theorem valueAt_of_mem_evaluatedLeaves {tree : Json} {leaf : Place × Json}
    (h : leaf ∈ evaluatedLeaves tree) :
    valueAt leaf.1 tree = some leaf.2 ∨ (valueAt leaf.1 tree = none ∧ leaf.2 = .null) := by
  cases tree with
  | dict raw =>
      cases hparse : parseNode (.dict raw) with
      | none => simp [evaluatedLeaves, hparse] at h
      | some node =>
          obtain ⟨rest, hplace, hvalue⟩ :=
            leavesStand (.dict raw) [] node hparse leaf (by simpa [evaluatedLeaves, hparse] using h)
          simpa [hplace] using hvalue
  | _ => simp [evaluatedLeaves] at h

/-! ## §2 The columns that are read -/

section Reads

variable {S : Type} (pandas : Pandas S) (strOf : Json → String) (frame : DataFrame S)

/-- What a sequence of two computations reads. -/
theorem Reading.mem_bind {α β : Type} {x : Reading α} {f : α → Reading β} {column : String}
    (h : column ∈ (x >>= f).columns) : column ∈ x.columns ∨ ∃ a, column ∈ (f a).columns := by
  cases hx : x.value with
  | none => exact .inl (by simpa [bind, hx] using h)
  | some a =>
      have happend : column ∈ x.columns ++ (f a).columns := by simpa [bind, hx] using h
      exact (List.mem_append.mp happend).imp_right fun h => ⟨a, h⟩

/-- The columns that the leaves of a tree name. -/
def namedColumns (leaves : List (Place × Json)) : List String :=
  leaves.filterMap fun leaf => leafColumn strOf leaf.2

mutual

theorem mem_evaluate_columns {column : String} : ∀ {node : FormulaNode},
    column ∈ (evaluate pandas strOf frame node).columns →
      column ∈ namedColumns strOf node.leaves
  | .leaf place raw, h => by
      cases hcolumn : leafColumn strOf raw with
      | none => simp [evaluate, resolveLeafNode, hcolumn, Reading.of] at h
      | some name =>
          cases hframe : frame name with
          | none => simp [evaluate, resolveLeafNode, hcolumn, hframe, pure] at h
          | some series =>
              simpa [namedColumns, FormulaNode.leaves, hcolumn, evaluate, resolveLeafNode,
                hframe] using h
  | .binary op left right, h => by
      simp only [namedColumns, FormulaNode.leaves, List.filterMap_append, List.mem_append]
      rcases Reading.mem_bind h with h | ⟨_, h⟩
      · exact .inl (mem_evaluate_columns h)
      · rcases Reading.mem_bind h with h | ⟨_, h⟩
        · exact .inr (mem_evaluate_columns h)
        · simp [Reading.of] at h
  | .logical op children, h => by
      rw [FormulaNode.leaves]
      rcases Reading.mem_bind h with h | ⟨_, h⟩
      · exact mem_evaluateChildren_columns h
      · simp [Reading.of] at h
  | .unary op left, h => by
      rw [FormulaNode.leaves]
      rcases Reading.mem_bind h with h | ⟨_, h⟩
      · exact mem_evaluate_columns h
      · simp [Reading.of] at h

theorem mem_evaluateChildren_columns {column : String} : ∀ {children : List FormulaNode},
    column ∈ (evaluateChildren pandas strOf frame children).columns →
      column ∈ namedColumns strOf (leavesOf children)
  | [], h => by simp [evaluateChildren, pure] at h
  | child :: children, h => by
      simp only [namedColumns, leavesOf, List.filterMap_append, List.mem_append]
      rcases Reading.mem_bind h with h | ⟨_, h⟩
      · exact .inl (mem_evaluate_columns h)
      · rcases Reading.mem_bind h with h | ⟨_, h⟩
        · exact .inr (mem_evaluateChildren_columns h)
        · simp [pure] at h

end

/-- An evaluation reads no column that no leaf names. -/
theorem columnsRead_subset {expr : Json} {column : String}
    (h : column ∈ columnsRead pandas strOf frame expr) :
    column ∈ namedColumns strOf (evaluatedLeaves expr) := by
  cases expr with
  | dict raw =>
      cases hparse : parseNode (.dict raw) with
      | none => simp [columnsRead, hparse] at h
      | some node =>
          simp only [columnsRead, hparse] at h
          simpa [evaluatedLeaves, hparse] using mem_evaluate_columns pandas strOf frame h
  | _ => simp [columnsRead] at h

end Reads

/-- Operations that never raise. -/
def Pandas.total : Pandas Unit where
  constant _ := some ()
  missing := ()
  toNumeric _ := some ()
  binary _ _ _ := some ()
  logical _ _ := some ()
  unary _ _ := some ()

section Total

variable (strOf : Json → String)

@[simp] theorem Reading.mk_bind {α β : Type} (columns : List String) (a : α)
    (f : α → Reading β) :
    ({ columns := columns, value := some a } >>= f : Reading β) =
      { columns := columns ++ (f a).columns, value := (f a).value } := rfl

@[simp] theorem total_binary (op : BinaryOp) (left right : Unit) :
    Reading.of (Pandas.total.binary op left right) = { value := some () } := rfl

@[simp] theorem total_logical (op : LogicalOp) (results : List Unit) :
    Reading.of (Pandas.total.logical op results) = { value := some () } := rfl

@[simp] theorem total_unary (op : UnaryOp) (left : Unit) :
    Reading.of (Pandas.total.unary op left) = { value := some () } := rfl

mutual

/-- When nothing raises and the frame has all columns, every column that a
leaf names is read. -/
theorem evaluate_total : ∀ node : FormulaNode,
    evaluate Pandas.total strOf (fun _ => some ()) node =
      { columns := namedColumns strOf node.leaves, value := some () }
  | .leaf place raw => by
      cases hcolumn : leafColumn strOf raw with
      | none =>
          simp [evaluate, resolveLeafNode, hcolumn, Reading.of, namedColumns,
            FormulaNode.leaves, Pandas.total]
      | some name =>
          simp [evaluate, resolveLeafNode, hcolumn, namedColumns, FormulaNode.leaves,
            Pandas.total]
  | .binary op left right => by
      simp [evaluate, evaluate_total left, evaluate_total right, namedColumns,
        FormulaNode.leaves]
  | .logical op children => by
      obtain ⟨results, hchildren⟩ := evaluateChildren_total children
      simp [evaluate, hchildren, FormulaNode.leaves]
  | .unary op left => by
      simp [evaluate, evaluate_total left, FormulaNode.leaves]

theorem evaluateChildren_total : ∀ children : List FormulaNode,
    ∃ results, evaluateChildren Pandas.total strOf (fun _ => some ()) children =
      { columns := namedColumns strOf (leavesOf children), value := some results }
  | [] => ⟨[], by simp [evaluateChildren, pure, namedColumns, leavesOf]⟩
  | child :: children => by
      obtain ⟨results, hchildren⟩ := evaluateChildren_total children
      refine ⟨() :: results, ?_⟩
      simp [evaluateChildren, evaluate_total child, hchildren, pure, namedColumns, leavesOf]

end

theorem columnsRead_total (expr : Json) :
    columnsRead Pandas.total strOf (fun _ => some ()) expr =
      namedColumns strOf (evaluatedLeaves expr) := by
  cases expr with
  | dict raw =>
      cases hparse : parseNode (.dict raw) with
      | none => simp [columnsRead, evaluatedLeaves, hparse, namedColumns]
      | some node => simp [columnsRead, evaluatedLeaves, hparse, evaluate_total]
  | _ => simp [columnsRead, evaluatedLeaves, namedColumns]

end Total

/-! ## §3 What the resolver does at a place -/

/-- How `_resolve_expr_params` treats a value: not at all, as a tree to walk,
or as the value of `left` or `right` (`_resolve_leaf`). -/
inductive Mode where
  | untouched
  | walked
  | leaf
  deriving DecidableEq, Repr

variable (params : ResolvedParams) (path : String)

/-- The value after the resolver. -/
def placed : Mode → Json → Json
  | .untouched, raw => raw
  | .walked, raw => (resolveExprParams params path raw).value
  | .leaf, raw => (resolveLeaf params path raw).value

/-- The name in `{param: name}`. -/
def paramOf (raw : List (String × Json)) : Option String :=
  match raw.lookup "param" with
  | some (.str name) => some name
  | _ => none

/-- The value that the resolver puts in the place of an object. -/
def substitute (mode : Mode) (raw : List (String × Json)) : Option Json :=
  if mode = .leaf then (paramOf raw).bind params.get else none

/-- The resolver walks the entries of an object. -/
def entersEntries (mode : Mode) (raw : List (String × Json)) : Bool :=
  match mode with
  | .untouched => false
  | .walked => true
  | .leaf => (paramOf raw).isNone

/-- A step in the tree before the resolver: the value it leads to, and how the
resolver treats it. -/
def stepSource (mode : Mode) (step : Step) : Json → Option (Mode × Json)
  | .dict raw =>
      if (substitute params mode raw).isSome then none
      else if entersEntries mode raw then
        match step with
        | .left => (raw.lookup "left").map fun value => (.leaf, value)
        | .right => (raw.lookup "right").map fun value => (.leaf, value)
        | .child index =>
            match raw.lookup "children" with
            | some (.list items) => items[index]?.map fun item => (.walked, item)
            | _ => none
        | step => (stepInto step (.dict raw)).map fun value => (.untouched, value)
      else (stepInto step (.dict raw)).map fun value => (.untouched, value)
  | _ => none

/-- What stood at a place before the resolver, and how the resolver treats
it. -/
def sourceAt : Mode → Place → Json → Option (Mode × Json)
  | mode, [], raw => some (mode, raw)
  | mode, step :: place, raw =>
      (stepSource params mode step raw).bind fun source => sourceAt source.1 place source.2

variable {params}

/-- What the resolver makes of an entry. -/
def placedEntry (params : ResolvedParams) (path key : String) (value : Json) : Json :=
  if key = "children" then (resolveExprChildren params path value).value
  else if key = "left" ∨ key = "right" then (resolveLeaf params path value).value
  else value

@[simp] theorem placedEntry_left :
    placedEntry params path "left" = placed params path .leaf := by
  funext value
  simp [placedEntry, placed]

@[simp] theorem placedEntry_right :
    placedEntry params path "right" = placed params path .leaf := by
  funext value
  simp [placedEntry, placed]

theorem placedEntry_other {key : String} (hchildren : key ≠ "children")
    (hleft : key ≠ "left") (hright : key ≠ "right") : placedEntry params path key = id := by
  funext value
  simp [placedEntry, hchildren, hleft, hright]

theorem resolveExprEntries_value (raw : List (String × Json)) :
    (resolveExprEntries params path raw).value =
      raw.map fun entry => (entry.1, placedEntry params path entry.1 entry.2) := by
  induction raw with
  | nil => simp [resolveExprEntries]
  | cons entry raw ih =>
      obtain ⟨key, value⟩ := entry
      rw [resolveExprEntries]
      by_cases hchildren : key = "children"
      · simp [hchildren, placedEntry, ih]
      · by_cases hside : key = "left" ∨ key = "right"
        · simp [hchildren, hside, placedEntry, ih]
        · simp [hchildren, hside, placedEntry, ih]

theorem lookup_resolveExprEntries (key : String) (raw : List (String × Json)) :
    (resolveExprEntries params path raw).value.lookup key =
      (raw.lookup key).map (placedEntry params path key) := by
  rw [resolveExprEntries_value]
  exact lookup_map_values (placedEntry params path) raw key

theorem resolveExprItems_value (items : List Json) :
    (resolveExprItems params path items).value =
      items.map fun item => (resolveExprParams params path item).value := by
  induction items with
  | nil => simp [resolveExprItems]
  | cons item items ih => simp [resolveExprItems, ih]

/-- A step into an object whose entries were resolved. -/
theorem stepInto_resolveExprEntries (step : Step) (raw : List (String × Json)) :
    stepInto step (.dict (resolveExprEntries params path raw).value) =
      match step with
      | .left => (raw.lookup "left").map (placed params path .leaf)
      | .right => (raw.lookup "right").map (placed params path .leaf)
      | .child index =>
          match raw.lookup "children" with
          | some (.list items) => items[index]?.map (placed params path .walked)
          | _ => none
      | step => stepInto step (.dict raw) := by
  cases step with
  | left => simp [stepInto, lookup_resolveExprEntries]
  | right => simp [stepInto, lookup_resolveExprEntries]
  | operand =>
      have hkey := @placedEntry_other params path "operand"
      simp [stepInto, lookup_resolveExprEntries, hkey]
  | child index =>
      simp only [stepInto, lookup_resolveExprEntries]
      cases hchildren : raw.lookup "children" with
      | none => simp
      | some value =>
          cases value with
          | list items =>
              have hwalked : placed params path .walked =
                  fun item => (resolveExprParams params path item).value := rfl
              simp [placedEntry, resolveExprChildren, Json.iterate, resolveExprItems_value,
                hwalked]
          | _ => simp [placedEntry, resolveExprChildren, Json.iterate]
  | item index =>
      have hkey := @placedEntry_other params path "operands"
      simp [stepInto, lookup_resolveExprEntries, hkey]

theorem resolveLeaf_dict (raw : List (String × Json)) :
    (resolveLeaf params path (.dict raw)).value =
      match paramOf raw with
      | some name => (params.get name).getD (.dict raw)
      | none => .dict (resolveExprEntries params path raw).value := by
  rw [resolveLeaf, paramOf]
  split <;> simp_all

/-- What the resolver makes of an object. -/
theorem placed_dict (mode : Mode) (raw : List (String × Json)) :
    placed params path mode (.dict raw) =
      match substitute params mode raw with
      | some value => value
      | none =>
          if entersEntries mode raw then .dict (resolveExprEntries params path raw).value
          else .dict raw := by
  cases mode with
  | untouched => simp [placed, substitute, entersEntries]
  | walked => simp [placed, substitute, entersEntries, resolveExprParams]
  | leaf =>
      rw [placed, resolveLeaf_dict]
      cases hparam : paramOf raw with
      | none => simp [substitute, entersEntries, hparam]
      | some name => cases hget : params.get name <;> simp [substitute, entersEntries, hparam, hget]

/-- The text in the place of a text has no parts. -/
theorem isScalar_resolveText (hparams : ScalarParams params) (text : String) :
    (resolveText params path text).value.isScalar = true := by
  unfold resolveText
  cases paramName text with
  | none => simp [Json.isScalar]
  | some name =>
      cases hget : params.get name with
      | none => simp [hget, Json.isScalar]
      | some value => simpa [hget] using hparams name value hget

theorem stepInto_of_isScalar {value : Json} (h : value.isScalar = true) (step : Step) :
    stepInto step value = none := by
  cases value with
  | dict raw => simp [Json.isScalar] at h
  | _ => rfl

/-- What is no object has no steps, also after the resolver. -/
theorem stepInto_placed_of_not_dict (hparams : ScalarParams params) {tree : Json}
    (htree : ∀ raw, tree ≠ .dict raw) (mode : Mode) (step : Step) :
    stepInto step (placed params path mode tree) = none := by
  cases tree with
  | dict raw => exact absurd rfl (htree raw)
  | str text =>
      cases mode with
      | leaf =>
          simpa [placed, resolveLeaf] using
            stepInto_of_isScalar (isScalar_resolveText path hparams text) step
      | _ => simp [placed, resolveExprParams, stepInto]
  | _ => cases mode <;> simp [placed, resolveExprParams, resolveLeaf, stepInto]

/-- **A step after the resolver is a step before it.** -/
theorem stepInto_placed (hparams : ScalarParams params) (mode : Mode) (step : Step)
    (tree : Json) :
    stepInto step (placed params path mode tree) =
      (stepSource params mode step tree).map fun source =>
        placed params path source.1 source.2 := by
  cases tree with
  | dict raw =>
      rw [placed_dict]
      cases hsubstitute : substitute params mode raw with
      | some value =>
          have hscalar : value.isScalar = true := by
            unfold substitute at hsubstitute
            split_ifs at hsubstitute
            obtain ⟨name, -, hget⟩ := Option.bind_eq_some_iff.mp hsubstitute
            exact hparams name value hget
          simp [stepSource, hsubstitute, stepInto_of_isScalar hscalar]
      | none =>
          by_cases henters : entersEntries mode raw = true
          · simp only [henters, if_true, stepInto_resolveExprEntries, stepSource, hsubstitute,
              Option.isSome_none, Bool.false_eq_true, if_false]
            cases step with
            | child index =>
                cases raw.lookup "children" with
                | none => simp
                | some value => cases value <;> simp [Function.comp_def]
            | left => simp; rfl
            | right => simp; rfl
            | _ => simp [Function.comp_def, placed]
          · simp [henters, stepSource, hsubstitute, Function.comp_def, placed]
  | _ =>
      rw [stepInto_placed_of_not_dict path hparams (by simp)]
      rfl

/-- What stands at a place after the resolver. -/
theorem valueAt_placed (hparams : ScalarParams params) (place : Place) :
    ∀ (mode : Mode) (tree : Json), valueAt place (placed params path mode tree) =
      (sourceAt params mode place tree).map fun source =>
        placed params path source.1 source.2 := by
  induction place with
  | nil => simp [valueAt, sourceAt]
  | cons step place ih =>
      intro mode tree
      rw [valueAt, sourceAt, stepInto_placed path hparams]
      cases stepSource params mode step tree with
      | none => rfl
      | some source => simp [ih]

/-! ## §4 References -/

/-- A reference to a parameter: a text in double braces, or `{param: name}`. -/
def isReference : Json → Bool
  | .str text => (paramName text).isSome
  | .dict raw => (paramOf raw).isSome
  | _ => false

/-- The calculator would evaluate a reference here: the operand is one, or the
leaf made of it has one as its value. -/
def unresolved (raw : Json) : Bool := isReference raw || isReference (leafValue raw)

/-- A reference is substituted where it stands: as the value of a `left` or
`right` that the resolver walks to, for a declared parameter whose value is no
reference again. No other object holds a reference as its value. -/
def Resolvable (params : ResolvedParams) (mode : Mode) : Json → Prop
  | .str text =>
      ∀ name, paramName text = some name →
        mode = .leaf ∧ ∀ value, params.get name = some value → isReference value = false
  | .dict raw =>
      match paramOf raw with
      | some name =>
          mode = .leaf ∧ ∃ value, params.get name = some value ∧ isReference value = false
      | none => isReference (leafValue (.dict raw)) = false
  | _ => True

theorem unresolved_of_isScalar {value : Json} (h : value.isScalar = true) :
    unresolved value = isReference value := by
  cases value with
  | list items => simp [Json.isScalar] at h
  | dict raw => simp [Json.isScalar] at h
  | str text => simp [unresolved, leafValue]
  | _ => simp [unresolved, leafValue, isReference]

/-- The resolver leaves the keys of a leaf alone. -/
theorem unresolved_resolveExprEntries (raw : List (String × Json)) :
    unresolved (.dict (resolveExprEntries params path raw).value) = unresolved (.dict raw) := by
  have hlookup : ∀ key, key ≠ "children" → key ≠ "left" → key ≠ "right" →
      (resolveExprEntries params path raw).value.lookup key = raw.lookup key := by
    intro key hchildren hleft hright
    rw [lookup_resolveExprEntries, placedEntry_other path hchildren hleft hright]
    exact Option.map_id_apply
  simp [unresolved, isReference, leafValue, paramOf, Json.getD, hlookup]

theorem unresolved_dict (raw : List (String × Json)) :
    unresolved (.dict raw) = false ↔
      paramOf raw = none ∧ isReference (leafValue (.dict raw)) = false := by
  simp [unresolved, isReference]

/-- **A place holds a reference after the resolver exactly when the reference
is not resolvable there.** -/
theorem unresolved_placed (hparams : ScalarParams params) (mode : Mode) (tree : Json) :
    unresolved (placed params path mode tree) = false ↔ Resolvable params mode tree := by
  cases tree with
  | str text =>
      cases hname : paramName text with
      | none =>
          cases mode <;>
            simp [placed, resolveExprParams, resolveLeaf, resolveText, Resolvable, hname,
              unresolved, isReference, leafValue]
      | some name =>
          cases mode with
          | leaf =>
              cases hget : params.get name with
              | none =>
                  simp [placed, resolveLeaf, resolveText, Resolvable, hname, hget,
                    unresolved, isReference, leafValue]
              | some value =>
                  have hscalar := unresolved_of_isScalar (hparams name value hget)
                  simp [placed, resolveLeaf, resolveText, Resolvable, hname, hget, hscalar]
          | _ =>
              simp [placed, resolveExprParams, Resolvable, hname, unresolved, isReference]
  | dict raw =>
      rw [placed_dict]
      cases hparam : paramOf raw with
      | none =>
          have hsubstitute : substitute params mode raw = none := by
            simp [substitute, hparam]
          have hentries : unresolved (if entersEntries mode raw then
              Json.dict (resolveExprEntries params path raw).value else .dict raw) =
              unresolved (.dict raw) := by
            split_ifs
            · exact unresolved_resolveExprEntries path raw
            · rfl
          simp only [hsubstitute, hentries, unresolved_dict, Resolvable, hparam, true_and]
      | some name =>
          by_cases hmode : mode = .leaf
          · cases hget : params.get name with
            | none =>
                simp [substitute, hparam, hmode, hget, entersEntries, Resolvable,
                  unresolved_dict]
            | some value =>
                have hscalar := unresolved_of_isScalar (hparams name value hget)
                simp [substitute, hparam, hmode, hget, Resolvable, hscalar]
          · have hsubstitute : substitute params mode raw = none := by
              simp [substitute, hmode]
            have hentries : unresolved (if entersEntries mode raw then
                Json.dict (resolveExprEntries params path raw).value else .dict raw) =
                unresolved (.dict raw) := by
              split_ifs
              · exact unresolved_resolveExprEntries path raw
              · rfl
            simp only [hsubstitute, hentries, unresolved_dict, Resolvable, hparam, hmode]
            simp
  | list items =>
      cases mode <;>
        simp [placed, resolveExprParams, resolveLeaf, Resolvable, unresolved, isReference,
          leafValue]
  | _ =>
      cases mode <;>
        simp [placed, resolveExprParams, resolveLeaf, Resolvable, unresolved, isReference,
          leafValue]

/-! ## §5 Places that the collector walks -/

/-- The collector takes this step: it never looks under `operands`. -/
def Step.walked : Step → Bool
  | item _ => false
  | _ => true

/-- A text here is taken for a number if it looks like one. -/
def Step.isSide : Step → Bool
  | left => true
  | right => true
  | operand => true
  | _ => false

/-- A text that the collector reports under a step. -/
def Reported (step : Step) (column : String) : Prop :=
  step.isSide = true → isNumeral column = false

/-- The tree names a column at a place that the collector walks. -/
inductive NamesColumn (params : ResolvedParams) (path column : String) :
    Mode → Json → Prop where
  | here {mode tree step source} :
      stepSource params mode step tree = some source → step.walked = true →
      placed params path source.1 source.2 = .str column → Reported step column →
      NamesColumn params path column mode tree
  | there {mode tree step source} :
      stepSource params mode step tree = some source → step.walked = true →
      NamesColumn params path column source.1 source.2 →
      NamesColumn params path column mode tree

/-- Steps in a tree that the resolver does not treat. -/
theorem stepSource_untouched (step : Step) (tree : Json) :
    stepSource params .untouched step tree =
      (stepInto step tree).map fun value => (.untouched, value) := by
  cases tree <;> simp [stepSource, substitute, entersEntries, stepInto]

/-- The names in a tree after the resolver are those before it. -/
theorem namesColumn_placed (hparams : ScalarParams params) {column : String} {mode : Mode}
    {tree : Json} :
    NamesColumn params path column .untouched (placed params path mode tree) ↔
      NamesColumn params path column mode tree := by
  have hstep : ∀ {mode tree step source}, stepSource params mode step tree = some source →
      stepSource params .untouched step (placed params path mode tree) =
        some (.untouched, placed params path source.1 source.2) := by
    intro mode tree step source h
    simp [stepSource_untouched, stepInto_placed path hparams, h]
  constructor
  · intro h
    generalize htree : placed params path mode tree = after at h
    generalize hmode : Mode.untouched = treated at h
    induction h generalizing mode tree with
    | here hsource hwalked hvalue hreported =>
        subst hmode htree
        rw [stepSource_untouched, stepInto_placed path hparams, Option.map_map,
          Option.map_eq_some_iff] at hsource
        obtain ⟨source, hsource, rfl⟩ := hsource
        exact .here hsource hwalked hvalue hreported
    | there hsource hwalked _ ih =>
        subst hmode htree
        rw [stepSource_untouched, stepInto_placed path hparams, Option.map_map,
          Option.map_eq_some_iff] at hsource
        obtain ⟨source, hsource, rfl⟩ := hsource
        exact .there hsource hwalked (ih rfl rfl)
  · intro h
    induction h with
    | here hsource hwalked hvalue hreported =>
        exact .here (hstep hsource) hwalked hvalue hreported
    | there hsource hwalked _ ih => exact .there (hstep hsource) hwalked ih

section Collector

variable (params) (column : String)

/-- A value adds a column under a step of the collector. -/
def Adds (step : Step) (value : Json) : Prop :=
  (value = .str column ∧ Reported step column) ∨
    NamesColumn params path column .untouched value

theorem namesColumn_iff {tree : Json} :
    NamesColumn params path column .untouched tree ↔
      ∃ step value, stepInto step tree = some value ∧ step.walked = true ∧
        Adds params path column step value := by
  constructor
  · rintro (⟨hsource, hwalked, hvalue, hreported⟩ | ⟨hsource, hwalked, h⟩)
    all_goals
      rw [stepSource_untouched, Option.map_eq_some_iff] at hsource
      obtain ⟨value, hvalue', rfl⟩ := hsource
    · exact ⟨_, value, hvalue', hwalked, .inl ⟨hvalue, hreported⟩⟩
    · exact ⟨_, value, hvalue', hwalked, .inr h⟩
  · rintro ⟨step, value, hvalue, hwalked, ⟨hcolumn, hreported⟩ | h⟩
    all_goals
      have hsource : stepSource params .untouched step tree = some (.untouched, value) := by
        simp [stepSource_untouched, hvalue]
    · exact .here hsource hwalked hcolumn hreported
    · exact .there hsource hwalked h

/-- The columns of a value are those it names, and itself where it is a text. -/
def Collects (tree : Json) : Prop :=
  ∀ ofText columns, placedColumns ofText tree = some columns →
    (column ∈ columns ↔ (∃ text, tree = .str text ∧ column ∈ ofText text) ∨
      NamesColumn params path column .untouched tree)

variable {params} {path} {column}

theorem mem_sideColumns {text : String} {step : Step} (hside : step.isSide = true) :
    column ∈ sideColumns text ↔ text = column ∧ Reported step column := by
  unfold sideColumns Reported
  split_ifs with h
  · simp only [List.not_mem_nil, false_iff, not_and]
    rintro rfl hnumeral
    simp [hnumeral hside] at h
  · constructor
    · intro hmem
      obtain rfl := List.mem_singleton.mp hmem
      exact ⟨rfl, fun _ => by simpa using h⟩
    · rintro ⟨rfl, -⟩
      exact List.mem_singleton.mpr rfl

theorem mem_columnsUnder {key : String} {step : Step} {raw : List (String × Json)}
    (hstep : stepInto step (.dict raw) = raw.lookup key) (hside : step.isSide = true)
    (hvalues : ∀ entry ∈ raw, Collects params path column entry.2) {columns : List String}
    (h : columnsUnder key raw = some columns) :
    column ∈ columns ↔
      ∃ value, stepInto step (.dict raw) = some value ∧ Adds params path column step value := by
  rw [columnsUnder_eq] at h
  rw [hstep]
  cases hlookup : raw.lookup key with
  | none =>
      simp only [hlookup, Option.map_none, Option.getD_none, Option.some.injEq] at h
      simp [← h]
  | some value =>
      simp only [hlookup, Option.map_some, Option.getD_some] at h
      rw [hvalues _ (mem_of_lookup hlookup) _ _ h]
      simp only [Option.some.injEq, exists_eq_left', Adds]
      refine or_congr ?_ Iff.rfl
      constructor
      · rintro ⟨text, rfl, hmem⟩
        obtain ⟨rfl, hreported⟩ := (mem_sideColumns hside).mp hmem
        exact ⟨rfl, hreported⟩
      · rintro ⟨rfl, hreported⟩
        exact ⟨column, rfl, (mem_sideColumns hside).mpr ⟨rfl, hreported⟩⟩

theorem adds_child {index : ℕ} {value : Json} :
    Adds params path column (.child index) value ↔
      value = .str column ∨ NamesColumn params path column .untouched value := by
  simp [Adds, Reported, Step.isSide]

theorem mem_itemColumns {items : List Json}
    (hitems : ∀ item ∈ items, Collects params path column item) {columns : List String}
    (h : itemColumns items = some columns) :
    column ∈ columns ↔
      ∃ item ∈ items, item = .str column ∨ NamesColumn params path column .untouched item := by
  induction items generalizing columns with
  | nil =>
      simp only [itemColumns, Option.some.injEq] at h
      simp [← h]
  | cons item items ih =>
      simp only [itemColumns, Option.bind_eq_bind, Option.bind_eq_some_iff, Option.pure_def,
        Option.some.injEq] at h
      obtain ⟨head, hhead, rest, hrest, rfl⟩ := h
      have hchild : (∃ text, item = .str text ∧ column ∈ childColumns text) ↔
          item = .str column := by
        simp [childColumns]
      rw [List.mem_append, hitems item (by simp) _ _ hhead, hchild,
        ih (fun item hmem => hitems item (by simp [hmem])) hrest]
      simp

/-- Only objects name columns below them. -/
theorem not_namesColumn {tree : Json} (htree : ∀ raw, tree ≠ .dict raw) :
    ¬ NamesColumn params path column .untouched tree := by
  rw [namesColumn_iff]
  rintro ⟨step, value, hvalue, -⟩
  cases tree with
  | dict raw => exact htree raw rfl
  | _ => simp [stepInto] at hvalue

theorem mem_iteratedColumns {value : Json}
    (hitems : ∀ items, value = .list items → ∀ item ∈ items, Collects params path column item)
    {columns : List String} (h : iteratedColumns value = some columns) :
    ∃ items, value.iterate = some items ∧ (column ∈ columns ↔
      ∃ item ∈ items, item = .str column ∨ NamesColumn params path column .untouched item) := by
  have hstrings : ∀ {α : Type} (f : α → String) (parts : List α),
      column ∈ parts.map f ↔ ∃ item ∈ parts.map (fun part => Json.str (f part)),
        item = .str column ∨ NamesColumn params path column .untouched item := by
    intro α f parts
    have hnot : ∀ text, ¬ NamesColumn params path column .untouched (.str text) :=
      fun text => not_namesColumn (by simp)
    simp [hnot]
  cases value with
  | list items => exact ⟨items, rfl, mem_itemColumns (hitems items rfl) h⟩
  | str text =>
      obtain rfl := Option.some.inj h
      exact ⟨_, rfl, hstrings _ _⟩
  | dict entries =>
      obtain rfl := Option.some.inj h
      exact ⟨_, rfl, hstrings _ _⟩
  | _ => simp [iteratedColumns] at h

theorem mem_childrenColumns {raw : List (String × Json)}
    (hitems : ∀ entry ∈ raw, ∀ items, entry.2 = .list items →
      ∀ item ∈ items, Collects params path column item)
    {columns : List String} (h : childrenColumns raw = some columns) :
    column ∈ columns ↔
      ∃ index value, stepInto (.child index) (.dict raw) = some value ∧
        Adds params path column (.child index) value := by
  rw [childrenColumns_eq] at h
  cases hlookup : raw.lookup "children" with
  | none =>
      simp only [hlookup, Option.map_none, Option.getD_none, Option.some.injEq] at h
      simp [← h, stepInto, hlookup]
  | some value =>
      simp only [hlookup, Option.map_some, Option.getD_some] at h
      obtain ⟨items, hiterate, hmem⟩ :=
        mem_iteratedColumns (hitems _ (mem_of_lookup hlookup)) h
      simp only [hmem, adds_child, stepInto, hlookup, hiterate, Option.bind_some]
      constructor
      · rintro ⟨item, hitem, hadds⟩
        obtain ⟨index, hindex⟩ := List.mem_iff_getElem?.mp hitem
        exact ⟨index, item, hindex, hadds⟩
      · rintro ⟨index, item, hindex, hadds⟩
        exact ⟨item, List.mem_of_getElem? hindex, hadds⟩

/-- What is no object adds itself, if it is a text. -/
theorem collects_of_not_dict {tree : Json} (htree : ∀ raw, tree ≠ .dict raw) :
    Collects params path column tree := by
  intro ofText columns h
  have hnames : ¬ NamesColumn params path column .untouched tree := not_namesColumn htree
  cases tree with
  | dict raw => exact absurd rfl (htree raw)
  | str text =>
      obtain rfl := Option.some.inj h
      simp [hnames]
  | _ =>
      obtain rfl := Option.some.inj h
      simp [hnames]

theorem collects_dict {raw : List (String × Json)}
    (hvalues : ∀ entry ∈ raw, Collects params path column entry.2)
    (hitems : ∀ entry ∈ raw, ∀ items, entry.2 = .list items →
      ∀ item ∈ items, Collects params path column item) :
    Collects params path column (.dict raw) := by
  intro ofText columns h
  simp only [placedColumns, Option.bind_eq_bind, Option.bind_eq_some_iff, Option.pure_def,
    Option.some.injEq] at h
  obtain ⟨left, hleft, right, hright, operand, hoperand, children, hchildren, rfl⟩ := h
  have hside : ∀ {step key columns}, stepInto step (.dict raw) = raw.lookup key →
      step.isSide = true → columnsUnder key raw = some columns → (column ∈ columns ↔ _) :=
    fun hstep hside => mem_columnsUnder hstep hside hvalues
  have hleft := @hside .left "left" _ rfl rfl hleft
  have hright := @hside .right "right" _ rfl rfl hright
  have hoperand := @hside .operand "operand" _ rfl rfl hoperand
  have hchildren := mem_childrenColumns hitems hchildren
  simp only [List.mem_append, hleft, hright, hoperand, hchildren, namesColumn_iff,
    reduceCtorEq, false_and, exists_false, false_or]
  constructor
  · rintro (((⟨value, h⟩ | ⟨value, h⟩) | ⟨value, h⟩) | ⟨index, value, h⟩)
    all_goals exact ⟨_, value, h.1, rfl, h.2⟩
  · rintro ⟨step, value, hvalue, hwalked, hadds⟩
    cases step with
    | left => exact .inl (.inl (.inl ⟨value, hvalue, hadds⟩))
    | right => exact .inl (.inl (.inr ⟨value, hvalue, hadds⟩))
    | operand => exact .inl (.inr ⟨value, hvalue, hadds⟩)
    | child index => exact .inr ⟨index, value, hvalue, hadds⟩
    | item index => cases hwalked

theorem collects (tree : Json) : Collects params path column tree := by
  suffices h : Collects params path column tree ∧
      ∀ items, tree = .list items → ∀ item ∈ items, Collects params path column item from h.1
  induction tree using Json.induction with
  | scalar value hscalar =>
      refine ⟨collects_of_not_dict ?_, ?_⟩
      · rintro raw rfl
        cases hscalar
      · rintro items rfl
        cases hscalar
  | list items ih =>
      refine ⟨collects_of_not_dict (by simp), ?_⟩
      intro _ hitems item hitem
      obtain rfl := Json.list.inj hitems
      exact (ih item hitem).1
  | dict entries ih =>
      exact ⟨collects_dict (fun entry h => (ih entry h).1) (fun entry h => (ih entry h).2),
        by simp⟩

end Collector

/-- **The collector reports exactly the names at the places that it walks**, here
in terms of the tree before the resolver. -/
theorem mem_collectFormulaExprColumns (hparams : ScalarParams params) {mode : Mode}
    {tree : Json} {columns : List String} {column : String}
    (h : collectFormulaExprColumns (placed params path mode tree) = some columns) :
    column ∈ columns ↔ NamesColumn params path column mode tree := by
  rw [← namesColumn_placed path hparams]
  simpa using collects (placed params path mode tree) _ _ h

/-! ## §6 The walkers agree -/

/-- The expression of a feature, after `_resolve_expr_params`. -/
def resolvedExpr (params : ResolvedParams) (path : String) (expr : Json) : Json :=
  (resolveExprParams params path expr).value

/-- The three walkers agree on an expression for which the collector reports
`columns`: no reference is left where the calculator evaluates, and the
calculator reads only reported columns, whatever the operations of pandas do
and whatever the frame holds. -/
structure WalkersAgree (strOf : Json → String) (params : ResolvedParams) (path : String)
    (expr : Json) (columns : List String) : Prop where
  resolved : ∀ leaf ∈ evaluatedLeaves (resolvedExpr params path expr),
    unresolved leaf.2 = false
  reported : ∀ (S : Type) (pandas : Pandas S) (frame : DataFrame S),
    ∀ column ∈ columnsRead pandas strOf frame (resolvedExpr params path expr),
      column ∈ columns

/-- Where the walkers agree, in terms of the tree as it was written: at every
evaluated place a reference is resolvable, and the column of what stands there
is named at a place that the collector walks. -/
structure Covered (strOf : Json → String) (params : ResolvedParams) (path : String)
    (expr : Json) : Prop where
  references : ∀ leaf ∈ evaluatedLeaves (resolvedExpr params path expr),
    ∀ mode source, sourceAt params .walked leaf.1 expr = some (mode, source) →
      Resolvable params mode source
  columns : ∀ leaf ∈ evaluatedLeaves (resolvedExpr params path expr),
    ∀ mode source, sourceAt params .walked leaf.1 expr = some (mode, source) →
      ∀ column, leafColumn strOf (placed params path mode source) = some column →
        NamesColumn params path column .walked expr

variable (strOf : Json → String)

/-- What stands at an evaluated place before the resolver. -/
theorem source_of_mem_evaluatedLeaves (hparams : ScalarParams params) {expr : Json}
    {leaf : Place × Json} (h : leaf ∈ evaluatedLeaves (resolvedExpr params path expr)) :
    (∃ mode source, sourceAt params .walked leaf.1 expr = some (mode, source) ∧
      placed params path mode source = leaf.2) ∨
    (sourceAt params .walked leaf.1 expr = none ∧ leaf.2 = .null) := by
  have hplaced := valueAt_placed path hparams leaf.1 .walked expr
  have hresolved : placed params path .walked expr = resolvedExpr params path expr := rfl
  rw [hresolved] at hplaced
  rcases valueAt_of_mem_evaluatedLeaves h with hvalue | ⟨hvalue, hnull⟩
  · rw [hvalue, eq_comm, Option.map_eq_some_iff] at hplaced
    obtain ⟨⟨mode, source⟩, hsource, hleaf⟩ := hplaced
    exact .inl ⟨mode, source, hsource, hleaf⟩
  · rw [hvalue, eq_comm, Option.map_eq_none_iff] at hplaced
    exact .inr ⟨hplaced, hnull⟩

/-- The walkers agree where the formula is covered. -/
theorem walkersAgree_iff_covered (hparams : ScalarParams params) (expr : Json)
    {columns : List String}
    (hcollect : collectFormulaExprColumns (resolvedExpr params path expr) = some columns) :
    WalkersAgree strOf params path expr columns ↔ Covered strOf params path expr := by
  have hmem : ∀ column, column ∈ columns ↔ NamesColumn params path column .walked expr :=
    fun column => mem_collectFormulaExprColumns path hparams hcollect
  constructor
  · rintro ⟨hresolved, hreported⟩
    constructor
    · intro leaf hleaf mode source hsource
      rw [← unresolved_placed path hparams]
      rcases source_of_mem_evaluatedLeaves path hparams hleaf with
        ⟨mode', source', hsource', hplaced⟩ | ⟨hnone, -⟩
      · rw [hsource, Option.some.injEq, Prod.mk.injEq] at hsource'
        obtain ⟨rfl, rfl⟩ := hsource'
        rw [hplaced]
        exact hresolved leaf hleaf
      · rw [hsource] at hnone
        cases hnone
    · intro leaf hleaf mode source hsource column hcolumn
      rcases source_of_mem_evaluatedLeaves path hparams hleaf with
        ⟨mode', source', hsource', hplaced⟩ | ⟨hnone, -⟩
      · rw [hsource, Option.some.injEq, Prod.mk.injEq] at hsource'
        obtain ⟨rfl, rfl⟩ := hsource'
        refine (hmem column).mp (hreported Unit Pandas.total (fun _ => some ()) column ?_)
        rw [columnsRead_total]
        exact List.mem_filterMap.mpr ⟨leaf, hleaf, by rw [← hplaced]; exact hcolumn⟩
      · rw [hsource] at hnone
        cases hnone
  · rintro ⟨hreferences, hcolumns⟩
    constructor
    · intro leaf hleaf
      rcases source_of_mem_evaluatedLeaves path hparams hleaf with
        ⟨mode, source, hsource, hplaced⟩ | ⟨-, hnull⟩
      · rw [← hplaced, unresolved_placed path hparams]
        exact hreferences leaf hleaf mode source hsource
      · simp [hnull, unresolved, isReference, leafValue]
    · intro S pandas frame column hread
      obtain ⟨leaf, hleaf, hcolumn⟩ :=
        List.mem_filterMap.mp (columnsRead_subset pandas strOf frame hread)
      rcases source_of_mem_evaluatedLeaves path hparams hleaf with
        ⟨mode, source, hsource, hplaced⟩ | ⟨-, hnull⟩
      · exact (hmem column).mpr
          (hcolumns leaf hleaf mode source hsource column (by rw [hplaced]; exact hcolumn))
      · simp [hnull, leafColumn, leafKind] at hcolumn

/-- **When the walkers of a formula agree.** Every formula of an accepted strategy is resolved
with parameters without parts, and the collector returns on it; there the columns it reports are
required of the frame. -/
theorem formula_walkers_agree_iff (hparams : ScalarParams params) (expr : Json)
    {columns : List String}
    (hcollect : collectFormulaExprColumns (resolvedExpr params path expr) = some columns) :
    (WalkersAgree strOf params path expr columns ↔ Covered strOf params path expr) ∧
    ∀ (env : ParserEnvironment) (data : Json) (overrides : List (String × Json))
        (accepted : AcceptedStrategy), parse env data overrides = .ok (.valid accepted) →
      ∀ feature ∈ accepted.definition.features, feature.type = "formula" →
        ∃ path expr columns,
          feature.rawExpr =
            some (resolvedExpr accepted.definition.resolvedParams path expr) ∧
          collectFormulaExprColumns
            (resolvedExpr accepted.definition.resolvedParams path expr) = some columns ∧
          (∀ column ∈ columns, column ∈ accepted.requiredColumns) ∧
          (WalkersAgree env.strOf accepted.definition.resolvedParams path expr columns ↔
            Covered env.strOf accepted.definition.resolvedParams path expr) := by
  refine ⟨walkersAgree_iff_covered path strOf hparams expr hcollect, ?_⟩
  intro env data overrides accepted haccepted feature hfeature htype
  obtain ⟨place, written, found, hexpr, hfound, hrequired⟩ :=
    accepted_formula haccepted hfeature htype
  exact ⟨place, written, found, hexpr, hfound, hrequired,
    walkersAgree_iff_covered place env.strOf (accepted_scalarParams haccepted) written hfound⟩

/-- The parameter and the expression of the examples below. -/
def twoParams : ResolvedParams := OrderedDict.assign {} "p" (.int 2)

theorem scalarParams_two : ScalarParams twoParams := by
  intro name value h
  rw [twoParams, OrderedDict.get_assign] at h
  split_ifs at h
  · obtain rfl := Option.some.inj h
    rfl
  · cases h

/-- The walkers agree on `p / close`. -/
theorem formula_walkers_agree_iff_quotient :
    WalkersAgree (fun _ => "") twoParams "$"
        (.dict [("op", .str "/"), ("left", .dict [("param", .str "p")]), ("right", .str "close")])
        ["close"] ↔
      Covered (fun _ => "") twoParams "$"
        (.dict [("op", .str "/"), ("left", .dict [("param", .str "p")]),
          ("right", .str "close")]) :=
  (formula_walkers_agree_iff "$" (fun _ => "") scalarParams_two _ rfl).1

/-- `abs(p) + rsi_14`, with the parameter under `operand` and the column in an
object. -/
def absPlusRsi : Json :=
  .dict [("op", .str "+"),
    ("left", .dict [("op", .str "abs"), ("operand", .dict [("param", .str "p")])]),
    ("right", .dict [("indicator", .str "rsi_14")])]

/-- A strategy whose entry compares a formula with a number. -/
def formulaStrategy (expr : Json) : Json :=
  .dict [("schema_version", .str "2.0"), ("name", .str "formula"),
    ("parameters", .dict [("p", .dict [("type", .str "int"), ("default", .int 2)])]),
    ("features", .list
      [.dict [("name", .str "scaled"), ("type", .str "formula"), ("expr", expr)]]),
    ("sides", .dict [("long", .dict [("entry", .dict [("condition", .dict
      [("left", .str "scaled"), ("operator", .str ">"), ("right", .int 1)])])])])]

/-- **An accepted formula on which the walkers disagree**: the parameter stays
unresolved where it is evaluated, and `rsi_14` is read but not reported. -/
theorem abs_plus_rsi_disagrees :
    ∃ accepted, parse smallEnvironment (formulaStrategy absPlusRsi) [] = .ok (.valid accepted) ∧
      ∃ feature ∈ accepted.definition.features, ∃ path columns,
        feature.rawExpr =
          some (resolvedExpr accepted.definition.resolvedParams path absPlusRsi) ∧
        collectFormulaExprColumns
          (resolvedExpr accepted.definition.resolvedParams path absPlusRsi) = some columns ∧
        ¬ WalkersAgree smallEnvironment.strOf accepted.definition.resolvedParams path absPlusRsi
          columns ∧
        "rsi_14" ∈ columnsRead Pandas.total smallEnvironment.strOf (fun _ => some ())
          (resolvedExpr accepted.definition.resolvedParams path absPlusRsi) ∧
        "rsi_14" ∉ accepted.requiredColumns := by
  refine ⟨_, rfl, _, List.mem_singleton.mpr rfl, "$", [], rfl, rfl, ?_, ?_, ?_⟩
  · intro h
    have hleaf := h.resolved ([.left, .operand], .dict [("param", .str "p")])
      (List.mem_cons.mpr (.inl rfl))
    exact absurd hleaf (by decide)
  · exact List.mem_cons.mpr (.inr (List.mem_singleton.mpr rfl))
  · decide +kernel

end Finbar.Indicators
