/-
Finbar.Parser.Helpers — `strategy_definition_parse_helpers.py`: validation
errors, parameter references and the tables of fields and operators.

A resolver appends to one list of errors; here it returns the errors it adds
(`Checked`), and a definition is accepted when there are none.

No `sorry`, no `axiom`.
-/
import Finbar.Evaluation.Condition
import Finbar.Lib.Json
import Finbar.Lib.OrderedDict

namespace Finbar.Parser

open Lib Lib.Python Finbar.Evaluation

/-! ## §1 Validation errors -/

/-- `StrategyValidationError`. -/
structure ValidationError where
  path : String
  message : Message
  code : String := "validation_error"
  deriving DecidableEq

/-- A value and the errors that computing it added. -/
@[ext] structure Checked (α : Type) where
  value : α
  errors : List ValidationError := []

instance : Monad Checked where
  pure a := { value := a }
  bind x f :=
    { value := (f x.value).value, errors := x.errors ++ (f x.value).errors }

/-- `errors.append(make_error(path, message, code))`. -/
def reportAs (path : String) (message : Message) (code : String) : Checked Unit :=
  { value := (), errors := [{ path := path, message := message, code := code }] }

/-- `errors.append(make_error(path, message))`: the code is `make_error`'s default. -/
abbrev report (path : String) (message : Message) : Checked Unit :=
  reportAs path message "validation_error"

namespace Checked

variable {α β : Type}

@[simp] theorem pure_value (a : α) : (pure a : Checked α).value = a := rfl

@[simp] theorem pure_errors (a : α) : (pure a : Checked α).errors = [] := rfl

@[simp] theorem bind_value (x : Checked α) (f : α → Checked β) :
    (x >>= f).value = (f x.value).value := rfl

@[simp] theorem bind_errors (x : Checked α) (f : α → Checked β) :
    (x >>= f).errors = x.errors ++ (f x.value).errors := rfl

@[simp] theorem pure_bind (a : α) (f : α → Checked β) : (pure a >>= f) = f a := rfl

/-- A computation is clean when all of its parts are. -/
theorem bind_eq_pure {x : Checked α} {f : α → Checked β} {b : β} :
    (x >>= f) = pure b ↔ ∃ a, x = pure a ∧ f a = pure b := by
  constructor
  · intro h
    have herrors : x.errors ++ (f x.value).errors = [] := congrArg Checked.errors h
    obtain ⟨hx, hf⟩ := List.append_eq_nil_iff.mp herrors
    have hvalue := congrArg Checked.value h
    exact ⟨x.value, Checked.ext rfl hx, Checked.ext hvalue hf⟩
  · rintro ⟨a, rfl, h⟩
    exact h

/-- What is reported is not clean. -/
theorem report_ne_pure {path code : String} {message : Message} {u : Unit} :
    reportAs path message code ≠ pure u := by
  intro h
  have herrors := congrArg Checked.errors h
  cases herrors

theorem report_bind_ne_pure {path code : String} {message : Message}
    {f : Unit → Checked β} {b : β} : (reportAs path message code >>= f) ≠ pure b := by
  intro h
  obtain ⟨_, hreport, -⟩ := bind_eq_pure.mp h
  exact report_ne_pure hreport

/-- A loop without errors keeps what each of its steps keeps. -/
theorem foldlM_induction {motive : β → Prop} {f : β → α → Checked β} {items : List α}
    {init final : β} (h : items.foldlM f init = pure final) (hinit : motive init)
    (hstep : ∀ state item next, item ∈ items → motive state → f state item = pure next →
      motive next) : motive final := by
  induction items generalizing init with
  | nil =>
      have hfinal : init = final := congrArg Checked.value h
      exact hfinal ▸ hinit
  | cons item items ih =>
      rw [List.foldlM_cons] at h
      obtain ⟨next, hnext, hrest⟩ := bind_eq_pure.mp h
      exact ih hrest (hstep init item next (by simp) hinit hnext)
        fun state item next hmem => hstep state item next (by simp [hmem])

theorem pure_eq_pure {a b : α} : (pure a : Checked α) = pure b ↔ a = b :=
  ⟨fun h => congrArg Checked.value h, fun h => h ▸ rfl⟩

/-- The step of a loop that appends what it finds. -/
def appendFound (find : List β → α → Checked (Option β)) (found : List β) (item : α) :
    Checked (List β) := do
  match ← find found item with
  | none => return found
  | some b => return found ++ [b]

theorem appendFound_eq {find : List β → α → Checked (Option β)} {found next : List β}
    {item : α} (h : appendFound find found item = pure next) :
    next = found ∨ ∃ b, find found item = pure (some b) ∧ next = found ++ [b] := by
  obtain ⟨b, hfind, h⟩ := bind_eq_pure.mp h
  cases b with
  | none => exact .inl (pure_eq_pure.mp h).symm
  | some b => exact .inr ⟨b, hfind, (pure_eq_pure.mp h).symm⟩

/-- Whatever a loop has appended, it found after what stands before it. -/
theorem foldlM_appendFound {find : List β → α → Checked (Option β)} {items : List α}
    {final : List β} (h : items.foldlM (appendFound find) [] = pure final) :
    ∀ before b after, final = before ++ b :: after →
      ∃ item ∈ items, find before item = pure (some b) := by
  refine foldlM_induction (motive := fun found => ∀ before b after,
    found = before ++ b :: after → ∃ item ∈ items, find before item = pure (some b)) h
    (by simp) ?_
  intro found item next hitem hfound hnext before b after hsplit
  rcases appendFound_eq hnext with rfl | ⟨c, hfind, rfl⟩
  · exact hfound before b after hsplit
  · rcases List.eq_nil_or_concat after with rfl | ⟨rest, last, rfl⟩
    · obtain ⟨rfl, hlast⟩ := List.append_inj' hsplit rfl
      obtain rfl := List.singleton_inj.mp hlast
      exact ⟨item, hitem, hfind⟩
    · refine hfound before b rest ?_
      have hassoc : found ++ [c] = (before ++ b :: rest) ++ [last] := by simpa using hsplit
      exact (List.append_inj' hassoc rfl).1

/-- A loop appends at most one result for each item. -/
theorem foldlM_appendFound_length {find : List β → α → Checked (Option β)} {items : List α}
    {init final : List β} (h : items.foldlM (appendFound find) init = pure final) :
    final.length ≤ init.length + items.length := by
  induction items generalizing init with
  | nil =>
      obtain rfl := pure_eq_pure.mp h
      exact Nat.le_add_right _ _
  | cons item items ih =>
      rw [List.foldlM_cons] at h
      obtain ⟨next, hnext, hrest⟩ := bind_eq_pure.mp h
      have hlength := ih hrest
      rw [List.length_cons]
      rcases appendFound_eq hnext with rfl | ⟨b, -, rfl⟩
      · omega
      · rw [List.length_append, List.length_singleton] at hlength
        omega

/-- A loop finds a list when each of its items is found after those before it. -/
theorem foldlM_appendFound_of {γ : Type} {find : List β → γ × ℕ → Checked (Option β)}
    {write : β → γ} {final : List β}
    (h : ∀ before b after, final = before ++ b :: after →
      ∀ i, find before (write b, i) = pure (some b)) :
    (final.map write).zipIdx.foldlM (appendFound find) [] = pure final := by
  suffices hrest : ∀ (rest before : List β) (i : ℕ), final = before ++ rest →
      ((rest.map write).zipIdx i).foldlM (appendFound find) before = pure final from
    hrest final [] 0 rfl
  intro rest
  induction rest with
  | nil =>
      intro before i hsplit
      rw [List.append_nil] at hsplit
      exact hsplit ▸ rfl
  | cons b rest ih =>
      intro before i hsplit
      rw [List.map_cons, List.zipIdx_cons, List.foldlM_cons, appendFound,
        h before b rest hsplit i]
      exact ih (before ++ [b]) (i + 1) (by simpa using hsplit)

/-- A loop that assigns the entries of a dictionary builds it again. -/
theorem foldlM_assign {κ γ : Type} [DecidableEq κ] {d : OrderedDict κ β} {write : β → α}
    {read : β → γ} {f : OrderedDict κ γ → κ × α → Checked (OrderedDict κ γ)}
    (h : ∀ state, ∀ entry ∈ d.items,
      f state (entry.1, write entry.2) = pure (state.assign entry.1 (read entry.2))) :
    (d.items.map fun entry => (entry.1, write entry.2)).foldlM f {} =
      pure (d.mapValues read) := by
  suffices hrest : ∀ (items : List (κ × β)) (state : OrderedDict κ γ),
      (∀ entry ∈ items, entry ∈ d.items) →
      (items.map fun entry => (entry.1, write entry.2)).foldlM f state =
        pure (state.assignAll (items.map fun entry => (entry.1, read entry.2))) by
    rw [hrest d.items {} fun _ hentry => hentry]
    exact congrArg pure (OrderedDict.assignAll_mapValues d read)
  intro items
  induction items with
  | nil => exact fun _ _ => rfl
  | cons entry items ih =>
      intro state hmem
      rw [List.map_cons, List.foldlM_cons, h state entry (hmem entry (by simp))]
      exact ih _ fun other hother => hmem other (by simp [hother])

end Checked

/-! ## §2 Tables -/

/-- `OHLCV_FIELDS`. -/
def ohlcvFields : List String := ["timestamp", "open", "high", "low", "close", "volume"]

/-- `BINARY_OPERATORS`. -/
def binaryOperators : List ConditionOperator :=
  [.lt, .gt, .le, .ge, .eq, .ne, .crossesAbove, .crossesBelow, .between, .notBetween]

/-- `UNARY_OPERATORS`. -/
def unaryOperators : List ConditionOperator := [.isTrue, .isFalse, .exists, .missing]

/-- The operator of a text, if it is a known one. -/
def operatorOf (text : String) : Option ConditionOperator :=
  (binaryOperators ++ unaryOperators).find? fun operator => decide (operator.value = text)

/-- Reading an operator back. -/
theorem operatorOf_value (operator : ConditionOperator) :
    operatorOf operator.value = some operator := by
  cases operator <;> decide +kernel

/-- The types of parameters: `PARAMETER_TYPES`. -/
inductive ParameterType where
  | int
  | float
  | bool
  | string
  deriving DecidableEq, Repr

/-- The type as it is written. -/
def ParameterType.value : ParameterType → String
  | int => "int"
  | float => "float"
  | bool => "bool"
  | string => "string"

/-- The parameter type of a text, if it is one. -/
def parameterTypeOf (text : String) : Option ParameterType :=
  [.int, .float, .bool, .string].find? fun (type : ParameterType) =>
    decide (type.value = text)

/-- `value_matches_type`. -/
def valueMatchesType (value : Json) : ParameterType → Bool
  | .bool => value.isBool
  | .int => value.isInt && !value.isBool
  | .float => value.isNumber && !value.isBool
  | .string => value.isStr

/-! ## §3 Text -/

/-- `text.lower()`. -/
def lower (text : String) : String := String.ofList (text.toList.map Char.toLower)

/-- `text.strip()`. -/
def stripped (text : String) : String := String.ofList (strip text.toList)

@[simp] theorem stripped_stripped (text : String) :
    stripped (stripped text) = stripped text := by
  simp only [stripped, String.toList_ofList, strip_strip]

theorem toLower_toLower (c : Char) : c.toLower.toLower = c.toLower := by
  unfold Char.toLower
  split_ifs with h h'
  · exfalso
    simp [UInt32.le_iff_toNat_le] at h h'
    omega
  · rfl
  · rfl

/-- A text in lower case stays as it is, also when it is stripped. -/
@[simp] theorem lower_stripped_lower (text : String) :
    lower (stripped (lower text)) = stripped (lower text) := by
  simp only [lower, stripped, String.toList_ofList]
  congr 1
  refine (List.map_congr_left fun c hc => ?_).trans (List.map_id _)
  obtain ⟨d, -, rfl⟩ := List.mem_map.mp ((strip_sublist _).subset hc)
  exact toLower_toLower d

/-- `[A-Za-z_][A-Za-z0-9_]*`. -/
def isIdentifier : List Char → Bool
  | [] => false
  | c :: cs => (c.isAlpha || c = '_') && cs.all fun c => c.isAlphanum || c = '_'

/-- `PARAM_RE`: the name in a reference, two braces on each side of it. -/
def paramName (text : String) : Option String :=
  match strip text.toList with
  | '\x7b' :: '\x7b' :: rest =>
      match rest.reverse with
      | '\x7d' :: '\x7d' :: inner =>
          let name := strip inner.reverse
          if isIdentifier name then some (String.ofList name) else none
      | _ => none
  | _ => none

/-! ## §4 Expressions -/

/-- `extract_condition`: the condition of a signal block, or the condition
itself. -/
def extractCondition : Json → Json
  | .dict entries =>
      match entries.lookup "condition" with
      | some condition => condition
      | none => .dict entries
  | raw => raw

/-- The parameter values: `resolved_params`. -/
abbrev ResolvedParams := OrderedDict String Json

/-- `resolve_expression` on a string. -/
def resolveText (params : ResolvedParams) (path text : String) : Checked Json :=
  match paramName text with
  | none => pure (.str text)
  | some name =>
      match params.get name with
      | some value => pure value
      | none => do
          reportAs path { template := "unknown parameter '%'", args := [.text name] }
            "unknown_parameter"
          return .null

mutual

/-- `resolve_expression`. -/
def resolveExpression (params : ResolvedParams) (path : String) : Json → Checked Json
  | .list items => do
      let items ← resolveExpressions params path items
      return .list items
  | .str text => resolveText params path text
  | value => pure value

/-- The items of a list. -/
def resolveExpressions (params : ResolvedParams) (path : String) :
    List Json → Checked (List Json)
  | [] => pure []
  | item :: items => do
      let item ← resolveExpression params path item
      let items ← resolveExpressions params path items
      return item :: items

end

example : paramName " \x7b\x7b fast_1 \x7d\x7d " = some "fast_1" := by decide +kernel

end Finbar.Parser
