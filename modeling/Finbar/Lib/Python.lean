/-
Finbar.Lib.Python — the pieces of Python's standard library that a model of
Python code leans on: exceptions, interpolated messages, `str.strip`,
`math.isclose`, `round` and string-valued enumerations.

Numbers are exact rationals. A formatted message keeps its template and its
interpolated values apart, so that no number has to be printed.

No `sorry`, no `axiom`.
-/
import Mathlib.Algebra.Order.Field.Rat
import Mathlib.Algebra.Order.Floor.Ring
import Mathlib.Data.List.DropRight
import Mathlib.Data.Rat.Floor

namespace Lib.Python

/-! ## §1 Messages and exceptions -/

/-- A value interpolated into a message. -/
inductive MessageArg where
  | num (q : ℚ)
  | text (s : String)
  | texts (ss : List String)
  deriving DecidableEq

/-- A message: the template of the f-string, each replacement field written
`%`, and the values of the fields in order. -/
structure Message where
  template : String
  args : List MessageArg := []
  deriving DecidableEq

/-- `f"text{message}"`, for a text without fields of its own. -/
def Message.after (text : String) (message : Message) : Message :=
  { message with template := text ++ message.template }

/-- The exceptions the modelled code raises. -/
inductive PyError where
  | valueError (msg : Message)
  | typeError (msg : Message)
  | notImplementedError (msg : Message)
  | keyError (key : String)
  deriving DecidableEq

/-- `str(exc)`. -/
def PyError.message : PyError → Message
  | .valueError msg => msg
  | .typeError msg => msg
  | .notImplementedError msg => msg
  | .keyError key => { template := "%", args := [.text key] }

/-! ## §2 Strings -/

/-- The characters `str.strip` removes: those with `str.isspace()`. -/
def isSpace (c : Char) : Bool :=
  [0x09, 0x0A, 0x0B, 0x0C, 0x0D, 0x1C, 0x1D, 0x1E, 0x1F, 0x20, 0x85, 0xA0, 0x1680,
    0x2000, 0x2001, 0x2002, 0x2003, 0x2004, 0x2005, 0x2006, 0x2007, 0x2008, 0x2009,
    0x200A, 0x2028, 0x2029, 0x202F, 0x205F, 0x3000].contains c.toNat

/-- `str.strip()`, on characters. -/
def strip (cs : List Char) : List Char :=
  ((cs.dropWhile isSpace).reverse.dropWhile isSpace).reverse

theorem strip_eq_rdropWhile (cs : List Char) :
    strip cs = (cs.dropWhile isSpace).rdropWhile isSpace := rfl

/-- What is stripped has no space on either side. -/
theorem strip_strip (cs : List Char) : strip (strip cs) = strip cs := by
  have hhead : (strip cs).dropWhile isSpace = strip cs := by
    rw [List.dropWhile_eq_self_iff, strip_eq_rdropWhile]
    intro hlength
    obtain ⟨rest, hrest⟩ := List.rdropWhile_prefix isSpace (cs.dropWhile isSpace)
    have hleft : (cs.dropWhile isSpace).dropWhile isSpace = cs.dropWhile isSpace :=
      List.dropWhile_idempotent isSpace cs
    rw [List.dropWhile_eq_self_iff, ← hrest] at hleft
    have hfirst := hleft (by
      rw [List.length_append]
      exact Nat.lt_add_right _ hlength)
    rwa [List.getElem_append_left hlength] at hfirst
  rw [strip_eq_rdropWhile (strip cs), hhead]
  exact List.rdropWhile_idempotent isSpace (cs.dropWhile isSpace)

theorem strip_sublist (cs : List Char) : (strip cs).Sublist cs :=
  (List.rdropWhile_prefix isSpace _).sublist.trans (List.dropWhile_sublist isSpace)

/-! ## §3 Numbers -/

/-- `math.isclose(a, b, rel_tol=relTol)` with the default `abs_tol = 0`. -/
def isClose (a b relTol : ℚ) : Bool :=
  decide (|a - b| ≤ relTol * max |a| |b|)

/-- `int(x)` of a number: truncation towards zero. -/
def truncate (x : ℚ) : ℤ :=
  if 0 ≤ x then ⌊x⌋ else ⌈x⌉

/-- Round half to even, to an integer. -/
def roundHalfEven (x : ℚ) : ℤ :=
  let down := ⌊x⌋
  if x - down < 1 / 2 then down
  else if 1 / 2 < x - down then down + 1
  else if down % 2 = 0 then down
  else down + 1

/-- `round(x, ndigits)`: ties on the decimal digit go to the even one. -/
def pyRound (x : ℚ) (ndigits : ℕ) : ℚ :=
  (roundHalfEven (x * 10 ^ ndigits) : ℚ) / 10 ^ ndigits

/-! ## §4 String-valued enumerations -/

/-- A `class X(str, Enum)`: finitely many members, told apart by their
values. -/
class StrEnum (α : Type) where
  /-- The members, in declaration order. -/
  members : List α
  /-- `member.value`. -/
  value : α → String
  /-- No value is the empty string. -/
  value_ne_empty : ∀ a, value a ≠ ""
  /-- Looking a value up finds its member. -/
  find_value : ∀ a, members.find? (fun m => value m == value a) = some a

/-- The member with a given value, or the validation error of the field it
was meant for. -/
def StrEnum.parse {α : Type} [StrEnum α] (owner fieldName value : String) :
    Except PyError α :=
  match StrEnum.members.find? (fun m : α => StrEnum.value m == value) with
  | some m => .ok m
  | none =>
      .error (.valueError
        { template := "%.%=% is not one of % (typo?)"
          args := [.text owner, .text fieldName, .text value,
            .texts ((StrEnum.members.map (StrEnum.value (α := α))).mergeSort
              (fun a b => decide (a ≤ b)))] })

/-- Parsing the value of a member gives the member back. -/
theorem StrEnum.parse_value {α : Type} [StrEnum α] (owner fieldName : String)
    (a : α) : StrEnum.parse owner fieldName (StrEnum.value a) = .ok a := by
  unfold StrEnum.parse
  rw [StrEnum.find_value a]

end Lib.Python
