/-
Finbar.Lib.PyValue — Python's dynamic values as far as configuration
dictionaries and data rows need them: `None`, booleans, numbers, strings and
lists, with truthiness, `x or default` and `float(x)`.

`PyFloat` is a float in exact arithmetic: a rational, an infinity or NaN,
with IEEE comparison (every comparison with NaN is false) and the IEEE
results of `inf - inf` and `0 * inf`. Integers are read as numbers too.

No `sorry`, no `axiom`.
-/
import Finbar.Lib.Python

namespace Lib.Python

/-! ## §1 Floats in exact arithmetic -/

/-- A float without rounding. -/
inductive PyFloat where
  | nan
  | negInf
  | fin (q : ℚ)
  | posInf
  deriving DecidableEq

namespace PyFloat

/-- `math.isnan`. -/
def isNan : PyFloat → Bool
  | nan => true
  | _ => false

/-- `x < y`. -/
def lt : PyFloat → PyFloat → Bool
  | nan, _ => false
  | _, nan => false
  | negInf, negInf => false
  | negInf, _ => true
  | fin _, negInf => false
  | fin a, fin b => decide (a < b)
  | fin _, posInf => true
  | posInf, _ => false

/-- `x <= y`. -/
def le : PyFloat → PyFloat → Bool
  | nan, _ => false
  | _, nan => false
  | negInf, _ => true
  | fin _, negInf => false
  | fin a, fin b => decide (a ≤ b)
  | fin _, posInf => true
  | posInf, posInf => true
  | posInf, _ => false

/-- `-x`. -/
def neg : PyFloat → PyFloat
  | nan => nan
  | negInf => posInf
  | fin q => fin (-q)
  | posInf => negInf

/-- `x + y`. -/
def add : PyFloat → PyFloat → PyFloat
  | nan, _ => nan
  | _, nan => nan
  | fin a, fin b => fin (a + b)
  | posInf, negInf => nan
  | negInf, posInf => nan
  | posInf, _ => posInf
  | _, posInf => posInf
  | negInf, _ => negInf
  | _, negInf => negInf

/-- `x - y`. -/
def sub (x y : PyFloat) : PyFloat :=
  x.add y.neg

/-- An infinity with the sign of a rational, NaN for zero. -/
def infOfSign (q : ℚ) : PyFloat :=
  if q = 0 then nan else if 0 < q then posInf else negInf

/-- `x * y`. -/
def mul : PyFloat → PyFloat → PyFloat
  | nan, _ => nan
  | _, nan => nan
  | fin a, fin b => fin (a * b)
  | posInf, posInf => posInf
  | negInf, negInf => posInf
  | posInf, negInf => negInf
  | negInf, posInf => negInf
  | posInf, fin b => infOfSign b
  | fin a, posInf => infOfSign a
  | negInf, fin b => (infOfSign b).neg
  | fin a, negInf => (infOfSign a).neg

/-- `x / y`. Nothing is divided by zero, which raises. -/
def div : PyFloat → PyFloat → PyFloat
  | nan, _ => nan
  | _, nan => nan
  | fin a, fin b => fin (a / b)
  | fin _, _ => fin 0
  | posInf, fin b => infOfSign b
  | negInf, fin b => (infOfSign b).neg
  | _, _ => nan

/-- `sum(xs)`. -/
def sum (xs : List PyFloat) : PyFloat := xs.foldl add (fin 0)

/-- `max` of a value and others: the first of the largest. -/
def maxOf (x : PyFloat) (xs : List PyFloat) : PyFloat :=
  xs.foldl (fun best y => if best.lt y then y else best) x

/-- `min` of a value and others: the first of the smallest. -/
def minOf (x : PyFloat) (xs : List PyFloat) : PyFloat :=
  xs.foldl (fun best y => if y.lt best then y else best) x

/-- `math.isclose(x, y, rel_tol=relTol)`. NaN is close to nothing, an infinity to itself
only. -/
def isClose (x y : PyFloat) (relTol : ℚ) : Bool :=
  match x, y with
  | fin a, fin b => Python.isClose a b relTol
  | posInf, posInf => true
  | negInf, negInf => true
  | _, _ => false

/-- `abs(x)`. -/
def abs : PyFloat → PyFloat
  | nan => nan
  | fin q => fin |q|
  | _ => posInf

/-- `round(x, ndigits)`. -/
def round (x : PyFloat) (ndigits : ℕ) : PyFloat :=
  match x with
  | fin q => fin (pyRound q ndigits)
  | x => x

@[simp] theorem lt_nan (x : PyFloat) : x.lt nan = false := by
  cases x <;> rfl

@[simp] theorem le_nan (x : PyFloat) : x.le nan = false := by
  cases x <;> rfl

end PyFloat

/-! ## §2 Values -/

/-- A Python value. -/
inductive PyValue where
  | none
  | bool (b : Bool)
  | num (x : PyFloat)
  | str (s : String)
  | list (items : List PyValue)

namespace PyValue

/-- A finite number. -/
abbrev ofRat (q : ℚ) : PyValue := .num (.fin q)

/-- `bool(value)`. -/
def truthy : PyValue → Bool
  | .none => false
  | .bool b => b
  | .num (.fin q) => decide (q ≠ 0)
  | .num _ => true
  | .str s => decide (s ≠ "")
  | .list items => !items.isEmpty

/-- `value or default`. -/
def orElse (value default : PyValue) : PyValue :=
  if value.truthy then value else default

theorem orElse_of_truthy {value : PyValue} (h : value.truthy = true)
    (default : PyValue) : value.orElse default = value := by
  unfold orElse
  rw [if_pos h]

theorem orElse_of_not_truthy {value : PyValue} (h : value.truthy = false)
    (default : PyValue) : value.orElse default = default := by
  unfold orElse
  rw [if_neg (by rw [h]; exact Bool.false_ne_true)]

/-- A finite number is falsy exactly when it is zero. -/
theorem truthy_ofRat (q : ℚ) : (ofRat q).truthy = decide (q ≠ 0) := rfl

/-- A string is falsy exactly when it is empty. -/
theorem truthy_str (s : String) : (PyValue.str s).truthy = decide (s ≠ "") := rfl

/-- Missing: `None` or the float NaN. -/
def isMissing : PyValue → Bool
  | .none => true
  | .num x => x.isNan
  | _ => false

end PyValue

/-! ## §3 `float(text)` -/

namespace FloatText

/-- The digits at the front of a text; a single `_` may stand between two
digits. Returns the digits and what follows them. -/
def digits : List Char → List Char × List Char
  | [] => ([], [])
  | c :: cs =>
      if c.isDigit then
        match cs with
        | '_' :: d :: rest =>
            if d.isDigit then
              let (ds, tail) := digits (d :: rest)
              (c :: ds, tail)
            else ([c], cs)
        | cs =>
            let (ds, tail) := digits cs
            (c :: ds, tail)
      else ([], c :: cs)

/-- The number a digit string denotes. -/
def natOf (ds : List Char) : ℕ :=
  ds.foldl (fun n c => 10 * n + (c.toNat - '0'.toNat)) 0

/-- The optional sign at the front of a text. -/
def sign : List Char → ℤ × List Char
  | '-' :: cs => (-1, cs)
  | '+' :: cs => (1, cs)
  | cs => (1, cs)

/-- `10 ^ e` for an integer exponent. -/
def pow10 (e : ℤ) : ℚ :=
  if 0 ≤ e then 10 ^ e.toNat else 1 / 10 ^ (-e).toNat

/-- The exponent at the end of a number: nothing, or `e` and an integer. -/
def exponent : List Char → Option ℤ
  | [] => some 0
  | c :: cs =>
      if c = 'e' ∨ c = 'E' then
        let (s, cs) := sign cs
        match digits cs with
        | (d :: ds, []) => some (s * (natOf (d :: ds) : ℤ))
        | _ => none
      else none

/-- An unsigned decimal number with an optional fraction and exponent. -/
def unsigned (cs : List Char) : Option ℚ :=
  let (whole, rest) := digits cs
  let (fraction, rest) :=
    match rest with
    | '.' :: rest => digits rest
    | rest => ([], rest)
  if whole = [] ∧ fraction = [] then none
  else
    (exponent rest).map fun e =>
      ((natOf whole : ℚ) + (natOf fraction : ℚ) / 10 ^ fraction.length) * pow10 e

/-- The literals of the values that are not numbers. -/
def special (s : ℤ) (cs : List Char) : Option PyFloat :=
  let word := String.ofList (cs.map Char.toLower)
  if word = "nan" then some .nan
  else if word = "inf" ∨ word = "infinity" then
    some (if s = 1 then .posInf else .negInf)
  else none

end FloatText

/-- `float(text)`; `none` is its `ValueError`. -/
def floatOfText (text : String) : Option PyFloat :=
  let (s, cs) := FloatText.sign (strip text.toList)
  match FloatText.special s cs with
  | some x => some x
  | none => (FloatText.unsigned cs).map fun q => .fin (s * q)

/-- `float(value)`. -/
def PyValue.toFloat : PyValue → Except PyError PyFloat
  | .num x => .ok x
  | .bool b => .ok (.fin (if b then 1 else 0))
  | .str s =>
      match floatOfText s with
      | some x => .ok x
      | Option.none => .error (.valueError
          { template := "could not convert string to float: %", args := [.text s] })
  | .none => .error (.typeError
      { template := "float() argument must be a string or a real number, not 'NoneType'" })
  | .list _ => .error (.typeError
      { template := "float() argument must be a string or a real number, not 'list'" })

/-- `int(value)`: numbers are truncated towards zero. -/
def PyValue.toInt : PyValue → Except PyError ℤ
  | .num (.fin q) => .ok (if 0 ≤ q then ⌊q⌋ else ⌈q⌉)
  | .num _ => .error (.valueError { template := "cannot convert float to integer" })
  | .bool b => .ok (if b then 1 else 0)
  | .str s =>
      let (sgn, cs) := FloatText.sign (strip s.toList)
      match FloatText.digits cs with
      | (d :: ds, []) => .ok (sgn * (FloatText.natOf (d :: ds) : ℤ))
      | _ => .error (.valueError
          { template := "invalid literal for int() with base 10: %", args := [.text s] })
  | .none => .error (.typeError { template := "int() argument must not be 'NoneType'" })
  | .list _ => .error (.typeError { template := "int() argument must not be 'list'" })

/-- `str(value)`. Numbers and lists are not printed: what they print as is no
word that the code compares with. -/
def PyValue.toStr : PyValue → String
  | .str s => s
  | .bool b => if b then "True" else "False"
  | .none => "None"
  | .num _ => "<number>"
  | .list _ => "<list>"

@[simp] theorem PyValue.toFloat_ofRat (q : ℚ) : (ofRat q).toFloat = .ok (.fin q) := rfl

/-! ## §4 Keyword arguments -/

/-- A `**params` dictionary. -/
abbrev Kwargs := List (String × PyValue)

/-- `params.pop(name, default)`. The callers pop each name once and never
look at what is left, so the dictionary itself is not changed. -/
def Kwargs.pop (params : Kwargs) (name : String) (default : PyValue) : PyValue :=
  (params.lookup name).getD default

end Lib.Python
