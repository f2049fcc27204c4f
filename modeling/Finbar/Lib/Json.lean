/-
Finbar.Lib.Json — JSON documents as `json.loads` returns them.

An object keeps its entries in order and is looked up by `lookup`; integers
and floats are told apart, as `isinstance` does.

No `sorry`, no `axiom`.
-/
import Finbar.Lib.Entries
import Finbar.Lib.PyValue

namespace Lib

open Lib.Python

/-- A JSON value. -/
inductive Json where
  | null
  | bool (b : Bool)
  | int (n : ℤ)
  | float (x : PyFloat)
  | str (s : String)
  | list (items : List Json)
  | dict (entries : List (String × Json))

namespace Json

/-- `entries.get(key, default)`. -/
def getD (entries : List (String × Json)) (key : String) (default : Json) : Json :=
  (entries.lookup key).getD default

/-- `entries.get(key)`. -/
def get (entries : List (String × Json)) (key : String) : Json :=
  getD entries key .null

/-- `bool(value)`. -/
def truthy : Json → Bool
  | null => false
  | bool b => b
  | int n => decide (n ≠ 0)
  | float x => decide (x ≠ .fin 0)
  | str s => decide (s ≠ "")
  | list items => !items.isEmpty
  | dict entries => !entries.isEmpty

/-- `value or default`. -/
def orElse (value default : Json) : Json :=
  if value.truthy then value else default

/-- `value is None`. -/
def isNull : Json → Bool
  | null => true
  | _ => false

/-- `isinstance(value, bool)`. -/
def isBool : Json → Bool
  | bool _ => true
  | _ => false

/-- `isinstance(value, int)`: a bool is an int. -/
def isInt : Json → Bool
  | bool _ => true
  | int _ => true
  | _ => false

/-- `isinstance(value, (int, float))`. -/
def isNumber : Json → Bool
  | bool _ => true
  | int _ => true
  | float _ => true
  | _ => false

/-- `isinstance(value, list)`. -/
def isList : Json → Bool
  | list _ => true
  | _ => false

/-- `isinstance(value, str)`. -/
def isStr : Json → Bool
  | str _ => true
  | _ => false

/-- `value in (None, {})`. -/
def isNullOrEmptyDict : Json → Bool
  | null => true
  | dict [] => true
  | _ => false

/-- `value in (None, [])`. -/
def isNullOrEmptyList : Json → Bool
  | null => true
  | list [] => true
  | _ => false

/-- `value in (None, "")`. -/
def isNullOrEmptyStr : Json → Bool
  | null => true
  | str s => decide (s = "")
  | _ => false

/-- `float(value)`; `none` is its `TypeError` or `ValueError`. -/
def toFloat : Json → Option PyFloat
  | bool b => some (.fin (if b then 1 else 0))
  | int n => some (.fin n)
  | float x => some x
  | str s => floatOfText s
  | _ => none

mutual

/-- The value as the evaluator reads it, without the difference between
integers and floats. An object is no value there. -/
def toValue : Json → PyValue
  | null => .none
  | bool b => .bool b
  | int n => .ofRat n
  | float x => .num x
  | str s => .str s
  | list items => .list (toValues items)
  | dict _ => .none

/-- The values of a list. -/
def toValues : List Json → List PyValue
  | [] => []
  | item :: items => toValue item :: toValues items

end

/-- `str(value)`, where `strOf` prints floats, lists and objects. -/
def toStr (strOf : Json → String) : Json → String
  | null => "None"
  | bool b => if b then "True" else "False"
  | int n => toString n
  | str s => s
  | value => strOf value

/-- A value without parts. -/
def isScalar : Json → Bool
  | list _ => false
  | dict _ => false
  | _ => true

/-- What iterating over a value yields: the items of a list, the characters of
a string, the keys of an object; `none` is the `TypeError`. -/
def iterate : Json → Option (List Json)
  | list items => some items
  | str s => some (s.toList.map fun c => .str (String.singleton c))
  | dict entries => some (entries.map fun entry => .str entry.1)
  | _ => none

@[simp] theorem toStr_str (strOf : Json → String) (s : String) : (str s).toStr strOf = s :=
  rfl

/-- Induction on documents: the values of an object, the items of a list. -/
@[elab_as_elim] theorem induction {motive : Json → Prop}
    (scalar : ∀ value, value.isScalar = true → motive value)
    (list : ∀ items, (∀ item ∈ items, motive item) → motive (.list items))
    (dict : ∀ entries, (∀ entry ∈ entries, motive entry.2) → motive (.dict entries))
    (value : Json) : motive value := by
  refine @Json.rec motive (fun items => ∀ item ∈ items, motive item)
    (fun entries => ∀ entry ∈ entries, motive entry.2) (fun entry => motive entry.2)
    ?_ ?_ ?_ ?_ ?_ list dict ?_ ?_ ?_ ?_ ?_ value
  · exact scalar .null rfl
  · exact fun b => scalar (.bool b) rfl
  · exact fun n => scalar (.int n) rfl
  · exact fun x => scalar (.float x) rfl
  · exact fun s => scalar (.str s) rfl
  · simp
  · exact fun _ _ hitem hitems => List.forall_mem_cons.mpr ⟨hitem, hitems⟩
  · simp
  · exact fun _ _ hentry hentries => List.forall_mem_cons.mpr ⟨hentry, hentries⟩
  · exact fun _ _ hvalue => hvalue

/-! ## Equality -/

mutual

/-- Equality of documents, as a test. -/
def same : Json → Json → Bool
  | null, null => true
  | bool a, bool b => a == b
  | int a, int b => a == b
  | float a, float b => decide (a = b)
  | str a, str b => a == b
  | list a, list b => sameItems a b
  | dict a, dict b => sameEntries a b
  | _, _ => false

def sameItems : List Json → List Json → Bool
  | [], [] => true
  | a :: as, b :: bs => same a b && sameItems as bs
  | _, _ => false

def sameEntries : List (String × Json) → List (String × Json) → Bool
  | [], [] => true
  | (k, a) :: as, (l, b) :: bs => k == l && same a b && sameEntries as bs
  | _, _ => false

end

mutual

theorem same_iff : ∀ a b : Json, same a b = true ↔ a = b
  | null, b => by cases b <;> simp [same]
  | bool _, b => by cases b <;> simp [same]
  | int _, b => by cases b <;> simp [same]
  | float _, b => by cases b <;> simp [same]
  | str _, b => by cases b <;> simp [same]
  | list as, b => by cases b <;> simp [same, sameItems_iff as]
  | dict as, b => by cases b <;> simp [same, sameEntries_iff as]

theorem sameItems_iff : ∀ as bs : List Json, sameItems as bs = true ↔ as = bs
  | [], bs => by cases bs <;> simp [sameItems]
  | a :: as, bs => by cases bs <;> simp [sameItems, same_iff a, sameItems_iff as]

theorem sameEntries_iff : ∀ as bs : List (String × Json), sameEntries as bs = true ↔ as = bs
  | [], bs => by cases bs <;> simp [sameEntries]
  | (k, a) :: as, bs => by
      cases bs <;> simp [sameEntries, same_iff a, sameEntries_iff as, Prod.ext_iff]

end

instance : DecidableEq Json := fun a b => decidable_of_iff _ (same_iff a b)

end Json

end Lib
