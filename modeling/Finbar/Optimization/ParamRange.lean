/-
Finbar.Optimization.ParamRange — the values of a parameter range and the
combinations that grid search and random search try.

`ParamRange.values` is the `while` loop of the source. Each run of
`random.randint` is given by a choice: the draws of an attempt are a function
from the place of a parameter to its choice, and the attempts are numbered.
Values are in exact arithmetic.

No `sorry`, no `axiom`.
-/
import Finbar.Lib.Distinct
import Finbar.Lib.Product
import Finbar.Lib.Python
import Finbar.Lib.While
import Mathlib.Data.Rat.Floor

namespace Finbar.Optimization

open Lib Lib.Python

/-! ## §1 Ranges -/

/-- `ParamRange`: the minimum and the maximum are inclusive. -/
structure ParamRange where
  min : ℚ
  max : ℚ
  step : ℚ
  deriving DecidableEq

namespace ParamRange

/-- One pass of the loop of `values`, on `current` and `result`. -/
def valuesStep (r : ParamRange) : ℚ × List ℚ → Option (ℚ × List ℚ)
  | (current, result) =>
      if current ≤ r.max + r.step * (1 / 1000) then
        some (current + r.step, result ++ [current])
      else none

/-- A bound on the passes of `values`. -/
def passes (r : ParamRange) : ℕ := ⌊(r.max - r.min) / r.step⌋₊ + 2

/-- `ParamRange.values()`. -/
def values (r : ParamRange) : List ℚ :=
  if r.step ≤ 0 then
    if r.min ≤ r.max then [r.min] else []
  else (While.run r.valuesStep r.passes (r.min, [])).2

/-- `random.randint(0, high)`. -/
def randint (choice high : ℕ) : ℕ := choice % (high + 1)

/-- `ParamRange.random_values(n)`, for `n` choices. -/
def randomValues (r : ParamRange) (choices : List ℕ) : List ℚ :=
  if r.step ≤ 0 then
    if r.min ≤ r.max then choices.map fun _ => r.min else []
  else
    let maxSteps := ⌊(r.max - r.min) / r.step⌋
    if maxSteps < 0 then []
    else choices.map fun choice => r.min + randint choice maxSteps.toNat * r.step

/-- `_range_count(rng)`. -/
def rangeCount (r : ParamRange) : ℕ :=
  if r.step ≤ 0 then
    if r.min ≤ r.max then 1 else 0
  else if r.max < r.min then 0
  else (⌊(r.max - r.min) / r.step⌋ + 1).toNat

end ParamRange

/-! ## §2 Combinations -/

/-- A parameter value, an `int` or a `float`. -/
inductive ParamValue where
  | int (n : ℤ)
  | float (q : ℚ)
  deriving DecidableEq

/-- The number that decides whether two values are equal. -/
def ParamValue.number : ParamValue → ℚ
  | .int n => n
  | .float q => q

/-- `int(value)` when the step and the value are integral, else the value. -/
def normalised (step value : ℚ) : ParamValue :=
  if step = truncate step ∧ value = truncate value then .int (truncate value) else .float value

/-- A combination: the names in the order of the ranges. -/
abbrev Params := List (String × ParamValue)

/-- `tuple(params[name] for name in names)`. -/
def Params.key (params : Params) : List ℚ := params.map fun p => p.2.number

variable (ranges : List (String × ParamRange))

/-- The combination of one value for each name. -/
def paramsOf (combo : List ℚ) : Params :=
  List.zipWith (fun r value => (r.1, normalised r.2.step value)) ranges combo

/-- `_generate_combinations(ranges)`. -/
def generateCombinations : List Params :=
  if ranges = [] then [[]]
  else (product (ranges.map fun r => r.2.values)).map (paramsOf ranges)

/-- The draws of one attempt, one for each parameter. None when a range has no
value. -/
def drawParams : List (String × ParamRange) → (ℕ → ℕ) → Option Params
  | [], _ => some []
  | (name, rng) :: ranges, choices =>
      match rng.randomValues [choices 0] with
      | [] => none
      | value :: _ => do
          let params ← drawParams ranges fun i => choices (i + 1)
          some ((name, normalised rng.step value) :: params)

/-- `_MAX_COMBINATIONS`. -/
def maxCombinations : ℕ := 100

/-- The loop over attempts. An error is the early `return combinations`. -/
def sampleLoop (target : ℕ) :
    ℕ → (ℕ → ℕ → ℕ) → Distinct Params.key → Except (Distinct Params.key) (Distinct Params.key)
  | 0, _, sample => .ok sample
  | attempts + 1, choices, sample =>
      if sample.items.length < target then
        match drawParams ranges (choices 0) with
        | none => .error sample
        | some params =>
            sampleLoop target attempts (fun i => choices (i + 1)) (sample.offer params)
      else .ok sample

/-- `_generate_random_combinations(ranges, count)`. -/
def generateRandomCombinations (count : ℕ) (choices : ℕ → ℕ → ℕ) : List Params :=
  if ranges = [] then [[]]
  else
    let maxUnique := (ranges.map fun r => r.2.rangeCount).prod
    if maxUnique = 0 then []
    else
      let target := min count (min maxCombinations maxUnique)
      match sampleLoop ranges target (max 100 (target * 20)) choices (Distinct.empty _) with
      | .error sample => sample.items
      | .ok sample =>
          if sample.items.length < target ∧ maxUnique ≤ maxCombinations then
            (sample.fillUp target (generateCombinations ranges)).items
          else sample.items

end Finbar.Optimization
