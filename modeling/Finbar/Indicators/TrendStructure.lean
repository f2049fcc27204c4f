/-
Finbar.Indicators.TrendStructure — swing points and the Dow patterns of
`trend_structure.py`.

A swing is marked at the bar that confirms it, `n` bars after its pivot. The two
patterns are one loop (`patternOf`) that compares the latest two confirmed swings;
they differ in the comparison.

No `sorry`, no `axiom`.
-/
import Mathlib.Data.List.Induction
import Mathlib.Data.Rat.Defs
import Mathlib.Algebra.Order.Ring.Rat

namespace Finbar.Indicators

/-! ## §1 Swings -/

/-- `prices.iloc[start:stop]`. -/
def slice (prices : List ℚ) (start stop : ℕ) : List ℚ :=
  (prices.take stop).drop start

/-- `val > side.max()`; without prices the maximum is NaN. -/
def aboveAll (val : ℚ) (side : List ℚ) : Bool :=
  !side.isEmpty && side.all fun price => decide (price < val)

/-- `val < side.min()`. -/
def belowAll (val : ℚ) (side : List ℚ) : Bool :=
  !side.isEmpty && side.all fun price => decide (val < price)

/-- The loop over the pivots `n .. length - n - 1`: each one found is marked `n` bars
later. -/
def markConfirmed (length n : ℕ) (isPivot : ℕ → Bool) : List Bool :=
  (List.range' n (length - n - n)).foldl
    (fun result i =>
      if isPivot i then
        if i + n < length then result.set (i + n) true else result
      else result)
    (List.replicate length false)

/-- A price that `exceeds` the `n` prices on each side of it. -/
def isPivot (exceeds : ℚ → List ℚ → Bool) (prices : List ℚ) (n i : ℕ) : Bool :=
  exceeds (prices.getD i 0) (slice prices (i - n) i) &&
    exceeds (prices.getD i 0) (slice prices (i + 1) (i + n + 1))

/-- `swing_high_n`. -/
def swingHighN (high : List ℚ) (n : ℕ) : List Bool :=
  markConfirmed high.length n (isPivot aboveAll high n)

/-- `swing_low_n`. -/
def swingLowN (low : List ℚ) (n : ℕ) : List Bool :=
  markConfirmed low.length n (isPivot belowAll low n)

/-! ## §2 Patterns -/

/-- `prices.iloc[i - lookback : i + 1][swings.iloc[i - lookback : i + 1]]`. -/
def recentPrices (prices : List ℚ) (swings : List Bool) (lookback i : ℕ) : List ℚ :=
  (((prices.zip swings).take (i + 1)).drop (i - lookback)).filterMap fun row =>
    if row.2 then some row.1 else none

/-- `xs.iloc[-1]` and `xs.iloc[-2]`, if there are so many. -/
def latestTwo {α : Type} (xs : List α) : Option (α × α) :=
  match xs.reverse with
  | latest :: prior :: _ => some (latest, prior)
  | _ => none

/-- `max(3, lookback // 4)`. -/
def swingWindow (lookback : ℕ) : ℕ := max 3 (lookback / 4)

/-- Whether the latest two swings of a bar's window advance on both sides. -/
def patternAt (advances : ℚ → ℚ → Bool) (high low : List ℚ) (lookback i : ℕ) : Bool :=
  let sh := swingHighN high (swingWindow lookback)
  let sl := swingLowN low (swingWindow lookback)
  match latestTwo (recentPrices high sh lookback i), latestTwo (recentPrices low sl lookback i) with
  | some (latestHigh, priorHigh), some (latestLow, priorLow) =>
      advances latestHigh priorHigh && advances latestLow priorLow
  | _, _ => false

/-- The loop over the bars from `lookback` on. -/
def patternOf (advances : ℚ → ℚ → Bool) (high low : List ℚ) (lookback : ℕ) : List Bool :=
  (List.range high.length).map fun i =>
    decide (lookback ≤ i) && patternAt advances high low lookback i

/-- `hh_hl_pattern`. -/
def hhHlPattern (high low : List ℚ) (lookback : ℕ) : List Bool :=
  patternOf (fun latest prior => decide (prior < latest)) high low lookback

/-- `lh_ll_pattern`. -/
def lhLlPattern (high low : List ℚ) (lookback : ℕ) : List Bool :=
  patternOf (fun latest prior => decide (latest < prior)) high low lookback

end Finbar.Indicators
