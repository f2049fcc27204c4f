/-
Finbar.Indicators.SmcPriceAction — the price-action columns of
`smc_price_action.py`: gaps, order blocks, breaker blocks, sweeps and breaks of
structure.

The mirror-image functions are one definition with parameters. `bos` and `choch` are
one loop that remembers the swing it fired for last (`Lib.Latch`); they differ in the
swing that is in force and in the side it is broken on.

No `sorry`, no `axiom`.
-/
import Finbar.Indicators.TrendStructure
import Finbar.Lib.Latch
import Finbar.Lib.Series
import Mathlib.Algebra.Order.Field.Rat

namespace Finbar.Indicators

open Lib.Series

/-! ## §1 Cells -/

/-- `prices.iloc[i]`: a negative position counts from the end. -/
def iloc (prices : List ℚ) (i : ℤ) : ℚ :=
  prices.getD (if i < 0 then i + prices.length else i).toNat 0

/-- `close.diff().abs().rolling(lookback).mean().iloc[i]`, in a row with `lookback` moves up to
it; without a window there is no mean. -/
def averageMove (close : List ℚ) (lookback i : ℕ) : Option ℚ :=
  if lookback = 0 then none
  else
    some (((List.range' (i + 1 - lookback) lookback).map fun j =>
      |close.getD j 0 - close.getD (j - 1) 0|).sum / lookback)

/-! ## §2 Gaps and blocks -/

/-- `bullish_fvg`. -/
def bullishFvg (high low : List ℚ) : List Bool :=
  flagFrom 2 high.length fun i => decide (high.getD (i - 2) 0 < low.getD i 0)

/-- `bearish_fvg`. -/
def bearishFvg (high low : List ℚ) : List Bool :=
  flagFrom 2 high.length fun i => decide (high.getD i 0 < low.getD (i - 2) 0)

/-- A move of twice the average, after a bar that closed the other way. -/
def orderBlock (impulse : ℚ → ℚ → ℚ) (turns : ℚ → ℚ → Bool) (close : List ℚ) (lookback : ℕ) :
    List Bool :=
  flagFrom (lookback + 1) close.length fun i =>
    match averageMove close lookback i with
    | none => false
    | some avgMove =>
        decide (avgMove * 2 < impulse (close.getD i 0) (close.getD (i - 1) 0)) &&
          turns (close.getD (i - 1) 0) (close.getD (i - 2) 0)

/-- `bullish_order_block`. -/
def bullishOrderBlock (close : List ℚ) (lookback : ℕ) : List Bool :=
  orderBlock (fun now before => now - before) (fun last prior => decide (last < prior)) close
    lookback

/-- `bearish_order_block`. -/
def bearishOrderBlock (close : List ℚ) (lookback : ℕ) : List Bool :=
  orderBlock (fun now before => -(now - before)) (fun last prior => decide (prior < last)) close
    lookback

/-- A bar that closed one way, and a close beyond its far side two bars later. -/
def breakerBlock (turns breaks : ℚ → ℚ → Bool) (side close : List ℚ) (lookback : ℕ) :
    List Bool :=
  flagFrom (lookback + 2) close.length fun i =>
    -- in the first row of a lookback of 0 the bar before the block is the last of the frame
    turns (close.getD (i - 2) 0) (iloc close ((i : ℤ) - 2 - 1)) &&
      breaks (close.getD i 0) (side.getD (i - 2) 0)

/-- `breaker_block_bullish`. -/
def breakerBlockBullish (high close : List ℚ) (lookback : ℕ) : List Bool :=
  breakerBlock (fun block before => decide (block < before))
    (fun now side => decide (side < now)) high close lookback

/-- `breaker_block_bearish`. -/
def breakerBlockBearish (low close : List ℚ) (lookback : ℕ) : List Bool :=
  breakerBlock (fun block before => decide (before < block))
    (fun now side => decide (now < side)) low close lookback

/-! ## §3 Sweeps -/

/-- A bar beyond the extreme of the bars before it, and a close back inside. -/
def sweep (extreme : List ℚ → Option ℚ) (outside inside : ℚ → ℚ → Bool)
    (prices close : List ℚ) (lookback : ℕ) : List Bool :=
  flagFrom (lookback + 2) prices.length fun i =>
    match extreme (slice prices (i - lookback) (i - 1)) with
    | none => false
    | some level => outside (prices.getD (i - 1) 0) level && inside (close.getD i 0) level

/-- `liquidity_sweep_high`. -/
def liquiditySweepHigh (high close : List ℚ) (lookback : ℕ) : List Bool :=
  sweep List.max? (fun price prevHigh => decide (prevHigh < price))
    (fun price prevHigh => decide (price < prevHigh)) high close lookback

/-- `liquidity_sweep_low`. -/
def liquiditySweepLow (low close : List ℚ) (lookback : ℕ) : List Bool :=
  sweep List.min? (fun price prevLow => decide (price < prevLow))
    (fun price prevLow => decide (prevLow < price)) low close lookback

/-! ## §4 Breaks of structure -/

/-- `_find_swings`: the swing highs and the swing lows. -/
def findSwings (high low : List ℚ) (window : ℕ) : List ℕ × List ℕ :=
  let n := min high.length low.length
  (List.range' window (n - window - window)).foldl
    (fun found i =>
      (if isPivot aboveAll high window i then found.1 ++ [i] else found.1,
        if isPivot belowAll low window i then found.2 ++ [i] else found.2))
    ([], [])

/-- `[s for s in swings if s + window <= i]`. -/
def confirmedBy (swings : List ℕ) (window i : ℕ) : List ℕ :=
  swings.filter fun s => decide (s + window ≤ i)

/-- `bos`. -/
def bos (high low : List ℚ) (window : ℕ) : List Bool :=
  let sh := (findSwings high low window).1
  Lib.Latch.firstBreaks (fun i => (confirmedBy sh window i).getLast?)
    (fun i recentSh => decide (high.getD recentSh 0 < high.getD i 0)) (window * 2) high.length

/-- `choch`. -/
def choch (high low : List ℚ) (window : ℕ) : List Bool :=
  let (sh, sl) := findSwings high low window
  Lib.Latch.firstBreaks
    (fun i =>
      if (confirmedBy sh window i).length < 2 ∨ (confirmedBy sl window i).length < 1 then none
      else (confirmedBy sl window i).getLast?)
    (fun i recentSl => decide (low.getD i 0 < low.getD recentSl 0)) (window * 2) high.length

end Finbar.Indicators
