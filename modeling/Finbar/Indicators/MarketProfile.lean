/-
Finbar.Indicators.MarketProfile — the market profile of a session
(`market_profile.py`): TPO counts by price bucket, point of control and value area.

The bar interval that `_detect_bar_minutes` finds in the index is the parameter
`minutes`. Counts are natural numbers; the expansion of the value area takes them as
floats, in exact arithmetic.

No `sorry`, no `axiom`.
-/
import Finbar.Streaming.VolumeProfile
import Mathlib.Algebra.Order.Floor.Ring
import Mathlib.Data.Rat.Floor

namespace Finbar.Indicators

open Finbar.Streaming

/-! ## §1 TPO periods -/

/-- `_TPO_BARS_PER_PERIOD`: how many bars of an interval make one TPO period. -/
def tpoBarsPerPeriod : List (ℤ × ℕ) := [(5, 6), (15, 2), (30, 1)]

/-- `_get_tpo_bars_per_period`; 0 means that a bar is split into two periods. -/
def getTpoBarsPerPeriod (minutes : ℤ) : ℕ :=
  match tpoBarsPerPeriod.find? fun entry => decide (|minutes - entry.1| < 2) with
  | some entry => entry.2
  | none => if 55 ≤ minutes then 0 else 2

/-- How often the loop counts a bar. -/
def periodsPerBar (minutes : ℤ) : ℕ :=
  if getTpoBarsPerPeriod minutes = 0 then 2 else 1

/-- `_count_tpos_for_bar`: 1 for each bucket that the bar's range touches. -/
def countTposForBar (bar : StreamBar) (grid : Grid) : List ℕ :=
  let halfBucket := grid.bucketSize / 2
  grid.prices.map fun price =>
    if bar.low ≤ price + halfBucket ∧ price - halfBucket ≤ bar.high then 1 else 0

/-! ## §2 Counting -/

/-- The profile and the number of periods counted. -/
structure TpoCount where
  tpoProfile : List ℕ
  totalTpos : ℕ

/-- One period of a bar. -/
def TpoCount.add (grid : Grid) (count : TpoCount) (bar : StreamBar) : TpoCount where
  tpoProfile := List.zipWith (· + ·) count.tpoProfile (countTposForBar bar grid)
  totalTpos := count.totalTpos + 1

/-- The loop over the bars, each counted for its periods. -/
def countTpos (grid : Grid) (minutes : ℤ) (bars : List StreamBar) : TpoCount :=
  (bars.flatMap fun bar => List.replicate (periodsPerBar minutes) bar).foldl (TpoCount.add grid)
    ⟨List.replicate grid.prices.length 0, 0⟩

/-! ## §3 The profile of a session -/

/-- `MarketProfileResult`. -/
structure MarketProfileResult where
  poc : ℚ
  vah : ℚ
  val : ℚ
  totalTpos : ℕ
  valueAreaTpos : ℤ
  bucketSize : ℚ
  numBuckets : ℕ
  /-- TPO counts by price, for the buckets that have some. -/
  profile : List (ℚ × ℕ) := []

/-- The counts as floats. -/
def asFloats (counts : List ℕ) : List ℚ := counts.map fun (count : ℕ) => (count : ℚ)

/-- `compute_session_market_profile`. -/
def computeSessionMarketProfile (sessionBars : List StreamBar) (minutes : ℤ)
    (numBuckets : ℕ) : MarketProfileResult :=
  match sessionBars.getLast? with
  | none =>
      { poc := 0, vah := 0, val := 0, totalTpos := 0, valueAreaTpos := 0, bucketSize := 0,
        numBuckets := numBuckets }
  | some last =>
      let high := sessionHigh sessionBars
      let low := sessionLow sessionBars
      if high ≤ low then
        { poc := high, vah := high, val := low, totalTpos := 0, valueAreaTpos := 0,
          bucketSize := 0, numBuckets := numBuckets }
      else
        let grid := sessionBucketGrid high low numBuckets
        let count := countTpos grid minutes sessionBars
        if count.totalTpos = 0 then
          { poc := last.close, vah := high, val := low, totalTpos := 0, valueAreaTpos := 0,
            bucketSize := grid.bucketSize, numBuckets := numBuckets }
        else
          let profile := asFloats count.tpoProfile
          let pocIdx := argmax profile
          let (lowerIdx, upperIdx, accumulated) :=
            expandValueArea profile pocIdx (count.totalTpos : ℚ)
          { poc := grid.prices.getD pocIdx 0
            vah := grid.prices.getD upperIdx 0 + grid.bucketSize / 2
            val := grid.prices.getD lowerIdx 0 - grid.bucketSize / 2
            totalTpos := count.totalTpos
            valueAreaTpos := ⌊accumulated⌋
            bucketSize := grid.bucketSize
            numBuckets := numBuckets
            profile := (grid.prices.zip count.tpoProfile).filter fun bucket => 0 < bucket.2 }

/-! ## §4 What a result says -/

/-- All TPOs counted in the profile. -/
def MarketProfileResult.countedTpos (result : MarketProfileResult) : ℕ :=
  (result.profile.map Prod.snd).sum

/-- The TPOs of the buckets between `val` and `vah`. -/
def MarketProfileResult.tposBetween (result : MarketProfileResult) : ℕ :=
  ((result.profile.filter fun bucket =>
    decide (result.val ≤ bucket.1 ∧ bucket.1 ≤ result.vah)).map Prod.snd).sum

/-- Every bucket of the profile lies between `val` and `vah`. -/
def MarketProfileResult.SpansProfile (result : MarketProfileResult) : Prop :=
  ∀ bucket ∈ result.profile, result.val ≤ bucket.1 ∧ bucket.1 ≤ result.vah

/-- The value area holds the point of control and 68% of the profile, or all of it, and
is no more than the total. -/
structure MarketProfileResult.Sound (result : MarketProfileResult) : Prop where
  poc : result.val ≤ result.poc ∧ result.poc ≤ result.vah
  share : (68 / 100 : ℚ) * result.countedTpos ≤ result.tposBetween ∨ result.SpansProfile
  total : result.valueAreaTpos ≤ result.totalTpos

end Finbar.Indicators
