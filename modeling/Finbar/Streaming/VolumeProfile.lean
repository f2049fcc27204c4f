/-
Finbar.Streaming.VolumeProfile — streaming bars and the session volume
profile (`volume_profile.py`, `_profile_utils.py`).

How one bar's volume spreads over the price buckets, `_distribute_bar_volume`,
is the parameter `distribute` of what follows: an arbitrary function of the
bar and the grid. All arithmetic is exact.

No `sorry`, no `axiom`.
-/
import Finbar.Lib.PyValue
import Mathlib.Data.List.Induction
import Mathlib.Tactic.Linarith

namespace Finbar.Streaming

open Lib.Python

/-! ## §1 Bars -/

/-- An OHLCV bar as the streaming indicators read it; `timestamp` is `none` if
the bar has no such key. -/
structure StreamBar where
  openPrice : ℚ
  high : ℚ
  low : ℚ
  close : ℚ
  volume : ℚ
  timestamp : Option PyValue := none
  /-- The bar's other columns. -/
  extra : List (String × PyValue) := []

/-! ## §2 The grid -/

/-- A price-bucket grid: the centre of each bucket, and their width. -/
structure Grid where
  prices : List ℚ
  bucketSize : ℚ
  deriving DecidableEq

/-- `np.linspace(start, stop, num)`. -/
def linspace (start stop : ℚ) (num : ℕ) : List ℚ :=
  (List.range num).map fun (i : ℕ) => start + (i : ℚ) * ((stop - start) / ((num : ℚ) - 1))

/-- `_session_bucket_grid`: the grid of a session, with a 2% buffer. -/
def sessionBucketGrid (sessionHigh sessionLow : ℚ) (numBuckets : ℕ) : Grid :=
  let buffer := (sessionHigh - sessionLow) * (2 / 100)
  let priceMin := sessionLow - buffer
  let priceMax := sessionHigh + buffer
  let bucketSize := (priceMax - priceMin) / numBuckets
  { prices := linspace (priceMin + bucketSize / 2) (priceMax - bucketSize / 2) numBuckets
    bucketSize := bucketSize }

/-- Buckets have a width exactly when the session has a range. -/
theorem sessionBucketGrid_pos_iff (high low : ℚ) {n : ℕ} (hn : 0 < n) :
    0 < (sessionBucketGrid high low n).bucketSize ↔ low < high := by
  have hn' : (0 : ℚ) < n := Nat.cast_pos.mpr hn
  have hsize : (sessionBucketGrid high low n).bucketSize = (high - low) * (104 / 100) / n := by
    unfold sessionBucketGrid
    simp only
    congr 1
    ring
  rw [hsize, div_pos_iff_of_pos_right hn']
  constructor
  · intro h
    linarith
  · intro h
    linarith

/-! ## §3 Aggregation -/

/-- Volume by bucket, and its total. -/
structure Histogram where
  volumes : List ℚ
  total : ℚ
  deriving DecidableEq

/-- `np.zeros(n)`. -/
def Histogram.zeros (numBuckets : ℕ) : Histogram where
  volumes := List.replicate numBuckets 0
  total := 0

/-- How a bar's volume is spread over a grid. -/
abbrev Distribution := StreamBar → Grid → List ℚ

/-- Spread one bar's volume over the grid and add it. -/
def Histogram.add (distribute : Distribution) (grid : Grid) (h : Histogram)
    (bar : StreamBar) : Histogram :=
  if bar.volume ≤ 0 then h
  else
    { volumes := List.zipWith (· + ·) h.volumes (distribute bar grid)
      total := h.total + bar.volume }

/-- `_aggregate_session_volume`. -/
def aggregateSessionVolume (distribute : Distribution) (bars : List StreamBar)
    (grid : Grid) : Histogram :=
  bars.foldl (Histogram.add distribute grid) (Histogram.zeros grid.prices.length)

theorem aggregateSessionVolume_append (distribute : Distribution) (bars : List StreamBar)
    (bar : StreamBar) (grid : Grid) :
    aggregateSessionVolume distribute (bars ++ [bar]) grid
      = Histogram.add distribute grid (aggregateSessionVolume distribute bars grid) bar := by
  unfold aggregateSessionVolume
  rw [List.foldl_append]
  rfl

/-- Adding a bar adds its volume, if that is positive. -/
theorem Histogram.add_total (distribute : Distribution) (grid : Grid) (h : Histogram)
    (bar : StreamBar) : (h.add distribute grid bar).total = h.total + max bar.volume 0 := by
  unfold Histogram.add
  split
  · rename_i hvolume
    rw [max_eq_right hvolume, add_zero]
  · rename_i hvolume
    rw [max_eq_left (not_le.mp hvolume).le]

/-- The total is positive exactly when some bar has volume. -/
theorem aggregateSessionVolume_total_pos_iff (distribute : Distribution)
    (bars : List StreamBar) (grid : Grid) :
    0 < (aggregateSessionVolume distribute bars grid).total ↔
      ∃ bar ∈ bars, 0 < bar.volume := by
  have hnonneg : ∀ bars, 0 ≤ (aggregateSessionVolume distribute bars grid).total := by
    intro bars
    induction bars using List.reverseRecOn with
    | nil => exact le_refl 0
    | append_singleton bars bar ih =>
        rw [aggregateSessionVolume_append, Histogram.add_total]
        exact add_nonneg ih (le_max_right _ _)
  induction bars using List.reverseRecOn with
  | nil =>
      constructor
      · intro h
        exact absurd h (lt_irrefl 0)
      · rintro ⟨bar, hbar, -⟩
        cases hbar
  | append_singleton bars bar ih =>
      rw [aggregateSessionVolume_append, Histogram.add_total]
      constructor
      · intro h
        by_cases hvolume : 0 < bar.volume
        · exact ⟨bar, List.mem_append_right bars List.mem_cons_self, hvolume⟩
        · rw [max_eq_right (not_lt.mp hvolume), add_zero] at h
          obtain ⟨b, hb, hpos⟩ := ih.mp h
          exact ⟨b, List.mem_append_left [bar] hb, hpos⟩
      · rintro ⟨b, hb, hpos⟩
        rw [List.mem_append, List.mem_singleton] at hb
        rcases hb with hb | rfl
        · have htotal := ih.mpr ⟨b, hb, hpos⟩
          have hmax : (0 : ℚ) ≤ max bar.volume 0 := le_max_right _ _
          linarith
        · have htotal := hnonneg bars
          have hmax : b.volume ≤ max b.volume 0 := le_max_left _ _
          linarith

/-! ## §4 Levels -/

/-- `np.argmax`: the first index of the largest entry. -/
def argmax (xs : List ℚ) : ℕ :=
  (xs.zipIdx.foldl (fun best x => if best.1 < x.1 then x else best) (xs.headD 0, 0)).2

/-- The loop of `expand_value_area`. Each step takes in one more bucket, so
the number of buckets is enough fuel. -/
def expandLoop (profile : List ℚ) (target tol : ℚ) : ℕ → ℕ → ℕ → ℚ → ℕ × ℕ × ℚ
  | 0, lower, upper, accumulated => (lower, upper, accumulated)
  | fuel + 1, lower, upper, accumulated =>
      let last := profile.length - 1
      if accumulated < target ∧ (0 < lower ∨ upper < last) then
        let below := if 0 < lower then profile.getD (lower - 1) 0 else -1
        let above := if upper < last then profile.getD (upper + 1) 0 else -1
        if above + tol < below then
          expandLoop profile target tol fuel (lower - 1) upper
            (accumulated + profile.getD (lower - 1) 0)
        else if upper < last then
          expandLoop profile target tol fuel lower (upper + 1)
            (accumulated + profile.getD (upper + 1) 0)
        else if 0 < lower then
          expandLoop profile target tol fuel (lower - 1) upper
            (accumulated + profile.getD (lower - 1) 0)
        else (lower, upper, accumulated)
      else (lower, upper, accumulated)

/-- `expand_value_area`: the bucket range around `pocIdx` that holds 68% of
the total. -/
def expandValueArea (profile : List ℚ) (pocIdx : ℕ) (total : ℚ) : ℕ × ℕ × ℚ :=
  expandLoop profile (total * (68 / 100)) (max total 0 * (1 / 10 ^ 9)) profile.length
    pocIdx pocIdx (profile.getD pocIdx 0)

/-- `expand_value_area` with a target fraction of its own. -/
def expandValueAreaTo (profile : List ℚ) (pocIdx : ℕ) (total targetFraction : ℚ) :
    ℕ × ℕ × ℚ :=
  expandLoop profile (total * targetFraction) (max total 0 * (1 / 10 ^ 9)) profile.length
    pocIdx pocIdx (profile.getD pocIdx 0)

/-- The levels of a profile. -/
structure VpLevels where
  poc : ℚ
  vah : ℚ
  val : ℚ
  deriving DecidableEq

/-- `VolumeProfileResult`. -/
structure VolumeProfileResult where
  levels : VpLevels
  totalVolume : ℚ
  valueAreaVolume : ℚ
  bucketSize : ℚ
  numBuckets : ℕ
  /-- Volume by price, for the buckets that have some. -/
  profile : List (ℚ × ℚ) := []
  deriving DecidableEq

/-- `_build_volume_profile_result`. -/
def buildVolumeProfileResult (histogram : Histogram) (grid : Grid) (numBuckets : ℕ) :
    VolumeProfileResult :=
  let pocIdx := argmax histogram.volumes
  let (lowerIdx, upperIdx, accumulated) :=
    expandValueArea histogram.volumes pocIdx histogram.total
  { levels :=
      { poc := grid.prices.getD pocIdx 0
        vah := grid.prices.getD upperIdx 0 + grid.bucketSize / 2
        val := grid.prices.getD lowerIdx 0 - grid.bucketSize / 2 }
    totalVolume := histogram.total
    valueAreaVolume := accumulated
    bucketSize := grid.bucketSize
    numBuckets := numBuckets
    profile := (grid.prices.zip histogram.volumes).filter fun bucket => 0 < bucket.2 }

/-- The highest high of a session. -/
def sessionHigh (bars : List StreamBar) : ℚ :=
  ((bars.map StreamBar.high).max?).getD 0

/-- The lowest low of a session. -/
def sessionLow (bars : List StreamBar) : ℚ :=
  ((bars.map StreamBar.low).min?).getD 0

/-- `compute_session_volume_profile`. -/
def computeSessionVolumeProfile (distribute : Distribution) (sessionBars : List StreamBar)
    (numBuckets : ℕ) : VolumeProfileResult :=
  match sessionBars.getLast? with
  | none => { levels := ⟨0, 0, 0⟩, totalVolume := 0, valueAreaVolume := 0, bucketSize := 0,
              numBuckets := numBuckets }
  | some last =>
      let high := sessionHigh sessionBars
      let low := sessionLow sessionBars
      if high ≤ low then
        { levels := ⟨high, high, low⟩, totalVolume := 0, valueAreaVolume := 0,
          bucketSize := 0, numBuckets := numBuckets }
      else
        let grid := sessionBucketGrid high low numBuckets
        let histogram := aggregateSessionVolume distribute sessionBars grid
        if histogram.total ≤ 0 then
          { levels := ⟨last.close, high, low⟩, totalVolume := 0, valueAreaVolume := 0,
            bucketSize := grid.bucketSize, numBuckets := numBuckets }
        else buildVolumeProfileResult histogram grid numBuckets

end Finbar.Streaming
