/-
Finbar.Indicators.RollingProfile — the volume profile of a trailing bar window
(`compute_rolling_window_vp` of `volume_profile.py`).

One grid serves all windows. The running profile gains each bar's distributed
volume and loses that of the bar which leaves the window; both stand in circular
buffers. `recomputedWindowVp` is the plain version, which sums up the window's
bars at every row. The two are the same function
(`computeRollingWindowVp_eq_recomputed`), for any way `distribute` of spreading a
bar's volume over a grid.

No `sorry`, no `axiom`.
-/
import Finbar.Lib.RingBuffer
import Finbar.Streaming.VolumeProfile
import Mathlib.Algebra.BigOperators.Pi
import Mathlib.Algebra.Module.Rat

namespace Finbar.Indicators

open Lib Finbar.Streaming

/-! ## §1 The running profile -/

/-- How a bar's volume is spread over the buckets of a grid. -/
abbrev Spread := StreamBar → (grid : Grid) → Fin grid.prices.length → ℚ

/-- `float(raw_volume) if raw_volume > 0 else 0.0`. -/
def barVolume (bar : StreamBar) : ℚ :=
  if 0 < bar.volume then bar.volume else 0

/-- The bar's distributed volume. -/
def contribution (distribute : Spread) (grid : Grid) (bar : StreamBar) :
    Fin grid.prices.length → ℚ :=
  distribute { bar with volume := barVolume bar } grid

/-- What the loop carries from one row to the next. -/
structure RollingState (numBuckets : ℕ) where
  runningProfile : Fin numBuckets → ℚ
  runningVolume : ℚ
  contribBuffer : List (Fin numBuckets → ℚ)
  volumeBuffer : List ℚ

def RollingState.init (numBuckets windowBars : ℕ) : RollingState numBuckets where
  runningProfile := 0
  runningVolume := 0
  contribBuffer := List.replicate windowBars 0
  volumeBuffer := List.replicate windowBars 0

/-- The update at row `i`. -/
def RollingState.update (distribute : Spread) (grid : Grid) (windowBars i : ℕ)
    (s : RollingState grid.prices.length) (bar : StreamBar) : RollingState grid.prices.length :=
  let volume := barVolume bar
  let contrib := contribution distribute grid bar
  let slot := i % windowBars
  let leavingProfile := if windowBars ≤ i then s.contribBuffer.getD slot 0 else 0
  let leavingVolume := if windowBars ≤ i then s.volumeBuffer.getD slot 0 else 0
  { runningProfile := s.runningProfile - leavingProfile + contrib
    runningVolume := s.runningVolume - leavingVolume + volume
    contribBuffer := s.contribBuffer.set slot contrib
    volumeBuffer := s.volumeBuffer.set slot volume }

/-! ## §2 The levels of a profile -/

/-- `_extract_poc_vah_val`. -/
def extractPocVahVal (grid : Grid) (profile : Fin grid.prices.length → ℚ) (totalVolume : ℚ) :
    Option VpLevels :=
  if totalVolume ≤ 0 then none
  else
    let volumes := List.ofFn profile
    let pocIdx := argmax volumes
    let (lowerIdx, upperIdx, _) := expandValueArea volumes pocIdx totalVolume
    some
      { poc := grid.prices.getD pocIdx 0
        vah := grid.prices.getD upperIdx 0 + grid.bucketSize / 2
        val := grid.prices.getD lowerIdx 0 - grid.bucketSize / 2 }

/-- What row `i` gets: levels once the window is full and holds volume. -/
def RollingState.emit (grid : Grid) (windowBars i : ℕ) (s : RollingState grid.prices.length) :
    Option VpLevels :=
  if windowBars ≤ i + 1 ∧ 0 < s.runningVolume then
    extractPocVahVal grid s.runningProfile s.runningVolume
  else none

/-- The loop over the rows from row `i` on. -/
def rollingRowsFrom (distribute : Spread) (grid : Grid) (windowBars : ℕ) :
    ℕ → RollingState grid.prices.length → List StreamBar → List (Option VpLevels)
  | _, _, [] => []
  | i, s, bar :: rest =>
      let s := s.update distribute grid windowBars i bar
      s.emit grid windowBars i :: rollingRowsFrom distribute grid windowBars (i + 1) s rest

/-- The loop over all rows. -/
def rollingRows (distribute : Spread) (grid : Grid) (windowBars : ℕ) (bars : List StreamBar) :
    List (Option VpLevels) :=
  rollingRowsFrom distribute grid windowBars 0
    (RollingState.init grid.prices.length windowBars) bars

/-! ## §3 The whole frame -/

/-- `_global_bucket_grid`: `none` if the price range is degenerate. The division by
`num_buckets` and `np.linspace` raise when there are no buckets. -/
def globalBucketGrid (bars : List StreamBar) (numBuckets : ℤ) : Except String (Option Grid) :=
  let globalHigh := sessionHigh bars
  let globalLow := sessionLow bars
  if globalHigh ≤ globalLow then .ok none
  else if numBuckets = 0 then .error "float division by zero"
  else if numBuckets < 0 then .error "Number of samples must be non-negative."
  else .ok (some (sessionBucketGrid globalHigh globalLow numBuckets.toNat))

/-- The rows of a frame whose prices are all the same. -/
def flatRows (bars : List StreamBar) (windowBars : ℕ) : List (Option VpLevels) :=
  let flatPrice := (bars.head?.map StreamBar.close).getD 0
  (List.range bars.length).map fun i =>
    if windowBars ≤ i + 1 then some ⟨flatPrice, flatPrice, flatPrice⟩ else none

/-- The frame with the loop over its rows left open. -/
def windowVpWith (rows : Grid → ℕ → List StreamBar → List (Option VpLevels))
    (bars : List StreamBar) (windowBars numBuckets : ℤ) :
    Except String (List (Option VpLevels)) :=
  if (bars.length : ℤ) < windowBars ∨ windowBars < 1 then
    .ok (List.replicate bars.length none)
  else
    match globalBucketGrid bars numBuckets with
    | .error message => .error message
    | .ok none =>
        if 0 < numBuckets then .ok (flatRows bars windowBars.toNat)
        else .ok (List.replicate bars.length none)
    | .ok (some grid) => .ok (rows grid windowBars.toNat bars)

/-- `compute_rolling_window_vp`: the levels of every row, `none` for NaN. -/
def computeRollingWindowVp (distribute : Spread) (bars : List StreamBar)
    (windowBars numBuckets : ℤ) : Except String (List (Option VpLevels)) :=
  windowVpWith (rollingRows distribute) bars windowBars numBuckets

/-! ## §4 Recomputing each window -/

/-- The bars of the window that ends at row `i`; fewer while it fills. -/
def windowAt (bars : List StreamBar) (windowBars i : ℕ) : List StreamBar :=
  (bars.take (i + 1)).rtake windowBars

/-- The bucket sums of some bars. -/
def profileOf (distribute : Spread) (grid : Grid) (window : List StreamBar) :
    Fin grid.prices.length → ℚ :=
  (window.map (contribution distribute grid)).sum

/-- The volume of some bars. -/
def volumeOf (window : List StreamBar) : ℚ :=
  (window.map barVolume).sum

/-- A row, from the profile of its window's bars. -/
def recomputedRow (distribute : Spread) (grid : Grid) (windowBars : ℕ) (bars : List StreamBar)
    (i : ℕ) : Option VpLevels :=
  let window := windowAt bars windowBars i
  if windowBars ≤ i + 1 then
    extractPocVahVal grid (profileOf distribute grid window) (volumeOf window)
  else none

/-- Every row from its own window. -/
def recomputedRows (distribute : Spread) (grid : Grid) (windowBars : ℕ)
    (bars : List StreamBar) : List (Option VpLevels) :=
  (List.range bars.length).map (recomputedRow distribute grid windowBars bars)

/-- The frame with every row recomputed. -/
def recomputedWindowVp (distribute : Spread) (bars : List StreamBar)
    (windowBars numBuckets : ℤ) : Except String (List (Option VpLevels)) :=
  windowVpWith (recomputedRows distribute) bars windowBars numBuckets

/-! ## §5 The state is a pair of circular buffers -/

variable {distribute : Spread} {grid : Grid} {windowBars : ℕ}

/-- The state after a list of bars. -/
def RollingState.after (distribute : Spread) (grid : Grid) (windowBars : ℕ)
    (bars : List StreamBar) : RollingState grid.prices.length :=
  (bars.zipIdx.foldl (fun s row => s.update distribute grid windowBars row.2 row.1)
    (RollingState.init grid.prices.length windowBars))

theorem RollingState.after_concat (bars : List StreamBar) (bar : StreamBar) :
    RollingState.after distribute grid windowBars (bars ++ [bar]) =
      (RollingState.after distribute grid windowBars bars).update distribute grid windowBars
        bars.length bar := by
  unfold after
  rw [List.zipIdx_append, List.foldl_append, Nat.zero_add]
  rfl

/-- The state as two circular buffers that are pushed onto together. -/
structure RollingState.Buffers (windowBars : ℕ) (contribs : List (Fin grid.prices.length → ℚ))
    (volumes : List ℚ) (s : RollingState grid.prices.length) : Prop where
  profile : RingBuffer.Holds windowBars contribs
    ⟨s.contribBuffer, s.runningProfile, contribs.length⟩
  volume : RingBuffer.Holds windowBars volumes
    ⟨s.volumeBuffer, s.runningVolume, volumes.length⟩

/-- One row pushes onto both. -/
theorem RollingState.Buffers.update {contribs : List (Fin grid.prices.length → ℚ)}
    {volumes : List ℚ} {s : RollingState grid.prices.length} (hw : 0 < windowBars)
    (hlength : volumes.length = contribs.length) (h : Buffers windowBars contribs volumes s)
    (bar : StreamBar) :
    Buffers windowBars (contribs ++ [contribution distribute grid bar])
      (volumes ++ [barVolume bar])
      (s.update distribute grid windowBars contribs.length bar) := by
  have hprofile := h.profile.push hw (contribution distribute grid bar)
  have hvolume := h.volume.push hw (barVolume bar)
  have hslots : s.contribBuffer.length = windowBars := h.profile.length
  have hvolumes : s.volumeBuffer.length = windowBars := h.volume.length
  refine ⟨?_, ?_⟩
  · convert hprofile using 1
    simp only [RingBuffer.push, RollingState.update, hslots, List.length_append,
      List.length_singleton]
    split_ifs <;> simp
  · convert hvolume using 1
    simp only [RingBuffer.push, RollingState.update, hvolumes, List.length_append,
      List.length_singleton, hlength]
    split_ifs <;> simp

theorem RollingState.buffers_after (hw : 0 < windowBars) (bars : List StreamBar) :
    Buffers windowBars (bars.map (contribution distribute grid)) (bars.map barVolume)
      (RollingState.after distribute grid windowBars bars) := by
  induction bars using List.reverseRecOn with
  | nil => exact ⟨RingBuffer.Holds.zeros windowBars, RingBuffer.Holds.zeros windowBars⟩
  | append_singleton bars bar ih =>
      rw [List.map_append, List.map_append, List.map_singleton, List.map_singleton,
        RollingState.after_concat]
      have hlength : (bars.map barVolume).length =
          (bars.map (contribution distribute grid)).length := by
        rw [List.length_map, List.length_map]
      rw [← List.length_map (contribution distribute grid)]
      exact ih.update hw hlength bar

/-- **After any bars the running profile and volume are the sums over the latest
`windowBars` of them**, over all of them while there are fewer. -/
theorem RollingState.after_sums (hw : 0 < windowBars) (bars : List StreamBar) :
    (RollingState.after distribute grid windowBars bars).runningProfile =
        profileOf distribute grid (bars.rtake windowBars) ∧
      (RollingState.after distribute grid windowBars bars).runningVolume =
        volumeOf (bars.rtake windowBars) := by
  have h : RollingState.Buffers windowBars (bars.map (contribution distribute grid))
      (bars.map barVolume) (RollingState.after distribute grid windowBars bars) :=
    RollingState.buffers_after hw bars
  constructor
  · rw [profileOf, ← map_rtake]
    exact h.profile.total
  · rw [volumeOf, ← map_rtake]
    exact h.volume.total

/-! ## §6 Rows -/

theorem rollingRowsFrom_eq (seen rest : List StreamBar) :
    rollingRowsFrom distribute grid windowBars seen.length
        (RollingState.after distribute grid windowBars seen) rest =
      (List.range rest.length).map fun j =>
        (RollingState.after distribute grid windowBars (seen ++ rest.take (j + 1))).emit grid
          windowBars (seen.length + j) := by
  induction rest generalizing seen with
  | nil => rfl
  | cons bar rest ih =>
      have hnext := ih (seen ++ [bar])
      rw [List.length_append, List.length_singleton] at hnext
      rw [rollingRowsFrom, ← RollingState.after_concat, hnext, List.length_cons,
        List.range_succ_eq_map, List.map_cons, List.map_map, List.take_succ_cons, List.take_zero,
        Nat.add_zero]
      congr 1
      refine List.map_congr_left fun j _ => ?_
      rw [Function.comp_apply, List.take_succ_cons, List.append_assoc, List.singleton_append,
        Nat.succ_eq_add_one, Nat.add_right_comm seen.length 1 j, Nat.add_assoc]

/-- **A row comes from the state after the bars up to it.** -/
theorem rollingRows_eq (bars : List StreamBar) :
    rollingRows distribute grid windowBars bars =
      (List.range bars.length).map fun i =>
        (RollingState.after distribute grid windowBars (bars.take (i + 1))).emit grid
          windowBars i := by
  show rollingRowsFrom distribute grid windowBars ([] : List StreamBar).length
    (RollingState.after distribute grid windowBars []) bars = _
  rw [rollingRowsFrom_eq]
  simp only [List.nil_append, List.length_nil, Nat.zero_add]

/-- No volume, no levels: the row's own test for volume adds nothing. -/
theorem emit_eq_extract (i : ℕ) (s : RollingState grid.prices.length) :
    s.emit grid windowBars i =
      if windowBars ≤ i + 1 then extractPocVahVal grid s.runningProfile s.runningVolume
      else none := by
  unfold RollingState.emit
  by_cases hfull : windowBars ≤ i + 1
  · by_cases hvolume : 0 < s.runningVolume
    · rw [if_pos ⟨hfull, hvolume⟩, if_pos hfull]
    · rw [if_neg (fun h => hvolume h.2), if_pos hfull, extractPocVahVal,
        if_pos (not_lt.mp hvolume)]
  · rw [if_neg (fun h => hfull h.1), if_neg hfull]

/-- **On one grid, the rows of the running profile are those of recomputing every
window.** -/
theorem rollingRows_eq_recomputedRows (hw : 0 < windowBars) (bars : List StreamBar) :
    rollingRows distribute grid windowBars bars =
      recomputedRows distribute grid windowBars bars := by
  rw [rollingRows_eq, recomputedRows]
  refine List.map_congr_left fun i _ => ?_
  rw [emit_eq_extract, (RollingState.after_sums hw (bars.take (i + 1))).1,
    (RollingState.after_sums hw (bars.take (i + 1))).2]
  rfl

/-- Spreading that gives a bar without volume nothing makes the window's sums those of
`_aggregate_session_volume`. -/
theorem profileOf_eq_aggregate (hspread : ∀ bar, bar.volume = 0 → distribute bar grid = 0)
    (window : List StreamBar) :
    (⟨List.ofFn (profileOf distribute grid window), volumeOf window⟩ : Histogram) =
      aggregateSessionVolume (fun bar grid => List.ofFn (distribute bar grid)) window grid := by
  induction window using List.reverseRecOn with
  | nil =>
      show (⟨List.ofFn fun _ => (0 : ℚ), 0⟩ : Histogram) = Histogram.zeros _
      rw [List.ofFn_const, Histogram.zeros]
  | append_singleton window bar ih =>
      have hprofile : profileOf distribute grid (window ++ [bar]) =
          profileOf distribute grid window + contribution distribute grid bar := by
        unfold profileOf
        rw [List.map_append, List.sum_append, List.map_singleton, List.sum_singleton]
      have hvolume : volumeOf (window ++ [bar]) = volumeOf window + barVolume bar := by
        unfold volumeOf
        rw [List.map_append, List.sum_append, List.map_singleton, List.sum_singleton]
      rw [aggregateSessionVolume_append, ← ih, hprofile, hvolume, Histogram.add]
      split
      · rename_i hempty
        have hnone : barVolume bar = 0 := if_neg (not_lt.mpr hempty)
        rw [contribution, hnone, hspread _ rfl, add_zero, add_zero]
      · rename_i htraded
        have hvol : barVolume bar = bar.volume := if_pos (not_le.mp htraded)
        rw [contribution, hvol]
        congr 1
        refine List.ext_getElem (by simp) fun k hk _ => ?_
        simp

/-- **The running profile is at every bar the bucket sums of the window's bars, also
while the window fills; so on any grid its rows, and on the frame's own grid the whole
computation, are those of recomputing the profile of every window.** Where bars without volume
are spread to nothing, the bucket sums of a window are those of `_aggregate_session_volume`. -/
theorem computeRollingWindowVp_eq_recomputed (distribute : Spread) (bars : List StreamBar)
    (windowBars numBuckets : ℤ) :
    (∀ (grid : Grid) (w : ℕ), 0 < w →
      (∀ i, (RollingState.after distribute grid w (bars.take (i + 1))).runningProfile =
            profileOf distribute grid (windowAt bars w i) ∧
          (RollingState.after distribute grid w (bars.take (i + 1))).runningVolume =
            volumeOf (windowAt bars w i)) ∧
        rollingRows distribute grid w bars =
          ((List.range bars.length).map fun i =>
            (RollingState.after distribute grid w (bars.take (i + 1))).emit grid w i) ∧
        rollingRows distribute grid w bars = recomputedRows distribute grid w bars) ∧
      computeRollingWindowVp distribute bars windowBars numBuckets =
        recomputedWindowVp distribute bars windowBars numBuckets ∧
      ∀ grid : Grid, (∀ bar, bar.volume = 0 → distribute bar grid = 0) →
        ∀ window, (⟨List.ofFn (profileOf distribute grid window), volumeOf window⟩ : Histogram) =
          aggregateSessionVolume (fun bar grid => List.ofFn (distribute bar grid)) window grid := by
  refine ⟨?_, ?_, fun grid hspread window => profileOf_eq_aggregate hspread window⟩
  · intro grid w hw
    exact ⟨fun i => RollingState.after_sums hw (bars.take (i + 1)), rollingRows_eq bars,
      rollingRows_eq_recomputedRows hw bars⟩
  · unfold computeRollingWindowVp recomputedWindowVp windowVpWith
    split
    · rfl
    · rename_i hwindow
      have hw : 0 < windowBars.toNat := by omega
      split
      · rfl
      · rfl
      · rw [rollingRows_eq_recomputedRows hw]

/-- Three bars of volumes 7, 2 and 3. -/
def threeBars : List StreamBar :=
  [⟨1, 2, 1, 1, 7, none, []⟩, ⟨1, 2, 1, 2, 2, none, []⟩, ⟨1, 3, 1, 3, 3, none, []⟩]

/-- In a window of two bars the first of three has left; the volume of the other two
remains. -/
theorem computeRollingWindowVp_eq_recomputed_threeBars :
    (RollingState.after (fun bar _ _ => bar.volume) ⟨[1, 2], 1⟩ 2 threeBars).runningVolume = 5 ∧
      computeRollingWindowVp (fun bar _ _ => bar.volume) threeBars 2 4 =
        recomputedWindowVp (fun bar _ _ => bar.volume) threeBars 2 4 := by
  have h := computeRollingWindowVp_eq_recomputed (fun bar _ _ => bar.volume) threeBars 2 4
  have hlast := ((h.1 ⟨[1, 2], 1⟩ 2 (by decide)).1 2).2
  refine ⟨hlast.trans ?_, h.2.1⟩
  decide +kernel

end Finbar.Indicators
