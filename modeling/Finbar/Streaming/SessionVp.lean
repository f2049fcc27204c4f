/-
Finbar.Streaming.SessionVp — `IncrementalSessionVpState`: the volume profile
of the current session, kept up to date bar by bar.

The state's cached levels are a function of its profile and are computed when
they are read (`SessionVpState.levels`); `none` is NaN. The calendar date of a
timestamp (`_session_date`) and the spread of a bar's volume are parameters.

No `sorry`, no `axiom`.
-/
import Finbar.Lib.Deque
import Finbar.Streaming.VolumeProfile

namespace Finbar.Streaming

open Lib Lib.Python

/-! ## §1 The running profile -/

/-- `_NUM_BUCKETS`. -/
def numBuckets : ℕ := 100

/-- The profile of the session so far, its grid and its range. -/
structure RunningProfile where
  grid : Grid
  histogram : Histogram
  high : ℚ
  low : ℚ
  deriving DecidableEq

/-- `_add_bar`: without a bucket width nothing is added. -/
def RunningProfile.addBar (distribute : Distribution) (r : RunningProfile)
    (bar : StreamBar) : RunningProfile :=
  if bar.volume ≤ 0 ∨ r.grid.bucketSize ≤ 0 then r
  else { r with histogram := r.histogram.add distribute r.grid bar }

/-- An empty profile over the grid of a range. -/
def RunningProfile.fresh (high low : ℚ) : RunningProfile where
  grid := sessionBucketGrid high low numBuckets
  histogram := Histogram.zeros numBuckets
  high := high
  low := low

/-- `_redistribute_all`. -/
def RunningProfile.redistributeAll (distribute : Distribution) (r : RunningProfile)
    (bars : List StreamBar) : RunningProfile :=
  bars.foldl (RunningProfile.addBar distribute) r

/-- `_update_incremental`; `bars` are the session's bars with the new one. -/
def updateIncremental (distribute : Distribution) (running : Option RunningProfile)
    (bars : List StreamBar) (bar : StreamBar) : RunningProfile :=
  match running with
  | none => (RunningProfile.fresh bar.high bar.low).addBar distribute bar
  | some r =>
      if r.high < bar.high ∨ bar.low < r.low then
        (RunningProfile.fresh (max r.high bar.high) (min r.low bar.low)).redistributeAll
          distribute bars
      else r.addBar distribute bar

/-! ## §2 The state -/

/-- `IncrementalSessionVpState`. -/
structure SessionVpState where
  bars : List StreamBar
  sessionDate : Option String
  running : Option RunningProfile
  /-- Final POC of each closed session, newest last. -/
  sessionPocs : Deque (String × ℚ)

/-- A new state. Its history covers `poc_slope_20`. -/
def SessionVpState.init : SessionVpState where
  bars := []
  sessionDate := none
  running := none
  sessionPocs := Deque.empty 21

/-- `reset`: the date and the closed sessions stay. -/
def SessionVpState.reset (s : SessionVpState) : SessionVpState :=
  { s with bars := [], running := none }

/-- `_extract_levels`. -/
def extractLevels (r : RunningProfile) : Option VpLevels :=
  if r.histogram.total ≤ 0 then none
  else some (buildVolumeProfileResult r.histogram r.grid numBuckets).levels

/-- The levels the properties `poc`, `vah` and `val` read; `none` is NaN. -/
def SessionVpState.levels (s : SessionVpState) : Option VpLevels :=
  if s.bars = [] then none else s.running.bind extractLevels

/-- `_cap_session`: save the session's final POC. -/
def SessionVpState.capSession (s : SessionVpState) : SessionVpState :=
  match s.levels, s.sessionDate with
  | some levels, some date =>
      { s with sessionPocs := s.sessionPocs.push (date, levels.poc) }
  | _, _ => s

/-- `update` up to the session boundary: a bar of another date closes the
session. -/
def SessionVpState.enterSession (sessionDateOf : PyValue → String) (s : SessionVpState)
    (bar : StreamBar) : SessionVpState :=
  match bar.timestamp with
  | none => s
  | some ts =>
      let barDate := sessionDateOf ts
      let closed :=
        match s.sessionDate with
        | some date => if barDate ≠ date then s.capSession.reset else s
        | none => s
      { closed with sessionDate := some barDate }

/-- `update` after the boundary: the bar joins the session. -/
def SessionVpState.ingest (distribute : Distribution) (s : SessionVpState)
    (bar : StreamBar) : SessionVpState :=
  let bars := s.bars ++ [bar]
  { s with
    bars := bars
    running := some (updateIncremental distribute s.running bars bar) }

/-- `update`. -/
def SessionVpState.update (sessionDateOf : PyValue → String) (distribute : Distribution)
    (s : SessionVpState) (bar : StreamBar) : SessionVpState :=
  (s.enterSession sessionDateOf bar).ingest distribute bar

/-- `poc_slope`: the POC's change over the last closed sessions, in percent;
`none` is NaN. -/
def SessionVpState.pocSlope (s : SessionVpState) (nSessions : ℕ) : Option ℚ :=
  let pocs := s.sessionPocs.items
  if pocs.length < max nSessions 1 then none
  else
    match pocs[pocs.length - nSessions]?, pocs.getLast? with
    | some (_, olderPoc), some (_, newerPoc) =>
        if olderPoc ≤ 0 then none else some ((newerPoc - olderPoc) / olderPoc * 100)
    | _, _ => none

/-! ## §3 The running profile is the aggregate -/

section Running

variable {distribute : Distribution}

/-- What bars put on a grid: nothing if its buckets have no width. -/
def gridHistogram (distribute : Distribution) (bars : List StreamBar) (grid : Grid) :
    Histogram :=
  if 0 < grid.bucketSize then aggregateSessionVolume distribute bars grid
  else Histogram.zeros numBuckets

/-- A running profile holds what its bars put on the grid of their range. -/
structure Tracks (distribute : Distribution) (bars : List StreamBar) (r : RunningProfile) :
    Prop where
  high : r.high = sessionHigh bars
  low : r.low = sessionLow bars
  grid : r.grid = sessionBucketGrid r.high r.low numBuckets
  histogram : r.histogram = gridHistogram distribute bars r.grid

theorem grid_prices_length (high low : ℚ) (n : ℕ) :
    (sessionBucketGrid high low n).prices.length = n := by
  unfold sessionBucketGrid linspace
  simp only
  rw [List.length_map, List.length_range]

theorem sessionHigh_append (bars : List StreamBar) (bar : StreamBar) (h : bars ≠ []) :
    sessionHigh (bars ++ [bar]) = max (sessionHigh bars) bar.high := by
  obtain ⟨first, rest, rfl⟩ := List.exists_cons_of_ne_nil h
  unfold sessionHigh
  rw [List.map_append, List.map_cons, List.cons_append, List.max?_cons', List.max?_cons']
  simp [List.foldl_append]

theorem sessionLow_append (bars : List StreamBar) (bar : StreamBar) (h : bars ≠ []) :
    sessionLow (bars ++ [bar]) = min (sessionLow bars) bar.low := by
  obtain ⟨first, rest, rfl⟩ := List.exists_cons_of_ne_nil h
  unfold sessionLow
  rw [List.map_append, List.map_cons, List.cons_append, List.min?_cons', List.min?_cons']
  simp [List.foldl_append]

/-- Adding a bar changes only the histogram. -/
theorem addBar_eq (r : RunningProfile) (bar : StreamBar) :
    r.addBar distribute bar =
      { r with histogram :=
          if 0 < r.grid.bucketSize then r.histogram.add distribute r.grid bar
          else r.histogram } := by
  unfold RunningProfile.addBar
  by_cases hsize : 0 < r.grid.bucketSize
  · rw [if_pos hsize]
    by_cases hvolume : bar.volume ≤ 0
    · rw [if_pos (.inl hvolume)]
      unfold Histogram.add
      rw [if_pos hvolume]
    · rw [if_neg (by
        rintro (h | h)
        · exact hvolume h
        · exact absurd hsize (not_lt.mpr h))]
  · rw [if_neg hsize, if_pos (.inr (not_lt.mp hsize))]

theorem gridHistogram_nil {grid : Grid} (h : grid.prices.length = numBuckets) :
    gridHistogram distribute [] grid = Histogram.zeros numBuckets := by
  unfold gridHistogram aggregateSessionVolume
  rw [h, List.foldl_nil, ite_self]

theorem gridHistogram_append (bars : List StreamBar) (bar : StreamBar) (grid : Grid) :
    gridHistogram distribute (bars ++ [bar]) grid =
      if 0 < grid.bucketSize then (gridHistogram distribute bars grid).add distribute grid bar
      else gridHistogram distribute bars grid := by
  unfold gridHistogram
  by_cases hsize : 0 < grid.bucketSize
  · rw [if_pos hsize, if_pos hsize, if_pos hsize, aggregateSessionVolume_append]
  · rw [if_neg hsize, if_neg hsize, if_neg hsize]

/-- Redistributing aggregates all bars over a fresh grid. -/
theorem redistributeAll_fresh (distribute : Distribution) (high low : ℚ) (bars : List StreamBar) :
    (RunningProfile.fresh high low).redistributeAll distribute bars =
      { RunningProfile.fresh high low with
        histogram := gridHistogram distribute bars (sessionBucketGrid high low numBuckets) } := by
  induction bars using List.reverseRecOn with
  | nil =>
      rw [gridHistogram_nil (grid_prices_length high low numBuckets)]
      rfl
  | append_singleton bars bar ih =>
      unfold RunningProfile.redistributeAll at ih ⊢
      rw [List.foldl_append, ih, List.foldl_cons, List.foldl_nil, addBar_eq,
        gridHistogram_append]
      rfl

/-- A session's first bar starts the profile. -/
theorem tracks_first (bar : StreamBar) :
    Tracks distribute [bar] (updateIncremental distribute none [bar] bar) := by
  have hfresh := redistributeAll_fresh distribute bar.high bar.low [bar]
  unfold RunningProfile.redistributeAll at hfresh
  rw [List.foldl_cons, List.foldl_nil] at hfresh
  unfold updateIncremental
  simp only
  rw [hfresh]
  exact ⟨rfl, rfl, rfl, rfl⟩

/-- A further bar keeps it. -/
theorem tracks_next {bars : List StreamBar} (hbars : bars ≠ []) {r : RunningProfile}
    (h : Tracks distribute bars r) (bar : StreamBar) :
    Tracks distribute (bars ++ [bar])
      (updateIncremental distribute (some r) (bars ++ [bar]) bar) := by
  have hhigh := sessionHigh_append bars bar hbars
  have hlow := sessionLow_append bars bar hbars
  rw [← h.high] at hhigh
  rw [← h.low] at hlow
  unfold updateIncremental
  simp only
  by_cases hexpand : r.high < bar.high ∨ bar.low < r.low
  · rw [if_pos hexpand, redistributeAll_fresh]
    exact ⟨hhigh.symm, hlow.symm, rfl, rfl⟩
  · rw [if_neg hexpand]
    rw [not_or, not_lt, not_lt] at hexpand
    rw [max_eq_left hexpand.1] at hhigh
    rw [min_eq_left hexpand.2] at hlow
    rw [addBar_eq]
    refine ⟨hhigh.symm, hlow.symm, h.grid, ?_⟩
    rw [gridHistogram_append, ← h.histogram]

end Running

end Finbar.Streaming
