/-
Finbar.Streaming.VsaSignals — stopping volume and climax volume
(`vsa_signals.py`) and the engine that computes them.

The batch functions loop over the rows from the lookback on, which is 20.
`Runtime.withVsa` is a runtime whose handlers compute the two metrics with them:
over the window of a `WindowedIndicatorState`, and over the volume buffer of the
`DirectVpDerivedState` that serves them once a session profile is needed.
`IntervalAwareWindowResolver` is the window resolver that the enrichers pass to
the engine.

No `sorry`, no `axiom`.
-/
import Mathlib.Algebra.Order.Floor.Ring
import Mathlib.Data.List.Sort
import Finbar.Lib.Series
import Finbar.Streaming.Engine
import Finbar.Streaming.ValueSignals

namespace Finbar.Streaming

open Lib Lib.Python Lib.Series

/-! ## §1 The batch functions -/

/-- `series.rolling(lookback).mean()`, missing while there are fewer rows. -/
def rollingMean (lookback : ℕ) (series : List ℚ) (i : ℕ) : Option ℚ :=
  if lookback ≤ i + 1 then some ((rowsBefore lookback (i + 1) series).sum / lookback) else none

/-- `series.quantile(q)`: between two values it interpolates. -/
def quantile (q : ℚ) (series : List ℚ) : Option ℚ :=
  let sorted := series.insertionSort (· ≤ ·)
  let position := q * (series.length - 1)
  let below := ⌊position⌋.toNat
  sorted[below]?.map fun lower =>
    lower + (position - below) * (sorted.getD (below + 1) lower - lower)

/-- The spread of a row, `high - low`. -/
def spreads (high low : List ℚ) : List ℚ :=
  List.zipWith (· - ·) high low

/-- The body of the loop of `stopping_volume`: near the low, narrow, on high volume. -/
def stoppingVolumeAt (high low volume : List ℚ) (lookback i : ℕ) : Bool :=
  let rng := spreads high low
  let nearLow := (quantile (2 / 10) (rowsBefore lookback i low)).any fun q => low.getD i 0 ≤ q
  let narrow := (rollingMean lookback rng i).any fun avg => rng.getD i 0 < avg * (8 / 10)
  let hiVol := (rollingMean lookback volume i).any fun avg => avg * (15 / 10) < volume.getD i 0
  nearLow && narrow && hiVol

/-- `stopping_volume`. -/
def stoppingVolume (high low volume : List ℚ) (lookback : ℕ) : List Bool :=
  flagFrom lookback high.length (stoppingVolumeAt high low volume lookback)

/-- The body of the loop of `climax_volume`: wide, on extreme volume. -/
def climaxVolumeAt (high low volume : List ℚ) (lookback i : ℕ) : Bool :=
  let rng := spreads high low
  let wide := (rollingMean lookback rng i).any fun avg => avg * (15 / 10) < rng.getD i 0
  let extremeVol := (rollingMean lookback volume i).any fun avg => avg * 2 < volume.getD i 0
  wide && extremeVol

/-- `climax_volume`. -/
def climaxVolume (high low volume : List ℚ) (lookback : ℕ) : List Bool :=
  flagFrom lookback high.length (climaxVolumeAt high low volume lookback)

/-! ## §2 The two metrics -/

/-- The metrics computed over the volume window. -/
inductive VolumeSignal where
  | stoppingVolume
  | climaxVolume
  deriving DecidableEq, Repr

namespace VolumeSignal

/-- The column's name. -/
def name : VolumeSignal → String
  | .stoppingVolume => "stopping_volume"
  | .climaxVolume => "climax_volume"

/-- The metric of a name. -/
def ofName (name : String) : Option VolumeSignal :=
  if name = "stopping_volume" then some .stoppingVolume
  else if name = "climax_volume" then some .climaxVolume
  else none

/-- The default `lookback`. -/
def lookback : ℕ := 20

/-- The body of the loop over a frame of bars. -/
def firesAt (signal : VolumeSignal) (bars : List StreamBar) (i : ℕ) : Bool :=
  let high := bars.map StreamBar.high
  let low := bars.map StreamBar.low
  let volume := bars.map StreamBar.volume
  match signal with
  | .stoppingVolume => stoppingVolumeAt high low volume lookback i
  | .climaxVolume => climaxVolumeAt high low volume lookback i

/-- The metric's column of a frame of bars. -/
def column (signal : VolumeSignal) (bars : List StreamBar) : List Bool :=
  let high := bars.map StreamBar.high
  let low := bars.map StreamBar.low
  let volume := bars.map StreamBar.volume
  match signal with
  | .stoppingVolume => Streaming.stoppingVolume high low volume lookback
  | .climaxVolume => Streaming.climaxVolume high low volume lookback

/-- The latest value of the metric over a frame. -/
def latest (signal : VolumeSignal) (bars : List StreamBar) : PyValue :=
  lastValue ((signal.column bars).map PyValue.bool)

end VolumeSignal

/-! ## §3 In the engine -/

/-- `_compute_batch` of the volume metrics: the timestamps are parsed for the
index. -/
def volumeValues (handlers : Handlers) (names : List String) (bars : List StreamBar) :
    Except PyError (List (String × PyValue)) := do
  let _ ← parseBarTimestamps handlers (bars.filterMap StreamBar.timestamp)
  return names.filterMap fun name =>
    (VolumeSignal.ofName name).map fun signal => (name, signal.latest bars)

/-- The handlers with the two metrics; of the other derived metrics only those
asked for are kept. -/
def Handlers.withVsa (handlers : Handlers) : Handlers :=
  { handlers with
    windowed := fun name rows =>
      match VolumeSignal.ofName name with
      | some signal => .ok (signal.latest (rows.map FrameRow.bar))
      | none => handlers.windowed name rows
    derived := fun names bars levels =>
      if names.all fun name => (VolumeSignal.ofName name).isSome then
        volumeValues handlers names bars
      else do
        let values ← handlers.derived names bars levels
        return values.filter fun entry => names.contains entry.1 }

/-- The runtime with the two metrics. -/
def Runtime.withVsa (rt : Runtime) : Runtime :=
  { rt with handlers := rt.handlers.withVsa }

/-- The session profile is needed: a level of it is requested, or a metric that
depends on one. -/
def NeedsSessionVp (registry : HandlerRegistry) (requested : List String) : Prop :=
  requested.any vpRootNames.contains ∨ anyTransitiveDependsOnVp registry requested

/-! ## §4 The window resolver -/

/-- The digits of `^poc_slope_(\\d+)$`, which a line break may follow. -/
def pocSlopeSessions (name : String) : Option ℕ :=
  if startsWith name "poc_slope_" then
    let rest := restAfter name "poc_slope_"
    digitsValue (if rest.getLast? = some '\n' then rest.dropLast else rest)
  else none

/-- `_lookback_sessions`. -/
def lookbackSessions (name : String) : Option ℕ :=
  match pocSlopeSessions name with
  | some sessions => some sessions
  | none =>
      if name = "wyckoff_phase" then some 20
      else if name = "value_area_migration" then some 1
      else none

/-- `IntervalAwareWindowResolver.resolve`; `barsPerSession` is that of its context,
which may raise. -/
def intervalAwareResolve (barsPerSession : Except PyError ℕ) (name : String) :
    Except PyError (Option ℕ) :=
  match lookbackSessions name with
  | none => .ok none
  | some sessions => do
      let bars ← barsPerSession
      return some (max ((sessions + 1) * bars) minBars)

end Finbar.Streaming
