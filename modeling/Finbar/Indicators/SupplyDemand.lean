/-
Finbar.Indicators.SupplyDemand — the zones of `supply_demand_zones.py`, for a lookback of
at least one row.

A zone is looked for in the `2 * lookback` rows before a row, and its edge is
missing (`none`) where the row has not left it. Supply mirrors demand: the two
scores are one definition, and so are the four edges and the two failures.

No `sorry`, no `axiom`.
-/
import Finbar.Indicators.SmcPriceAction
import Finbar.Streaming.VsaSignals

namespace Finbar.Indicators

open Lib.Series Finbar.Streaming

/-! ## §1 Edges -/

/-- The edge of a zone in the window before a row, where the close has left the zone. -/
def zoneEdge (left : ℚ → List ℚ → Bool) (edge : List ℚ → Option ℚ) (near prices close : List ℚ)
    (lookback : ℕ) : List (Option ℚ) :=
  (List.range close.length).map fun i =>
    if lookback * 2 ≤ i then
      if left (close.getD i 0) (slice near (i - lookback * 2) i) then
        edge (slice prices (i - lookback * 2) i)
      else none
    else none

/-- `demand_zone_low`. -/
def demandZoneLow (low close : List ℚ) (lookback : ℕ) : List (Option ℚ) :=
  zoneEdge aboveAll List.min? low low close lookback

/-- `demand_zone_high`. -/
def demandZoneHigh (high low close : List ℚ) (lookback : ℕ) : List (Option ℚ) :=
  zoneEdge aboveAll List.max? low high close lookback

/-- `supply_zone_low`. -/
def supplyZoneLow (high low close : List ℚ) (lookback : ℕ) : List (Option ℚ) :=
  zoneEdge belowAll List.min? high low close lookback

/-- `supply_zone_high`. -/
def supplyZoneHigh (high close : List ℚ) (lookback : ℕ) : List (Option ℚ) :=
  zoneEdge belowAll List.max? high high close lookback

/-! ## §2 Scores -/

/-- The points of a row: the departure's strength (2 beyond `strong` times the close before,
1 beyond it), the volume, the compression of the range, where the bar closed, and the move
before. -/
def zoneScoreAt (departs : ℚ → ℚ → Bool) (strong : ℚ) (high low close volume : List ℚ) (i : ℕ) :
    ℕ :=
  let rng := spreads high low
  let now := close.getD i 0
  let before := close.getD (i - 1) 0
  let departure := if departs now (before * strong) then 2 else if departs now before then 1 else 0
  let atVolume := (rollingMean 20 volume i).any fun avg => decide (avg < volume.getD i 0)
  let compressed := (rollingMean 20 rng i).any fun avg => decide (rng.getD i 0 < avg)
  let closedAway := departs now ((high.getD i 0 + low.getD i 0) / 2)
  let continues := departs before (close.getD (i - 2) 0)
  min (departure + atVolume.toNat + compressed.toNat + closedAway.toNat + continues.toNat) 6

/-- The scores of the rows from `2 * lookback` on. -/
def zoneScore (departs : ℚ → ℚ → Bool) (strong : ℚ) (high low close volume : List ℚ)
    (lookback : ℕ) : List ℕ :=
  (List.range close.length).map fun i =>
    if lookback * 2 ≤ i then zoneScoreAt departs strong high low close volume i else 0

/-- `demand_zone_score`. -/
def demandZoneScore (high low close volume : List ℚ) (lookback : ℕ) : List ℕ :=
  zoneScore (fun now level => decide (level < now)) (101 / 100) high low close volume lookback

/-- `supply_zone_score`. -/
def supplyZoneScore (high low close volume : List ℚ) (lookback : ℕ) : List ℕ :=
  zoneScore (fun now level => decide (now < level)) (99 / 100) high low close volume lookback

/-! ## §3 Failures -/

/-- A close beyond the `lookback` bars before it, on volume. -/
def zoneFailure (beyond : ℚ → List ℚ → Bool) (prices close volume : List ℚ) (lookback : ℕ) :
    List Bool :=
  flagFrom (lookback * 2) close.length fun i =>
    beyond (close.getD i 0) (slice prices (i - lookback) i) &&
      (rollingMean 20 volume i).any fun avg => decide (avg * (12 / 10) < volume.getD i 0)

/-- `zone_failure_bullish`. -/
def zoneFailureBullish (high close volume : List ℚ) (lookback : ℕ) : List Bool :=
  zoneFailure aboveAll high close volume lookback

/-- `zone_failure_bearish`. -/
def zoneFailureBearish (low close volume : List ℚ) (lookback : ℕ) : List Bool :=
  zoneFailure belowAll low close volume lookback

end Finbar.Indicators
