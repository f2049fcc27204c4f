/-
Finbar.Indicators.VolumeSpread — the volume spread columns of `vsa_signals.py`, for a
lookback of at least one row. (Stopping volume and climax volume, which the
derived state serves, are in `Finbar.Streaming.VsaSignals`.)

Every column is a flag (`flagFrom`) whose row is compared with rolling means; the
comparison with a mean that is missing is false.

No `sorry`, no `axiom`.
-/
import Finbar.Indicators.SmcPriceAction
import Finbar.Streaming.VsaSignals

namespace Finbar.Indicators

open Lib.Series Finbar.Streaming

/-! ## §1 Bars against their averages -/

/-- The row's cell is below its mean over `window` rows, times `factor`. -/
def belowMean (window : ℕ) (factor : ℚ) (cells : List ℚ) (i : ℕ) : Bool :=
  (rollingMean window cells i).any fun avg => decide (cells.getD i 0 < avg * factor)

/-- The row's cell is above its mean over `window` rows, times `factor`. -/
def aboveMean (window : ℕ) (factor : ℚ) (cells : List ℚ) (i : ℕ) : Bool :=
  (rollingMean window cells i).any fun avg => decide (avg * factor < cells.getD i 0)

/-- A move of less than 0.5 % of the close before; against a close of zero it is infinite. -/
def smallMove (move before : ℚ) : Bool :=
  decide (before ≠ 0 ∧ move / before < 5 / 1000)

/-- `no_demand`. -/
def noDemand (close volume : List ℚ) (lookback : ℕ) : List Bool :=
  flagFrom lookback close.length fun i =>
    let now := close.getD i 0
    let before := close.getD (i - 1) 0
    decide (before < now) && smallMove (now - before) before && belowMean 20 (7 / 10) volume i

/-- `no_supply`. -/
def noSupply (close volume : List ℚ) (lookback : ℕ) : List Bool :=
  flagFrom lookback close.length fun i =>
    let now := close.getD i 0
    let before := close.getD (i - 1) 0
    decide (now < before) && smallMove (before - now) before && belowMean 20 (7 / 10) volume i

/-! ## §2 Effort and result -/

/-- A wide bar on high volume that closed one way, near the middle. -/
def effort (moves : ℚ → ℚ → Bool) (high low close volume : List ℚ) (lookback : ℕ) : List Bool :=
  let rng := spreads high low
  flagFrom lookback high.length fun i =>
    let midClose := decide
      (|close.getD i 0 - (high.getD i 0 + low.getD i 0) / 2| < rng.getD i 0 * (3 / 10))
    moves (close.getD i 0) (close.getD (i - 1) 0) && aboveMean lookback (13 / 10) rng i &&
      aboveMean lookback (13 / 10) volume i && midClose

/-- `effort_to_rise`. -/
def effortToRise (high low close volume : List ℚ) (lookback : ℕ) : List Bool :=
  effort (fun now before => decide (before < now)) high low close volume lookback

/-- `effort_to_fall`. -/
def effortToFall (high low close volume : List ℚ) (lookback : ℕ) : List Bool :=
  effort (fun now before => decide (now < before)) high low close volume lookback

/-- `effort_result_divergence`. -/
def effortResultDivergence (high low volume : List ℚ) (lookback : ℕ) : List Bool :=
  let rng := spreads high low
  flagFrom lookback high.length fun i =>
    let highEffort := (rollingMean lookback volume i).any fun avg =>
      decide (15 / 10 < volume.getD i 0 / max avg 1)
    let smallResult := (rollingMean lookback rng i).any fun avg =>
      decide (rng.getD i 0 / max avg (1 / 100) < 7 / 10)
    highEffort && smallResult

/-! ## §3 Turns and tests -/

/-- `bag_holding`. -/
def bagHolding (close volume : List ℚ) (lookback : ℕ) : List Bool :=
  flagFrom (lookback + 2) close.length fun i =>
    decide (close.getD (i - 2) 0 < close.getD (i - 3) 0) &&
      decide (close.getD (i - 2) 0 < close.getD (i - 1) 0) &&
      aboveMean 20 (13 / 10) volume (i - 1) && decide (close.getD i 0 < close.getD (i - 1) 0)

/-- `shakeout`. -/
def shakeout (low close volume : List ℚ) (lookback : ℕ) : List Bool :=
  flagFrom (lookback + 2) close.length fun i =>
    match (slice low (i - lookback) (i - 1)).min? with
    | none => false
    | some support =>
        decide (low.getD (i - 1) 0 < support) && aboveMean 20 (15 / 10) volume (i - 1) &&
          decide (close.getD (i - 1) 0 < close.getD i 0 ∧ support < close.getD i 0)

/-- `vsa_test_signal`. -/
def vsaTestSignal (high low close volume : List ℚ) (lookback : ℕ) : List Bool :=
  let rng := spreads high low
  flagFrom (lookback + 5) close.length fun i =>
    let nearSupport := (quantile (3 / 10) (rowsBefore 5 i low)).any fun q =>
      decide (close.getD i 0 ≤ q)
    belowMean lookback (5 / 10) volume i && belowMean lookback (6 / 10) rng i && nearSupport

end Finbar.Indicators
