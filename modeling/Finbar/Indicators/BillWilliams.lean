/-
Finbar.Indicators.BillWilliams — the oscillators, the zone signal and the fractals of
`bill_williams_indicators.py`.

A cell of a rolling mean is missing until its window is full of cells that are not.

No `sorry`, no `axiom`.
-/
import Finbar.Indicators.TrendStructure
import Finbar.Streaming.VsaSignals

namespace Finbar.Indicators

open Lib.Series Finbar.Streaming

/-! ## §1 Oscillators -/

/-- `cells.rolling(window).mean()` of a column with missing cells. -/
def rollingMeanOf (window : ℕ) (cells : List (Option ℚ)) (i : ℕ) : Option ℚ :=
  if window ≤ i + 1 then
    ((rowsBefore window (i + 1) cells).mapM id).map fun xs => xs.sum / window
  else none

/-- `left - right`, missing if one of them is. -/
def difference (left right : Option ℚ) : Option ℚ :=
  left.bind fun l => right.map fun r => l - r

/-- The median prices, `(high + low) / 2`. -/
def medians (rows : List (ℚ × ℚ)) : List ℚ :=
  rows.map fun row => (row.1 + row.2) / 2

/-- `awesome_oscillator`, of rows with their high and low. -/
def awesomeOscillator (rows : List (ℚ × ℚ)) : List (Option ℚ) :=
  (List.range rows.length).map fun i =>
    difference (rollingMean 5 (medians rows) i) (rollingMean 34 (medians rows) i)

/-- The oscillator's column less its mean over five rows. -/
def acceleration (ao : List (Option ℚ)) : List (Option ℚ) :=
  (List.range ao.length).map fun i => difference (ao.getD i none) (rollingMeanOf 5 ao i)

/-- `accelerator_oscillator`. -/
def acceleratorOscillator (rows : List (ℚ × ℚ)) : List (Option ℚ) :=
  acceleration (awesomeOscillator rows)

/-! ## §2 The zone signal -/

/-- The signal of a row. -/
inductive ZoneSignal where
  | green
  | red
  | gray
  deriving DecidableEq, Repr

/-- The text of a signal. -/
def ZoneSignal.text : ZoneSignal → String
  | .green => "green"
  | .red => "red"
  | .gray => "gray"

/-- `cells.diff() > 0`. -/
def risesAt (cells : List (Option ℚ)) (i : ℕ) : Bool :=
  if i = 0 then false
  else (difference (cells.getD i none) (cells.getD (i - 1) none)).any fun d => decide (0 < d)

/-- The signal of each row of the two oscillators. -/
def signalOf (oscillators : List (Option ℚ × Option ℚ)) : List ZoneSignal :=
  (List.range oscillators.length).map fun i =>
    let ao := oscillators.map Prod.fst
    let ac := oscillators.map Prod.snd
    let positive (cells : List (Option ℚ)) := (cells.getD i none).any fun q => decide (0 < q)
    let negative (cells : List (Option ℚ)) := (cells.getD i none).any fun q => decide (q < 0)
    if negative ao && !risesAt ao i && negative ac && !risesAt ac i then .red
    else if positive ao && risesAt ao i && positive ac && risesAt ac i then .green
    else .gray

/-- `zone_signal`. -/
def zoneSignal (rows : List (ℚ × ℚ)) : List ZoneSignal :=
  signalOf ((awesomeOscillator rows).zip (acceleratorOscillator rows))

/-! ## §3 Fractals -/

/-- `williams_fractal_high`: `True` in the row that confirms a fractal, else `pd.NA`. -/
def williamsFractalHigh (high : List ℚ) (window : ℕ) : List (Option Bool) :=
  (swingHighN high window).map fun mark => if mark then some true else none

/-- `williams_fractal_low`. -/
def williamsFractalLow (low : List ℚ) (window : ℕ) : List (Option Bool) :=
  (swingLowN low window).map fun mark => if mark then some true else none

end Finbar.Indicators
