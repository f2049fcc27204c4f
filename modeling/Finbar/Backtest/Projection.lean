/-
Finbar.Backtest.Projection — the points of an equity curve that a reader asks
for (`equity_points` of `backtest_result_projection.py`), and the dates the
engine writes into the curve (`_precompute_dates`).

The projection groups the points by the first ten characters of their dates.

No `sorry`, no `axiom`.
-/
import Finbar.Lib.Calendar
import Finbar.Lib.OrderedDict
import Finbar.Lib.Python
import Finbar.Simulation.State
import Mathlib.Data.List.Sort

namespace Finbar.Backtest

open Lib Lib.Python Lib.Calendar Finbar.Simulation

/-! ## §1 Dates -/

/-- A `datetime`: its days since the first of January of the year 1, and the
microseconds of its time of day. Its year has four digits. -/
structure Moment where
  day : ℕ
  clock : ℕ
  year_ge : 1000 ≤ (dateOf day).year
  year_lt : (dateOf day).year < 10000

/-- No later than. -/
def Moment.Before (m n : Moment) : Prop :=
  m.day < n.day ∨ m.day = n.day ∧ m.clock ≤ n.clock

/-- `strftime("%Y-%m-%d")`. -/
def dateChars (day : ℕ) : List Char :=
  let date := dateOf day
  digits 4 date.year ++ '-' :: (digits 2 date.month ++ '-' :: digits 2 date.day)

/-- `strftime("T%H:%M:%S")`. -/
def clockChars (clock : ℕ) : List Char :=
  let seconds := clock / 1000000
  'T' :: (digits 2 (seconds / 3600) ++
    ':' :: (digits 2 (seconds / 60 % 60) ++ ':' :: digits 2 (seconds % 60)))

/-- The text of a moment in `_precompute_dates`: with the time of day, unless that is
midnight. -/
def Moment.text (m : Moment) : String :=
  String.ofList (if m.clock = 0 then dateChars m.day else dateChars m.day ++ clockChars m.clock)

/-- `_precompute_dates`, of a `DatetimeIndex`. -/
def precomputeDates (index : List Moment) : List String :=
  index.map Moment.text

/-! ## §2 Projection -/

/-- `str(point.get("date", ""))[:n]`. -/
def datePrefix (n : ℕ) (point : EquityPoint) : String :=
  String.ofList (point.date.toList.take n)

/-- `_downsample_by_prefix`. -/
def downsampleByPrefix (curve : List EquityPoint) (prefixLen : ℕ) : List EquityPoint :=
  if prefixLen = 0 then curve
  else
    (curve.foldl (fun sampled point => sampled.assign (datePrefix prefixLen point) point)
      ({} : OrderedDict String EquityPoint)).items.map Prod.snd

/-- One pass of the loop of `_drawdown_events`. -/
def worsen (worst : OrderedDict String EquityPoint) (point : EquityPoint) :
    OrderedDict String EquityPoint :=
  if 0 ≤ point.drawdown then worst
  else
    let bucket := datePrefix 10 point
    match worst.get bucket with
    | none => worst.assign bucket point
    | some current =>
        if point.drawdown < current.drawdown then worst.assign bucket point else worst

/-- `_drawdown_events`. -/
def drawdownEvents (curve : List EquityPoint) : List EquityPoint :=
  let worst := curve.foldl worsen {}
  (worst.keys.insertionSort (· ≤ ·)).filterMap worst.get

/-- `_has_iso_dates`. -/
def hasIsoDates (curve : List EquityPoint) : Bool :=
  match curve.head? with
  | none => true
  | some point => decide (10 ≤ point.date.length)

/-- `mode.lower().strip() or "daily"`. -/
def normalizedMode (mode : String) : String :=
  let normalized := String.ofList (strip (mode.toList.map Char.toLower))
  if normalized = "" then "daily" else normalized

/-- `equity_points`. -/
def equityPoints (curve : List EquityPoint) (mode : String) : List EquityPoint :=
  let normalized := normalizedMode mode
  if normalized = "full" ∨ normalized = "page" then curve
  else if normalized = "none" then []
  else if normalized = "weekly" then downsampleByPrefix curve 10
  else if normalized = "drawdown_events" then drawdownEvents curve
  else downsampleByPrefix curve (if hasIsoDates curve then 10 else 0)

end Finbar.Backtest
