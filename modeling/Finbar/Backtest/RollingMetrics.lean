/-
Finbar.Backtest.RollingMetrics — `rolling_metrics.py`: the rolling Sharpe ratio
and win rate, the monthly and yearly returns and the trade distribution.

A window length is a natural number. The root `x ** 0.5` is the `pow` of a
`FloatMath`; the divisions that can be by zero are those of the window
lengths 0 and 1.

No `sorry`, no `axiom`.
-/
import Finbar.Backtest.Metrics
import Finbar.Lib.OrderedDict
import Finbar.Lib.Tally
import Mathlib.Data.List.Sort

namespace Finbar.Backtest

open Lib Lib.Python Finbar.Simulation

/-! ## §1 The dictionaries -/

/-- The entries of an equity curve dictionary that the metrics read; `none` is a key
that is missing. -/
structure CurveEntry where
  date : Option String := none
  value : Option ℚ := none
  deriving DecidableEq

/-- `e.get("date", "")`. -/
def CurveEntry.dateText (e : CurveEntry) : String := e.date.getD ""

/-- `e.get("value", 0.0)`. -/
def CurveEntry.worth (e : CurveEntry) : ℚ := e.value.getD 0

/-- The entries of a trade dictionary that the metrics read. -/
structure TradeEntry where
  exitDate : Option String := none
  pnl : Option ℚ := none
  durationBars : Option ℚ := none
  deriving DecidableEq

/-- `t.get("exit_date", "")`. -/
def TradeEntry.exitText (t : TradeEntry) : String := t.exitDate.getD ""

/-- `t.get("pnl", 0)`. -/
def TradeEntry.profit (t : TradeEntry) : ℚ := t.pnl.getD 0

/-- `t.get("duration_bars", 0)`. -/
def TradeEntry.duration (t : TradeEntry) : ℚ := t.durationBars.getD 0

/-- A trade that made money. -/
def TradeEntry.wins (t : TradeEntry) : Bool := decide (0 < t.profit)

/-- What the engine stores of a point. -/
def entryOfPoint (point : EquityPoint) : CurveEntry :=
  { date := some point.date, value := some point.value }

/-! ## §2 Rolling Sharpe ratio -/

/-- What a division by zero raises. -/
structure ZeroDivisionError where
  deriving DecidableEq

/-- `x / y`. -/
def divide (x y : ℚ) : Except ZeroDivisionError ℚ :=
  if y = 0 then .error {} else .ok (x / y)

/-- `_daily_returns`. -/
def dailyReturns (values : List ℚ) : List ℚ :=
  List.zipWith (fun previous value => if previous = 0 then 0 else (value - previous) / previous)
    values values.tail

/-- The ratio of a window, of its running sums. A positive variance has a positive root. -/
def windowSharpe (fm : FloatMath) (window : ℕ) (ann winSum winSqSum : ℚ) :
    Except ZeroDivisionError ℚ := do
  let mean ← divide winSum window
  let var ← divide (winSqSum - mean * winSum) (window - 1)
  if 0 < var then
    return pyRound (mean / fm.pow var (1 / 2) * ann) 4
  else
    return 0

/-- The variables of the loop of `calculate_rolling_sharpe`. -/
structure SharpeState where
  winSum : ℚ
  winSqSum : ℚ
  result : List (Option ℚ)
  deriving DecidableEq

/-- The running sums seeded with the first full window. -/
def seedSharpe (fm : FloatMath) (n window : ℕ) (ann : ℚ) (returns : List ℚ) :
    Except ZeroDivisionError SharpeState := do
  let seed := returns.take window
  let winSum := seed.sum
  let winSqSum := (seed.map fun r => r * r).sum
  let sharpe ← windowSharpe fm window ann winSum winSqSum
  return { winSum := winSum
           winSqSum := winSqSum
           result := (List.replicate n none).set window (some sharpe) }

/-- One pass of the loop. -/
def sharpeStep (fm : FloatMath) (window : ℕ) (ann : ℚ) (returns : List ℚ) (s : SharpeState)
    (i : ℕ) : Except ZeroDivisionError SharpeState := do
  let outgoing := returns.getD (i - window) 0
  let incoming := returns.getD i 0
  let winSum := s.winSum + (incoming - outgoing)
  let winSqSum := s.winSqSum + (incoming * incoming - outgoing * outgoing)
  let sharpe ← windowSharpe fm window ann winSum winSqSum
  return { winSum := winSum
           winSqSum := winSqSum
           result := s.result.set (i + 1) (some sharpe) }

/-- The seed and the first passes of the loop. -/
def sharpeLoop (fm : FloatMath) (equityValues : List ℚ) (window : ℕ) (periodsPerYear : ℚ)
    (passes : ℕ) : Except ZeroDivisionError SharpeState := do
  let returns := dailyReturns equityValues
  let ann := fm.pow periodsPerYear (1 / 2)
  let seed ← seedSharpe fm equityValues.length window ann returns
  (List.range' window passes).foldlM (sharpeStep fm window ann returns) seed

/-- `calculate_rolling_sharpe`. -/
def calculateRollingSharpe (fm : FloatMath) (equityValues : List ℚ) (window : ℕ)
    (periodsPerYear : ℚ) : Except ZeroDivisionError (List (Option ℚ)) := do
  let returns := dailyReturns equityValues
  if equityValues.length < 2 ∨ returns.length < window then
    return List.replicate equityValues.length none
  else
    let s ← sharpeLoop fm equityValues window periodsPerYear (returns.length - window)
    return s.result

/-! ## §3 Rolling win rate -/

/-- `date_to_idx`: the first bar of each date. -/
def dateToIdx (equityCurve : List CurveEntry) : OrderedDict String ℕ :=
  equityCurve.zipIdx.foldl
    (fun dates bar =>
      if bar.1.dateText ∈ dates.keys then dates else dates.assign bar.1.dateText bar.2) {}

/-- One trade counted in `wins_at` and `total_at`. -/
def countExit (dates : OrderedDict String ℕ) (counts : List ℕ × List ℕ) (t : TradeEntry) :
    List ℕ × List ℕ :=
  match dates.get t.exitText with
  | none => counts
  | some idx =>
      (if 0 < t.profit then counts.1.modify idx (· + 1) else counts.1,
        counts.2.modify idx (· + 1))

/-- One pass of the last loop of `calculate_rolling_win_rate`. -/
def winRateStep (window : ℕ) (prefixWins prefixTotal : List ℕ) (result : List (Option ℚ))
    (i : ℕ) : List (Option ℚ) :=
  let windowStart := i + 1 - window
  let winsInWindow : ℤ := prefixWins.getD (i + 1) 0 - prefixWins.getD windowStart 0
  let totalInWindow : ℤ := prefixTotal.getD (i + 1) 0 - prefixTotal.getD windowStart 0
  if 0 < totalInWindow then
    result.set i (some (pyRound ((winsInWindow : ℚ) / totalInWindow) 4))
  else result

/-- `calculate_rolling_win_rate`. For the window length 0 the loop starts at -1, where it
finds the empty window and does nothing. -/
def calculateRollingWinRate (trades : List TradeEntry) (equityCurve : List CurveEntry)
    (window : ℕ) : List (Option ℚ) :=
  let n := equityCurve.length
  let result := List.replicate n none
  if trades = [] ∨ n < 2 then result
  else
    let counts := trades.foldl (countExit (dateToIdx equityCurve))
      (List.replicate n 0, List.replicate n 0)
    if counts.2.all (· = 0) then result
    else
      (List.range' (window - 1) (n - (window - 1))).foldl
        (winRateStep window (prefixSums counts.1) (prefixSums counts.2)) result

/-! ## §4 Monthly and yearly returns -/

/-- `text[:n]`. -/
def firstChars (n : ℕ) (text : String) : String := String.ofList (text.toList.take n)

/-- `date_str[:7]`. -/
def CurveEntry.month (e : CurveEntry) : String := firstChars 7 e.dateText

/-- `months`: the values of each month. -/
def monthValues (equityCurve : List CurveEntry) : OrderedDict String (List ℚ) :=
  OrderedDict.collect
    ((equityCurve.filter fun e => decide (7 ≤ e.dateText.length)).map fun e => (e.month, e.worth))

/-- One month of the loop of `calculate_monthly_returns`: its return is measured from the
close of the month before, the first one's from its own first value. -/
def monthStep (months : OrderedDict String (List ℚ))
    (s : OrderedDict String ℚ × Option ℚ) (monthKey : String) : OrderedDict String ℚ × Option ℚ :=
  match (months.get monthKey).getD [] with
  | [] => s
  | first :: rest =>
      let monthEnd := rest.getLastD first
      let monthStart := s.2.getD first
      (if 0 < monthStart then
          s.1.assign monthKey (pyRound ((monthEnd - monthStart) / monthStart) 4)
        else s.1,
        some monthEnd)

/-- `calculate_monthly_returns`. -/
def calculateMonthlyReturns (equityCurve : List CurveEntry) : OrderedDict String ℚ :=
  let months := monthValues equityCurve
  ((months.keys.insertionSort (· ≤ ·)).foldl (monthStep months) ({}, none)).1

/-- `years`: the returns of the months of each year. -/
def yearReturns (monthly : OrderedDict String ℚ) : OrderedDict String (List ℚ) :=
  OrderedDict.collect (monthly.items.map fun entry => (firstChars 4 entry.1, entry.2))

/-- `compound`: the factors of the months multiplied together. -/
def compoundReturns (rets : List ℚ) : ℚ :=
  rets.foldl (fun compound r => compound * (1 + r)) 1

/-- `calculate_yearly_returns`. -/
def calculateYearlyReturns (equityCurve : List CurveEntry) : OrderedDict String ℚ :=
  let years := yearReturns (calculateMonthlyReturns equityCurve)
  (years.keys.insertionSort (· ≤ ·)).foldl
    (fun result year =>
      result.assign year (pyRound (compoundReturns ((years.get year).getD []) - 1) 4)) {}

/-! ## §5 Trade distribution -/

/-- What `_histogram` returns. -/
structure Histogram where
  binEdges : List ℚ
  counts : List ℕ
  deriving DecidableEq

/-- The bin a value is counted in; the largest value is in the last one. -/
def binIndex (minVal maxVal binWidth : ℚ) (bins : ℕ) (v : ℚ) : ℕ :=
  if v = maxVal then bins - 1
  else (min (truncate ((v - minVal) / binWidth)) (bins - 1)).toNat

/-- `_histogram`; its callers ask for 10 and for 8 bins. -/
def histogram (values : List ℚ) (bins : ℕ) : Histogram :=
  match values with
  | [] => { binEdges := [], counts := [] }
  | first :: rest =>
      let minVal := rest.foldl min first
      let maxVal := rest.foldl max first
      if minVal = maxVal then
        { binEdges := [minVal, maxVal + 1].map fun e => pyRound e 2
          counts := [(first :: rest).length] }
      else
        let binWidth := (maxVal - minVal) / bins
        { binEdges := (List.range (bins + 1)).map fun i => pyRound (minVal + i * binWidth) 2
          counts := (first :: rest).foldl
            (fun counts v => counts.modify (binIndex minVal maxVal binWidth bins v) (· + 1))
            (List.replicate bins 0) }

/-- `_percentiles`. -/
def percentiles (sortedValues : List ℚ) : List (String × ℚ) :=
  let n := sortedValues.length
  let p (pct : ℕ) : ℚ := pyRound (sortedValues.getD (min (n * pct / 100) (n - 1)) 0) 2
  if sortedValues = [] then []
  else
    [("p25", p 25), ("p50", p 50), ("p75", p 75), ("p90", p 90), ("p95", p 95), ("p99", p 99)]

/-- What `calculate_trade_distribution` returns. -/
structure TradeDistribution where
  pnlBins : List ℚ
  pnlCounts : List ℕ
  pnlPercentiles : List (String × ℚ)
  durationBins : List ℚ
  durationCounts : List ℕ
  durationPercentiles : List (String × ℚ)
  avgPnl : ℚ
  avgDuration : ℚ
  deriving DecidableEq

/-- `calculate_trade_distribution`. -/
def calculateTradeDistribution (trades : List TradeEntry) : TradeDistribution :=
  if trades = [] then
    { pnlBins := [], pnlCounts := [], pnlPercentiles := [], durationBins := []
      durationCounts := [], durationPercentiles := [], avgPnl := 0, avgDuration := 0 }
  else
    let pnls := trades.map TradeEntry.profit
    let durations := trades.map TradeEntry.duration
    let pnlHist := histogram pnls 10
    let durHist := histogram durations 8
    { pnlBins := pnlHist.binEdges
      pnlCounts := pnlHist.counts
      pnlPercentiles := percentiles (pnls.insertionSort (· ≤ ·))
      durationBins := durHist.binEdges
      durationCounts := durHist.counts
      durationPercentiles := percentiles (durations.insertionSort (· ≤ ·))
      avgPnl := pyRound (pnls.sum / pnls.length) 2
      avgDuration := pyRound (durations.sum / durations.length) 1 }

end Finbar.Backtest
