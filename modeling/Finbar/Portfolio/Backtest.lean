/-
Finbar.Portfolio.Backtest — `RunPortfolioBacktestUseCase`: one backtest for
each asset, aggregated into a portfolio result.

The strategy provider, the frame converter and the engine are the ones the
use case is built with. `errors` is kept as the list of its messages, which
the source joins with "; ".

No `sorry`, no `axiom`.
-/
import Finbar.Backtest.Engine
import Finbar.Lib.OrderedDict

namespace Finbar.Portfolio

open Lib Lib.Python Finbar.Simulation Finbar.Backtest

/-! ## §1 Requests and results -/

/-- `AssetAllocation`; `β` is the type of a bar dictionary. -/
structure AssetAllocation (β : Type) where
  symbol : String := ""
  strategyName : String := ""
  weight : ℚ := 1
  bars : List β := []

/-- `PortfolioBacktestRequest`. -/
structure PortfolioBacktestRequest (β : Type) where
  assets : List (AssetAllocation β) := []
  initialCash : ℚ := 100000
  interval : String := ""
  execution : ExecutionConfig := {}
  riskPerTrade : ℚ := 2 / 100

/-- An entry of the portfolio's equity curve. -/
structure PortfolioPoint where
  date : String
  value : ℚ
  drawdown : ℚ
  deriving DecidableEq, Repr

/-- `PortfolioResult`; `error` is empty for a result that has none. -/
structure PortfolioResult where
  totalReturn : ℚ := 0
  sharpeRatio : ℚ := 0
  maxDrawdown : ℚ := 0
  equityCurve : List PortfolioPoint := []
  perAssetResults : OrderedDict String EngineOutput := {}
  correlationMatrix : List (List ℚ) := []
  error : List Message := []

/-- What the use case is created with. -/
structure PortfolioServices (β ι σ : Type) where
  /-- `strategy_provider.create(name)`: the strategy with its memory. -/
  create : String → Except PyError (Option (TradingStrategy σ × σ))
  /-- `converter.bars_to_frame(bars)`. -/
  barsToFrame : List β → Except PyError (Option (Frame ι))
  /-- `engine.run(df, strategy, initial_cash, **params)`. -/
  run : Frame ι → TradingStrategy σ → σ → ℚ → Kwargs → Except PyError EngineOutput
  floatMath : FloatMath

/-! ## §2 Aggregation -/

/-- `raw.get("equity_curve", [])`. -/
def equityCurveOf : EngineOutput → List EquityPoint
  | .error _ => []
  | .result result => result.equityCurve

/-- `first_value[sym]`. -/
def firstValue (eq : List EquityPoint) : ℚ :=
  (eq.head?.map EquityPoint.value).getD 0

/-- `indexed[sym]`: the curve's values by date. -/
def indexedCurve (eq : List EquityPoint) : OrderedDict String ℚ :=
  OrderedDict.assignAll {} (eq.map fun e => (e.date, e.value))

/-- The dates of a curve that `_all_dates` collects: those that are not
empty. -/
def curveDates (eq : List EquityPoint) : List String :=
  (eq.map EquityPoint.date).filter fun date => decide (date ≠ "")

/-- `sorted(_all_dates(curves))`. -/
def orderedDates (curves : OrderedDict String (List EquityPoint)) : List String :=
  ((curves.items.flatMap fun entry => curveDates entry.2).dedup).insertionSort (· ≤ ·)

/-- The curve of one asset while it is aggregated: `indexed[sym]` and
`carried[sym]`. -/
structure Track where
  indexed : OrderedDict String ℚ
  carried : ℚ

/-- The asset's value at a date: a value of that date, or the last one
seen. -/
def Track.at (track : Track) (date : String) : Track :=
  { track with carried := (track.indexed.get date).getD track.carried }

/-- The track of a curve before the first date. -/
def Track.start (eq : List EquityPoint) : Track :=
  { indexed := indexedCurve eq, carried := firstValue eq }

/-- The local state of `_aggregate_equity`'s loop. -/
structure Aggregation where
  tracks : List Track
  peak : ℚ
  portfolioEq : List PortfolioPoint := []

/-- `if total_value == 0: total_value = initial_cash`. -/
def orInitialCash (initialCash totalValue : ℚ) : ℚ :=
  if totalValue = 0 then initialCash else totalValue

/-- One date of the loop. -/
def aggregateDate (initialCash : ℚ) (state : Aggregation) (date : String) : Aggregation :=
  let tracks := state.tracks.map fun track => track.at date
  let totalValue := orInitialCash initialCash (tracks.map Track.carried).sum
  let peak := max state.peak totalValue
  let drawdown := if 0 < peak then (peak - totalValue) / peak else 0
  { tracks := tracks
    peak := peak
    portfolioEq := state.portfolioEq ++
      [{ date := date, value := pyRound totalValue 2, drawdown := pyRound drawdown 4 }] }

/-- The metrics that `_aggregate_equity` returns; the defaults are those of
`portfolio_metrics.get`. -/
structure PortfolioMetrics where
  totalReturn : ℚ := 0
  sharpeRatio : ℚ := 0
  maxDrawdown : ℚ := 0

/-- `_aggregate_equity`. -/
def aggregateEquity (fm : FloatMath) (curves : OrderedDict String (List EquityPoint))
    (initialCash : ℚ) (interval : String) (marketCalendar : MarketCalendar) :
    List PortfolioPoint × PortfolioMetrics :=
  let dates := orderedDates curves
  if dates = [] then ([], {})
  else
    let start : Aggregation :=
      { tracks := curves.items.map fun entry => Track.start entry.2, peak := initialCash }
    let portfolioEq := (dates.foldl (aggregateDate initialCash) start).portfolioEq
    let values := portfolioEq.map PortfolioPoint.value
    let finalValue := values.getLast?.getD initialCash
    let totalReturn := if 0 < initialCash then (finalValue - initialCash) / initialCash else 0
    let dailyReturns := if 1 < values.length then calculateDailyReturns values else []
    let maxDd := calculateMaxDrawdown values
    let annFactor := (annualizationFactor interval marketCalendar).1
    let sharpe := if dailyReturns = [] then 0 else calculateSharpe fm dailyReturns annFactor
    (portfolioEq,
      { totalReturn := pyRound totalReturn 4
        sharpeRatio := pyRound sharpe 4
        maxDrawdown := pyRound maxDd 4 })

/-- The second loop of `_value_at`: the value before the first later date. -/
def carryForward (date : String) : ℚ → List EquityPoint → ℚ
  | prev, [] => prev
  | prev, e :: eq => if date < e.date then prev else carryForward date e.value eq

/-- `_value_at(eq, date)`. -/
def valueAt (eq : List EquityPoint) (date : String) : ℚ :=
  if eq = [] then 0
  else
    match eq.find? fun e => decide (e.date = date) with
    | some e => e.value
    | none => carryForward date (firstValue eq) eq

/-! ## §3 Correlation -/

/-- `_compute_returns`: bar-to-bar returns by date. -/
def computeReturns (eq : List EquityPoint) : OrderedDict String ℚ :=
  OrderedDict.assignAll {} ((eq.zip eq.tail).filterMap fun (prev, curr) =>
    if 0 < prev.value ∧ curr.date ≠ "" then
      some (curr.date, (curr.value - prev.value) / prev.value)
    else none)

/-- `pearson`. -/
def pearson (fm : FloatMath) (xs ys : List ℚ) : ℚ :=
  let n := min xs.length ys.length
  if n < 2 then 0
  else
    let mx := (xs.take n).sum / n
    let my := (ys.take n).sum / n
    let cov := (List.zipWith (fun x y => (x - mx) * (y - my)) xs ys).sum
    let vx := ((xs.take n).map fun x => (x - mx) ^ 2).sum
    let vy := ((ys.take n).map fun y => (y - my) ^ 2).sum
    if vx = 0 ∨ vy = 0 then 0 else cov / fm.pow (vx * vy) (1 / 2)

/-- `_date_aligned_pearson`. -/
def dateAlignedPearson (fm : FloatMath) (xs ys : OrderedDict String ℚ) : ℚ :=
  let common := (xs.keys.filter fun date => decide (date ∈ ys.keys)).insertionSort (· ≤ ·)
  if common.length < 2 then 0
  else pearson fm (common.filterMap xs.get) (common.filterMap ys.get)

/-- `_correlation_matrix`. -/
def correlationMatrix (fm : FloatMath) (returnsList : List (OrderedDict String ℚ)) :
    List (List ℚ) :=
  if returnsList.length < 2 then [[1]]
  else
    returnsList.zipIdx.map fun (xs, i) => returnsList.zipIdx.map fun (ys, j) =>
      if i = j then 1 else dateAlignedPearson fm xs ys

/-! ## §4 The use case -/

section

variable {β ι σ : Type} (services : PortfolioServices β ι σ)
  (request : PortfolioBacktestRequest β)

/-- `total_weight`. -/
def PortfolioBacktestRequest.totalWeight : ℚ :=
  (request.assets.map AssetAllocation.weight).sum

/-- `allocated_cash`. -/
def allocatedCash (asset : AssetAllocation β) : ℚ :=
  request.initialCash * (asset.weight / request.totalWeight)

/-- The keyword arguments of `engine.run`. -/
def portfolioKwargs : Kwargs :=
  let execution := request.execution
  [("interval", .str request.interval),
    ("risk_per_trade", .ofRat request.riskPerTrade),
    ("leverage", .ofRat execution.leverageMultiplier),
    ("risk_mode", .str (StrEnum.value execution.riskMode)),
    ("commission_pct", .ofRat execution.commissionPct),
    ("slippage_pct", .ofRat execution.slippagePct),
    ("cap_explicit_size", .bool execution.capExplicitSize),
    ("reject_oversized_explicit_orders", .bool execution.rejectOversizedExplicitOrders),
    ("allow_negative_cash", .bool execution.allowNegativeCash),
    ("market_calendar", .str (StrEnum.value execution.marketCalendar)),
    ("borrow_fee_annual_pct", .ofRat execution.borrowFeeAnnualPct),
    ("margin_mode", .str (StrEnum.value execution.marginMode)),
    ("maintenance_margin_pct", .ofRat execution.maintenanceMarginPct),
    ("enable_funding", .bool execution.enableFunding),
    ("funding_rate", .ofRat execution.fundingRate)]

/-- What the loop gets for an asset: an entry of `errors`, or what the
engine returned. Only the engine runs inside the `try`. -/
def assetOutput (asset : AssetAllocation β) :
    Except PyError (Except Message EngineOutput) := do
  match ← services.create asset.strategyName with
  | none =>
      return .error { template := "Strategy not found: %", args := [.text asset.strategyName] }
  | some (strategy, memory) =>
      if asset.bars.isEmpty then
        return .error { template := "No bars for: %", args := [.text asset.symbol] }
      else
        match ← services.barsToFrame asset.bars with
        | none => return .error { template := "Empty frame for: %", args := [.text asset.symbol] }
        | some frame =>
            if frame.rows.isEmpty then
              return .error { template := "Empty frame for: %", args := [.text asset.symbol] }
            else
              match services.run frame strategy memory (allocatedCash request asset)
                (portfolioKwargs request) with
              | .ok raw => return .ok raw
              | .error exc =>
                  return .error
                    { template := "%: " ++ exc.message.template
                      args := .text asset.symbol :: exc.message.args }

/-- The dictionaries that the loop over the assets fills. -/
structure Collected where
  perAsset : OrderedDict String EngineOutput := {}
  equityCurves : OrderedDict String (List EquityPoint) := {}
  allReturns : OrderedDict String (OrderedDict String ℚ) := {}
  errors : List Message := []

/-- Keep what the engine returned for a symbol. -/
def Collected.record (collected : Collected) (symbol : String) (raw : EngineOutput) :
    Collected :=
  let eq := equityCurveOf raw
  let returns := computeReturns eq
  { perAsset := collected.perAsset.assign symbol raw
    equityCurves :=
      if eq = [] then collected.equityCurves else collected.equityCurves.assign symbol eq
    allReturns :=
      if eq = [] ∨ returns.items = [] then collected.allReturns
      else collected.allReturns.assign symbol returns
    errors := collected.errors }

/-- The body of the loop over the assets. -/
def collectAsset (collected : Collected) (asset : AssetAllocation β) :
    Except PyError Collected := do
  match ← assetOutput services request asset with
  | .error message => return { collected with errors := collected.errors ++ [message] }
  | .ok raw => return collected.record asset.symbol raw

/-- `execute`. -/
def execute : Except PyError PortfolioResult :=
  if request.assets = [] then
    .ok { error := [{ template := "No assets in portfolio" }] }
  else if request.totalWeight ≤ 0 then
    .ok { error := [{ template := "Total portfolio weight must be positive" }] }
  else do
    let collected ← request.assets.foldlM (collectAsset services request) {}
    if collected.equityCurves.items = [] then
      return { error :=
        if collected.errors = [] then [{ template := "All assets failed" }]
        else collected.errors }
    else
      let (portfolioEq, metrics) := aggregateEquity services.floatMath collected.equityCurves
        request.initialCash (if request.interval = "" then "1d" else request.interval)
        request.execution.marketCalendar
      return {
        totalReturn := metrics.totalReturn
        sharpeRatio := metrics.sharpeRatio
        maxDrawdown := metrics.maxDrawdown
        equityCurve := portfolioEq
        perAssetResults := collected.perAsset
        correlationMatrix := correlationMatrix services.floatMath
          (collected.allReturns.items.map Prod.snd) }

end

end Finbar.Portfolio
