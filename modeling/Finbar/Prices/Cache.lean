/-
Finbar.Prices.Cache — the cache of price bars: `SqlPriceCacheRepository` and the use
cases over it, `FetchPricesUseCase`, `QueryCachedPricesUseCase`,
`DeleteCachedPricesUseCase` and `ListCachedSymbolsUseCase`.

The table is the list of its rows, in the order of their ids; a transaction is one
step. A row has the columns of a `PriceBar`, the symbol in capitals. The fetcher,
`str.upper` and what the database raises are parameters. SQLite compares texts by
their bytes, which is the order of their code points.

No `sorry`, no `axiom`.
-/
import Finbar.Fetch.Hyperliquid
import Finbar.Lib.Steps
import Finbar.Lib.Table
import Mathlib.Data.String.Basic

namespace Finbar.Prices

open Lib.Python Lib.Steps Lib.Table Finbar.Fetch

/-! ## §1 Enumerations -/

/-- `DataSource`. -/
inductive DataSource where
  | yfinance
  | hyperliquid
  deriving DecidableEq

instance : StrEnum DataSource where
  members := [.yfinance, .hyperliquid]
  value
    | .yfinance => "yfinance"
    | .hyperliquid => "hyperliquid"
  value_ne_empty a := by cases a <;> decide
  find_value a := by cases a <;> decide

/-- `Interval`. -/
inductive Interval where
  | minute5
  | minute30
  | hour1
  | day1
  | week1
  deriving DecidableEq

instance : StrEnum Interval where
  members := [.minute5, .minute30, .hour1, .day1, .week1]
  value
    | .minute5 => "5min"
    | .minute30 => "30min"
    | .hour1 => "1h"
    | .day1 => "1d"
    | .week1 => "1w"
  value_ne_empty a := by cases a <;> decide
  find_value a := by cases a <;> decide

/-- The values of an enumeration. -/
def values (α : Type) [StrEnum α] : List String :=
  (StrEnum.members (α := α)).map StrEnum.value

/-- `DataSource(value)`, or `Interval(value)`, for its exception; the value is written
with `repr`. -/
def checkMember (α : Type) [StrEnum α] (owner value : String) : Except PyError Unit :=
  if value ∈ values α then .ok ()
  else .error (.valueError { template := "% is not a valid %", args := [.text value, .text owner] })

/-- The error of a source or an interval that is none, as both `_validate_request` and
`_validate_query` write it. -/
def validateSourceAndInterval (source interval : String) : Option Message :=
  if source ∉ values DataSource then
    some { template := "Unknown source '%'. Allowed: %"
           args := [.text source, .texts (values DataSource)] }
  else if interval ∉ values Interval then
    some { template := "Unknown interval '%'. Allowed: %"
           args := [.text interval, .texts (values Interval)] }
  else none

/-- An optional filter, where `if value:` holds. -/
def given (value : Option String) : Option String :=
  value.filter fun text => decide (text ≠ "")

/-! ## §2 The repository -/

section Repository

variable (upper : String → String)

/-- `_domain_to_orm`. -/
def domainToOrm (bar : PriceBar) : PriceBar :=
  { bar with symbol := upper bar.symbol }

/-- The columns of `uq_price_bar`. -/
def uniqueKey (row : PriceBar) : String × String × String × String :=
  (row.symbol, row.source, row.interval, row.timestamp)

/-- Whether the columns take the row: a NaN is bound as NULL, which the price columns
refuse, and an integer has 64 bits. -/
def storable (row : PriceBar) : Bool :=
  !row.openPrice.isNan && !row.high.isNan && !row.low.isNan && !row.close.isNan &&
    row.volume.all fun volume => decide (-2 ^ 63 ≤ volume ∧ volume < 2 ^ 63)

/-- `save_bars`, with what the database raises. The rows go in by one `executemany`; any
exception rolls all of them back. -/
def saveBars (fault : Option PyError) (bars : List PriceBar) (rows : List PriceBar) :
    ℕ × List PriceBar :=
  if bars.isEmpty then (0, rows)
  else
    let values := bars.map (domainToOrm upper)
    if fault.isSome || !values.all storable then (0, rows)
    else (values.length, values.foldl (insertOrReplace uniqueKey) rows)

/-- The `WHERE` clause of one symbol, source and interval. -/
def ofSeries (symbol source interval : String) (row : PriceBar) : Bool :=
  decide (row.symbol = upper symbol ∧ row.source = source ∧ row.interval = interval)

/-- The `WHERE` clauses of the dates. -/
def within (startDate endDate : Option String) (row : PriceBar) : Bool :=
  (given startDate).all (fun start => decide (start ≤ row.timestamp)) &&
    (given endDate).all fun last => decide (row.timestamp ≤ last)

/-- `query_bars`. -/
def queryBars (symbol source interval : String) (startDate endDate : Option String)
    (rows : List PriceBar) : List PriceBar :=
  select PriceBar.timestamp
    (fun row => ofSeries upper symbol source interval row && within startDate endDate row) rows

/-- The `WHERE` clauses of `delete_bars`. -/
def doomed (symbol : String) (source interval beforeDate : Option String) (row : PriceBar) :
    Bool :=
  decide (row.symbol = upper symbol) &&
    (given source).all (fun value => decide (row.source = value)) &&
    (given interval).all (fun value => decide (row.interval = value)) &&
    (given beforeDate).all fun date => decide (row.timestamp < date)

/-- `delete_bars`: the count, and the rows that stay. -/
def deleteBars (fault : Option PyError) (symbol : String)
    (source interval beforeDate : Option String) (rows : List PriceBar) :
    Except PyError (ℕ × List PriceBar) :=
  match fault with
  | some exc => .error exc
  | none =>
      .ok (rows.countP (doomed upper symbol source interval beforeDate),
        rows.filter fun row => !doomed upper symbol source interval beforeDate row)

/-- `list_symbols`. -/
def listSymbols (source : Option String) (rows : List PriceBar) : List String :=
  select id (fun _ => true)
    ((rows.filter fun row => (given source).all fun value => decide (row.source = value)).map
      PriceBar.symbol).dedup

/-- `get_latest_bar`. -/
def getLatestBar (symbol source interval : String) (rows : List PriceBar) : Option PriceBar :=
  (select (fun row => OrderDual.toDual row.timestamp) (ofSeries upper symbol source interval)
    rows).head?

end Repository

/-! ## §3 Use cases -/

section UseCases

variable (upper : String → String)

/-- `FetchPricesRequest`. -/
structure FetchPricesRequest where
  symbol : String
  source : String
  interval : String
  startDate : Option String := none
  endDate : Option String := none
  deriving DecidableEq

/-- `FetchPricesResult`. -/
structure FetchPricesResult where
  symbol : String
  source : String
  interval : String
  bars : List PriceBar
  barCount : ℕ
  origin : String
  error : Option Message := none
  deriving DecidableEq

/-- `StockDataFetcher.fetch`, of a symbol, an interval and two dates. -/
abbrev Fetcher : Type :=
  String → String → Option String → Option String → Except PyError (List PriceBar)

/-- `FetchPricesUseCase.execute`. -/
def fetchPrices (fetcher : Fetcher) (fault : Option PyError) (request : FetchPricesRequest)
    (rows : List PriceBar) : Except PyError (FetchPricesResult × List PriceBar) :=
  let refused (error : Message) : FetchPricesResult :=
    { symbol := request.symbol, source := request.source, interval := request.interval
      bars := [], barCount := 0, origin := "fresh", error := some error }
  match validateSourceAndInterval request.source request.interval with
  | some error => .ok (refused error, rows)
  | none => do
      let bars ← fetcher request.symbol request.interval request.startDate request.endDate
      if bars.isEmpty then
        return (refused { template := "No data returned from source" }, rows)
      -- The number of bars saved is only logged.
      let saved := saveBars upper fault bars rows
      return ({ symbol := request.symbol, source := request.source, interval := request.interval
                bars := bars, barCount := bars.length, origin := "fresh" }, saved.2)

/-- `CachedPricesResult`. -/
structure CachedPricesResult where
  symbol : String
  source : String
  interval : String
  bars : List PriceBar
  barCount : ℕ
  error : Option Message := none
  deriving DecidableEq

/-- `QueryCachedPricesUseCase.execute`. -/
def queryCachedPrices (symbol source interval : String) (startDate endDate : Option String)
    (rows : List PriceBar) : CachedPricesResult :=
  match validateSourceAndInterval source interval with
  | some error =>
      { symbol := symbol, source := source, interval := interval, bars := [], barCount := 0
        error := some error }
  | none =>
      let bars := queryBars upper symbol source interval startDate endDate rows
      { symbol := symbol, source := source, interval := interval, bars := bars
        barCount := bars.length }

/-- `_validate_delete_filters`. -/
def validateDeleteFilters (source interval : Option String) : Except PyError Unit := do
  if let some value := source then checkMember DataSource "DataSource" value
  if let some value := interval then checkMember Interval "Interval" value

/-- `DeleteCachedPricesUseCase.execute`. -/
def deleteCachedPrices (fault : Option PyError) (symbol : String)
    (source interval beforeDate : Option String) (rows : List PriceBar) :
    Except PyError (ℕ × List PriceBar) := do
  validateDeleteFilters source interval
  deleteBars upper fault symbol source interval beforeDate rows

/-- `ListCachedSymbolsUseCase.execute`. -/
def listCachedSymbols (source : Option String) (rows : List PriceBar) :
    Except PyError (List String) := do
  if let some value := source then checkMember DataSource "DataSource" value
  return listSymbols source rows

end UseCases

/-! ## §4 Runs -/

/-- What may happen to the cache, with what the database raises on the way. -/
inductive Action where
  | fetchPrices (fetcher : Fetcher) (fault : Option PyError) (request : FetchPricesRequest)
  | deleteCachedPrices (fault : Option PyError) (symbol : String)
      (source interval beforeDate : Option String)

/-- The table after a call; one that raises leaves it as it was. -/
def step (upper : String → String) (rows : List PriceBar) : Action → List PriceBar
  | .fetchPrices fetcher fault request =>
      match fetchPrices upper fetcher fault request rows with
      | .ok (_, rows') => rows'
      | .error _ => rows
  | .deleteCachedPrices fault symbol source interval beforeDate =>
      match deleteCachedPrices upper fault symbol source interval beforeDate rows with
      | .ok (_, rows') => rows'
      | .error _ => rows

/-- The table of a cache that was empty, after calls one after another. -/
def cacheAfter (upper : String → String) (actions : List Action) : List PriceBar :=
  run (step upper) [] actions

end Finbar.Prices
