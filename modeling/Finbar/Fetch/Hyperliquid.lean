/-
Finbar.Fetch.Hyperliquid — `HyperliquidFetcher`: the paginated requests for
candles, backwards (`_fetch_max_history`) and forwards (`_fetch_date_range`).

The client of the exchange is a parameter (`Info`), as is
`datetime.fromisoformat`. The rate limiter only makes a request wait. Times are
milliseconds since the epoch; those beyond the years of a `datetime` are out of
range however far they are.

No `sorry`, no `axiom`.
-/
import Finbar.Lib.Calendar
import Finbar.Lib.Entries
import Finbar.Lib.Paging
import Finbar.Lib.PyValue
import Finbar.Simulation.PositionCloser

namespace Finbar.Fetch

open Lib.Python Lib.Calendar Lib.Paging Finbar.Simulation

/-! ## §1 Intervals -/

/-- `INTERVAL_MAP`. -/
def intervalMap : List (String × String) :=
  [("5min", "5m"), ("30min", "30m"), ("1h", "1h"), ("1d", "1d"), ("1w", "1w")]

/-- `MAX_BARS`. -/
def maxBars : List (String × ℤ) :=
  [("5min", 5000), ("30min", 5000), ("1h", 5000), ("1d", 5000), ("1w", 5000)]

/-- `INTERVAL_MS`. -/
def intervalMs : List (String × ℤ) :=
  [("5min", 5 * 60 * 1000), ("30min", 30 * 60 * 1000), ("1h", 60 * 60 * 1000),
    ("1d", 24 * 60 * 60 * 1000), ("1w", 7 * 24 * 60 * 60 * 1000)]

/-- `chunk_ms`. -/
def chunkMs (interval : String) : ℤ :=
  (intervalMs.lookup interval).getD (60 * 60 * 1000) * (maxBars.lookup interval).getD 1000

/-! ## §2 Candles and bars -/

/-- A candle of the exchange: its open time, prices and volume. -/
structure Candle where
  t : Option ℤ := none
  o : PyValue := .ofRat 0
  h : PyValue := .ofRat 0
  l : PyValue := .ofRat 0
  c : PyValue := .ofRat 0
  v : PyValue := .none

/-- `PriceBar`. -/
structure PriceBar where
  symbol : String
  source : String
  interval : String
  timestamp : String
  openPrice : PyFloat
  high : PyFloat
  low : PyFloat
  close : PyFloat
  volume : Option ℤ
  deriving DecidableEq

/-- `int` of an infinity, which `_process_candles` does not catch. -/
inductive OverflowError where
  | infinity

/-- The days from the first of January of the year 1 to a time. -/
def daysTo (ms : ℤ) : ℤ :=
  ms / 86400000 + 719162

/-- Whether `datetime.fromtimestamp(ms / 1000, tz=UTC)` has a year from 1 to 9999. -/
def inDatetimeRange (ms : ℤ) : Bool :=
  decide (0 ≤ daysTo ms ∧ daysTo ms < 3652059)

/-- The time as `strftime("%Y-%m-%dT%H:%M:%S.%f")` writes it. -/
def timestampText (ms : ℤ) : String :=
  let date := dateOf (daysTo ms).toNat
  let clock := (ms % 86400000).toNat
  String.ofList
    (digits 4 date.year ++ '-' :: (digits 2 date.month ++ '-' :: (digits 2 date.day ++
      'T' :: (digits 2 (clock / 3600000) ++ ':' :: (digits 2 (clock / 60000 % 60) ++
        ':' :: (digits 2 (clock / 1000 % 60) ++ '.' :: digits 6 (clock % 1000 * 1000)))))))

/-- `validate_bar`. -/
def validateBar (openPrice high low close : PyFloat) (volume : Option ℤ) : Bool :=
  if high.lt low || high.le (.fin 0) || low.le (.fin 0) then false
  else if close.le (.fin 0) || openPrice.le (.fin 0) then false
  else if high.lt openPrice || high.lt close || openPrice.lt low || close.lt low then false
  else if volume.any fun v => decide (v < 0) then false
  else true

/-- `int(float(v_raw)) if v_raw is not None else None`; `none` is an exception
that skips the candle. -/
def readVolume (v : PyValue) : Except OverflowError (Option (Option ℤ)) :=
  match v with
  | .none => .ok (some none)
  | v =>
      match v.toFloat with
      | .error _ => .ok none
      | .ok (.fin q) => .ok (some (some (truncate q)))
      | .ok .nan => .ok none
      | .ok _ => .error .infinity

/-- The prices `o`, `h`, `l` and `c`. -/
def readPrices (candle : Candle) : Except PyError (PyFloat × PyFloat × PyFloat × PyFloat) := do
  let o ← candle.o.toFloat
  let h ← candle.h.toFloat
  let lo ← candle.l.toFloat
  let c ← candle.c.toFloat
  return (o, h, lo, c)

/-- One pass of the loop of `_process_candles`; `none` skips the candle. -/
def processCandle (symbol interval : String) (candle : Candle) :
    Except OverflowError (Option PriceBar) :=
  match candle.t with
  | none => .ok none
  | some t =>
      if t = 0 ∨ !inDatetimeRange t then .ok none
      else
        match readPrices candle with
        | .error _ => .ok none
        | .ok (o, h, lo, c) => do
            let volume ← readVolume candle.v
            match volume with
            | none => return none
            | some v =>
                if !validateBar o h lo c v then return none
                else
                  return some
                    { symbol := symbol
                      source := "hyperliquid"
                      interval := interval
                      timestamp := timestampText t
                      openPrice := o
                      high := h
                      low := lo
                      close := c
                      volume := v }

/-- `_process_candles`. -/
def processCandles (candles : List Candle) (symbol interval : String) :
    Except OverflowError (List PriceBar) := do
  let bars ← candles.mapM (processCandle symbol interval)
  return bars.filterMap id

/-! ## §3 Requests -/

/-- The calls of the client: `candles_snapshot`, and a `post` of a
`candleSnapshot` request, whose answer may be no list. -/
structure Info where
  candlesSnapshot : String → String → ℤ → ℤ → Except PyError (List Candle)
  postCandleSnapshot : String → String → ℤ → ℤ → Except PyError (Option (List Candle))

/-- `_fetch_hip3_chunk`. -/
def fetchHip3Chunk (info : Info) (symbol apiInterval : String) (startMs endMs : ℤ) :
    Except PyError (List Candle) := do
  let parts := symbol.toList.splitOn ':'
  let dexName := (parts.getD 0 []).map Char.toLower
  let coin := (parts.getD 1 []).map Char.toUpper
  let apiSymbol := String.ofList (dexName ++ ':' :: coin)
  let result ← info.postCandleSnapshot apiSymbol apiInterval startMs endMs
  return result.getD []

/-- The request of `_fetch_chunk`. -/
def requestCandles (info : Info) (symbol interval : String) (startMs endMs : ℤ) :
    Except PyError (List Candle) :=
  let apiInterval := (intervalMap.lookup interval).getD "1h"
  if symbol.toList.contains ':' then fetchHip3Chunk info symbol apiInterval startMs endMs
  else info.candlesSnapshot symbol apiInterval startMs endMs

/-- `_fetch_chunk`; `none` after any exception. -/
def fetchChunk (info : Info) (symbol interval : String) (startMs endMs : ℤ) :
    Option (List PriceBar) :=
  match requestCandles info symbol interval startMs endMs with
  | .error _ => none
  | .ok candles => (processCandles candles symbol interval).toOption

/-! ## §4 Pagination -/

/-- The exceptions of the two paginations. -/
inductive FetchError where
  | runtimeError (message : Message)
  | valueError (message : Message)
  deriving DecidableEq

/-- The exception after a chunk that failed. -/
def chunkFailed (symbol : String) : FetchError :=
  .runtimeError { template := "Failed to fetch % chunk", args := [.text symbol] }

/-- `_deduplicate_bars`. -/
def deduplicateBars (bars : List PriceBar) : List PriceBar :=
  keepFirst PriceBar.timestamp [] bars

/-- `max_chunks`. -/
def maxChunks : ℕ := 200

/-- The loop of `_fetch_max_history`: so many chunks more, back from `chunkEnd`.
At an empty chunk the message of the log writes its start as a `datetime`. -/
def maxHistoryLoop (info : Info) (symbol interval : String) :
    ℕ → ℤ → List PriceBar → Except FetchError (List PriceBar)
  | 0, _, temp => .ok temp
  | chunks + 1, chunkEnd, temp =>
      let chunkStart := chunkEnd - chunkMs interval
      match fetchChunk info symbol interval chunkStart chunkEnd with
      | none => .error (chunkFailed symbol)
      | some [] =>
          if inDatetimeRange chunkStart then .ok temp
          else .error (.valueError { template := "year is out of range" })
      | some (bar :: bars) =>
          maxHistoryLoop info symbol interval chunks chunkStart (temp ++ bar :: bars)

/-- `_fetch_max_history`, at a reading `now` of the clock in seconds. -/
def fetchMaxHistory (info : Info) (now : ℚ) (symbol interval : String) :
    Except FetchError (List PriceBar) := do
  let temp ← maxHistoryLoop info symbol interval maxChunks (truncate (now * 1000)) []
  return deduplicateBars temp.reverse

/-- A value of a table, or a default, with the bounds that they all have. -/
theorem getD_lookup_bounds {table : List (String × ℤ)} {default bound : ℤ}
    (hdefault : 0 < default ∧ default ≤ bound)
    (htable : ∀ entry ∈ table, 0 < entry.2 ∧ entry.2 ≤ bound) (key : String) :
    0 < (table.lookup key).getD default ∧ (table.lookup key).getD default ≤ bound := by
  cases hfound : table.lookup key with
  | none => exact hdefault
  | some value => exact htable (key, value) (Lib.mem_of_lookup hfound)

/-- A chunk is at most 5000 weeks long. -/
theorem chunkMs_bounds (interval : String) :
    0 < chunkMs interval ∧ chunkMs interval ≤ 604800000 * 5000 := by
  obtain ⟨hmsPos, hms⟩ := @getD_lookup_bounds intervalMs (60 * 60 * 1000) 604800000
    (by decide) (by decide) interval
  obtain ⟨hbarsPos, hbars⟩ := @getD_lookup_bounds maxBars 1000 5000 (by decide) (by decide)
    interval
  exact ⟨mul_pos hmsPos hbarsPos, mul_le_mul hms hbars hbarsPos.le (by decide)⟩

/-- The limit of `_fetch_date_range`. -/
def barLimit : ℕ := 50000

/-- The loop of `_fetch_date_range`. -/
def dateRangeLoop (info : Info) (symbol interval : String) (endMs currentStart : ℤ)
    (allBars : List PriceBar) : Except FetchError (List PriceBar) :=
  if currentStart < endMs then
    match fetchChunk info symbol interval currentStart
        (min (currentStart + chunkMs interval) endMs) with
    | none => .error (chunkFailed symbol)
    | some bars =>
        if barLimit < (allBars ++ bars).length then .ok (allBars ++ bars)
        else
          dateRangeLoop info symbol interval endMs (min (currentStart + chunkMs interval) endMs)
            (allBars ++ bars)
  else .ok allBars
termination_by (endMs - currentStart).toNat
decreasing_by
  have hchunk := (chunkMs_bounds interval).1
  omega

/-- `_to_utc`. -/
def toUtc (fromisoformat : String → Option DateTime) (dateStr : String) :
    Except FetchError DateTime :=
  match fromisoformat dateStr with
  | some date => .ok { date with aware := true }
  | none =>
      .error (.valueError
        { template := "Invalid isoformat string: %", args := [.text dateStr] })

/-- `_fetch_date_range`. -/
def fetchDateRange (info : Info) (fromisoformat : String → Option DateTime)
    (symbol interval startDate endDate : String) : Except FetchError (List PriceBar) := do
  let start ← toUtc fromisoformat startDate
  let stop ← toUtc fromisoformat endDate
  if stop.seconds ≤ start.seconds then
    throw (.valueError
      { template := "start_date (%) must be before end_date (%)"
        args := [.text startDate, .text endDate] })
  let bars ← dateRangeLoop info symbol interval (truncate (stop.seconds * 1000))
    (truncate (start.seconds * 1000)) []
  return deduplicateBars bars

end Finbar.Fetch
