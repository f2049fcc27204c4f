/-
Finbar.Enrichment.Enricher — `CausalMultiTimeframeStreamingEnricher`: one
streaming engine per timeframe, joined by an as-of merge.

`causalEnrichBars` has both of its modes: the sequential one feeds each
informative bar when a primary bar is due, the parallel one computes every
informative row first and seeds the cursors with them. The worker threads
share nothing, so their results are those of running them one after the
other, and the first alias whose worker raised decides the error.

What an update leaves behind when it raises is not modelled, since a run
ends there.

No `sorry`, no `axiom`.
-/
import Finbar.Enrichment.Cursor
import Finbar.Enrichment.Interval
import Finbar.Lib.OrderedDict
import Finbar.Streaming.Engine

namespace Finbar.Enrichment

open Lib Lib.Python Finbar.Streaming

/-! ## §1 Rows -/

/-- An enriched row: column names and values. -/
abbrev Row := OrderedDict String PyValue

/-- `_OHLCV`. -/
def ohlcv : List String := ["open", "high", "low", "close", "volume", "timestamp"]

/-- The entries of a bar dictionary. -/
def barItems (bar : StreamBar) : List (String × PyValue) :=
  [("open", .ofRat bar.openPrice), ("high", .ofRat bar.high), ("low", .ofRat bar.low),
    ("close", .ofRat bar.close), ("volume", .ofRat bar.volume)]
    ++ (bar.timestamp.map fun ts => ("timestamp", ts)).toList ++ bar.extra

/-- `_build_row`: a bar with its indicator values. -/
def buildRow (bar : StreamBar) (indicatorValues : OrderedDict String PyValue) : Row :=
  (OrderedDict.assignAll {} (barItems bar)).assignAll indicatorValues.items

/-- `_with_requested_columns`: the values, with requested names that are
missing as NaN. -/
def withRequestedColumns (values : List (String × PyValue)) (names : List String) :
    OrderedDict String PyValue :=
  (OrderedDict.assignAll {} (names.map fun name => (name, nan))).assignAll values

/-- Merge one column, unless it is one of the bar's own. -/
def mergeColumn (suffix : String) (merged : Row) (column : String × PyValue) : Row :=
  if column.1 ∈ ohlcv then merged else merged.assign (column.1 ++ suffix) column.2

/-- `_merge_informative`: the informative columns, suffixed. -/
def mergeInformative (merged infoRow : Row) (suffix : String) : Row :=
  infoRow.items.foldl (mergeColumn suffix) merged

/-! ## §2 The enricher -/

/-- `InformativeTimeframe`. -/
structure InformativeTimeframe where
  aliasName : String
  interval : String
  deriving DecidableEq, Repr

/-- `TimeframeDeclaration`. -/
structure TimeframeDeclaration where
  primary : String := ""
  informative : List InformativeTimeframe := []
  deriving DecidableEq, Repr

/-- What the enricher is given by the runtime and by pandas. -/
structure Environment where
  /-- The runtime of engines that have no window resolver. -/
  runtime : Runtime
  /-- `parse_bar_timestamps([ts])[0]`. -/
  parseTimestamp : PyValue → Except PyError Timestamp

/-- The arguments of the constructor. -/
structure EnricherSettings where
  /-- `definition.timeframes`. -/
  timeframes : Option TimeframeDeclaration
  primaryIndicators : List String
  informativeIndicators : OrderedDict String (List String)
  marketCalendar : String := ""

/-- `informative_indicators.get(alias, [])`. -/
def EnricherSettings.indicatorsOf (settings : EnricherSettings) (aliasName : String) :
    List String :=
  (settings.informativeIndicators.get aliasName).getD []

/-- What the enricher keeps for an informative alias: `_info_engines`,
`_info_suffixes` and `_info_cursors`; its offset is in the cursor. -/
structure InfoState where
  engine : Engine
  suffix : String
  cursor : AsOfInformativeCursor Row

/-- `CausalMultiTimeframeStreamingEnricher`. -/
structure Enricher where
  primaryEngine : Engine
  info : OrderedDict String InfoState

/-- `CausalEnrichedBar`. -/
structure CausalEnrichedBar where
  values : Row
  timestamp : Timestamp
  isReady : Bool

variable (env : Environment) (settings : EnricherSettings)

/-- `StreamingIndicatorEngine(indicators, window_resolver)`. -/
def newEngine (windowResolver : Option (String → Except PyError (Option ℕ)))
    (indicators : List String) : Except PyError Engine :=
  Engine.create { env.runtime with windowResolver := windowResolver } indicators

/-- The resolver of the primary engine (`_build_window_resolver`, called
when a market calendar is given). -/
def primaryResolver : Option (String → Except PyError (Option ℕ)) :=
  match settings.timeframes with
  | none => none
  | some timeframes =>
      if timeframes.primary = "" then none
      else windowResolverFor timeframes.primary settings.marketCalendar

/-- The state of a declared informative timeframe. -/
def newInfoState (item : InformativeTimeframe) : Except PyError InfoState := do
  let engine ← newEngine env (windowResolverFor item.interval settings.marketCalendar)
    (settings.indicatorsOf item.aliasName)
  let offset ← intervalOffset item.interval
  return { engine := engine, suffix := "_" ++ item.interval, cursor := { offset := offset } }

/-- `definition.timeframes.informative`, if there are timeframes. -/
def EnricherSettings.informative : List InformativeTimeframe :=
  (settings.timeframes.map TimeframeDeclaration.informative).getD []

/-- Add the state of a declared timeframe. -/
def addInfoState (info : OrderedDict String InfoState) (item : InformativeTimeframe) :
    Except PyError (OrderedDict String InfoState) := do
  let state ← newInfoState env settings item
  return info.assign item.aliasName state

/-- `__init__`. -/
def Enricher.create : Except PyError Enricher := do
  let primaryEngine ← newEngine env (primaryResolver settings) settings.primaryIndicators
  let info ← settings.informative.foldlM (addInfoState env settings) {}
  return { primaryEngine := primaryEngine, info := info }

/-- `_bar_open_ts`. -/
def barOpenTs (bar : StreamBar) : Except PyError Timestamp :=
  match bar.timestamp with
  | none =>
      .error (.valueError
        { template := "CausalMultiTimeframeStreamingEnricher requires bars with a parseable 'timestamp' field for no-lookahead MTF merge." })
  | some ts => env.parseTimestamp ts

/-- Update an engine and build the row of the bar. -/
def enrichBar (engine : Engine) (indicators : List String) (bar : StreamBar) :
    Except PyError (Engine × Row × Bool) :=
  match engine.update env.runtime bar with
  | (_, .error e) => .error e
  | (engine, .ok latest) =>
      .ok (engine, buildRow bar (withRequestedColumns latest.values indicators),
        latest.isReady)

/-- The informative part of `update_informative`. -/
def InfoState.ingest (state : InfoState) (indicators : List String) (bar : StreamBar) :
    Except PyError InfoState := do
  let (engine, row, _) ← enrichBar env state.engine indicators bar
  let openTs ← barOpenTs env bar
  let cursor ← state.cursor.append openTs row
  return { state with engine := engine, cursor := cursor }

/-- `update_informative`. -/
def Enricher.updateInformative (enricher : Enricher) (aliasName : String) (bar : StreamBar) :
    Except PyError Enricher :=
  match enricher.info.get aliasName with
  | none => .error (.keyError aliasName)
  | some state => do
      let state ← state.ingest env (settings.indicatorsOf aliasName) bar
      return { enricher with info := enricher.info.assign aliasName state }

/-- Look one alias up and merge what is visible. -/
def mergeVisible (primaryOpen : Timestamp) (acc : List (String × InfoState) × Row)
    (entry : String × InfoState) : List (String × InfoState) × Row :=
  let (cursor, visible) := entry.2.cursor.latestVisibleAt primaryOpen
  let merged :=
    match visible with
    | none => acc.2
    | some infoRow => mergeInformative acc.2 infoRow entry.2.suffix
  (acc.1 ++ [(entry.1, { entry.2 with cursor := cursor })], merged)

/-- The aliases stay as they are. -/
theorem mergeVisible_keys (primaryOpen : Timestamp) (items : List (String × InfoState))
    (acc : List (String × InfoState) × Row) :
    (items.foldl (mergeVisible primaryOpen) acc).1.map Prod.fst
      = acc.1.map Prod.fst ++ items.map Prod.fst := by
  induction items generalizing acc with
  | nil => exact (List.append_nil _).symm
  | cons entry items ih =>
      have hentry : (mergeVisible primaryOpen acc entry).1.map Prod.fst
          = acc.1.map Prod.fst ++ [entry.1] := List.map_append
      rw [List.foldl_cons, ih, hentry, List.append_assoc]
      rfl

/-- The loop of `update_primary` over the cursors. -/
def mergeAllVisible (info : OrderedDict String InfoState) (primaryOpen : Timestamp)
    (merged : Row) : OrderedDict String InfoState × Row :=
  ({ items := (info.items.foldl (mergeVisible primaryOpen) ([], merged)).1
     nodup := by
      rw [mergeVisible_keys]
      exact info.nodup },
    (info.items.foldl (mergeVisible primaryOpen) ([], merged)).2)

/-- `update_primary`. -/
def Enricher.updatePrimary (enricher : Enricher) (bar : StreamBar) :
    Except PyError (Enricher × CausalEnrichedBar) := do
  let (engine, row, isReady) ←
    enrichBar env enricher.primaryEngine settings.primaryIndicators bar
  let primaryOpen ← barOpenTs env bar
  let (info, merged) := mergeAllVisible enricher.info primaryOpen row
  return ({ primaryEngine := engine, info := info },
    { values := merged, timestamp := primaryOpen, isReady := isReady })

/-! ## §3 `causal_enrich_bars` -/

/-- The `while` loop over one alias: ingest the bars that are due. Returns
the bars that are left. -/
def feedDue (primaryOpen : Timestamp) (aliasName : String) :
    Enricher → List StreamBar → Except PyError (Enricher × List StreamBar)
  | enricher, [] => .ok (enricher, [])
  | enricher, candidate :: bars => do
      let openTs ← barOpenTs env candidate
      if openTs ≤ primaryOpen then
        let enricher ← enricher.updateInformative env settings aliasName candidate
        feedDue primaryOpen aliasName enricher bars
      else return (enricher, candidate :: bars)

/-- The loop over the aliases, before one primary bar. -/
def feedAllDue (primaryOpen : Timestamp) :
    Enricher → List (String × List StreamBar) →
      Except PyError (Enricher × List (String × List StreamBar))
  | enricher, [] => .ok (enricher, [])
  | enricher, (aliasName, bars) :: pending => do
      let (enricher, left) ← feedDue env settings primaryOpen aliasName enricher bars
      let (enricher, pending) ← feedAllDue primaryOpen enricher pending
      return (enricher, (aliasName, left) :: pending)

/-- The loop of the sequential mode over the primary bars. -/
def sequentialRows : Enricher → List (String × List StreamBar) → List StreamBar →
    Except PyError (List Row)
  | _, _, [] => .ok []
  | enricher, pending, bar :: bars => do
      let primaryOpen ← barOpenTs env bar
      let (enricher, pending) ← feedAllDue env settings primaryOpen enricher pending
      let (enricher, enriched) ← enricher.updatePrimary env settings bar
      let rows ← sequentialRows enricher pending bars
      return enriched.values :: rows

/-- `_enrich_info`: every row of one alias, with its open timestamp. -/
def enrichRows (indicators : List String) : Engine → List StreamBar →
    Except PyError (List (Timestamp × Row))
  | _, [] => .ok []
  | engine, bar :: bars => do
      let (engine, row, _) ← enrichBar env engine indicators bar
      let openTs ← barOpenTs env bar
      let rows ← enrichRows indicators engine bars
      return (openTs, row) :: rows

/-- `_enrich_info`. Its engine has no window resolver. -/
def enrichInfo (aliasName : String) (bars : List StreamBar) :
    Except PyError (List (Timestamp × Row)) := do
  let engine ← newEngine env none (settings.indicatorsOf aliasName)
  enrichRows env (settings.indicatorsOf aliasName) engine bars

/-- Append rows to a cursor, in order. -/
def AsOfInformativeCursor.appendAll (cursor : AsOfInformativeCursor Row)
    (rows : List (Timestamp × Row)) : Except PyError (AsOfInformativeCursor Row) :=
  rows.foldlM (fun cursor row => cursor.append row.1 row.2) cursor

/-- Seed the cursor of an alias; an alias without one is skipped. -/
def seedCursor (enricher : Enricher) (enriched : String × List (Timestamp × Row)) :
    Except PyError Enricher :=
  match enricher.info.get enriched.1 with
  | none => .ok enricher
  | some state => do
      let cursor ← state.cursor.appendAll enriched.2
      return { enricher with
        info := enricher.info.assign enriched.1 { state with cursor := cursor } }

/-- The loop of the parallel mode over the primary bars. -/
def primaryRows : Enricher → List StreamBar → Except PyError (List Row)
  | _, [] => .ok []
  | enricher, bar :: bars => do
      let (enricher, enriched) ← enricher.updatePrimary env settings bar
      let rows ← primaryRows enricher bars
      return enriched.values :: rows

/-- The sequential mode. -/
def enrichSequentially (primaryBars : List StreamBar)
    (informativeBars : OrderedDict String (List StreamBar)) : Except PyError (List Row) := do
  let enricher ← Enricher.create env settings
  sequentialRows env settings enricher informativeBars.items primaryBars

/-- The parallel mode. -/
def enrichInParallel (primaryBars : List StreamBar)
    (informativeBars : OrderedDict String (List StreamBar)) : Except PyError (List Row) := do
  let infoEnriched ← informativeBars.items.mapM fun entry => do
    let rows ← enrichInfo env settings entry.1 entry.2
    return (entry.1, rows)
  let enricher ← Enricher.create env settings
  let enricher ← infoEnriched.foldlM seedCursor enricher
  primaryRows env settings enricher primaryBars

/-- `causal_enrich_bars`: the rows that its frame is built from by
`_frame_from_rows`, which both modes end with. -/
def causalEnrichBars (parallel : Bool) (primaryBars : List StreamBar)
    (informativeBars : OrderedDict String (List StreamBar)) : Except PyError (List Row) :=
  if informativeBars.items ≠ [] ∧ parallel = true then
    enrichInParallel env settings primaryBars informativeBars
  else enrichSequentially env settings primaryBars informativeBars

end Finbar.Enrichment
