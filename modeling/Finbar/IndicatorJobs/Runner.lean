/-
Finbar.IndicatorJobs.Runner — `CachedPriceIndicatorJobRunner`: indicator jobs
over the cached price bars and the persisted derivatives rows, and the reuse
of a stored artifact with the same content hash (`SqlIndicatorArtifactRepository`).

The collaborators of the runner (frame conversion, indicator and feature
calculation, the derivatives merge, the causal enricher) are parameters. The
indicator calculator takes a set of names, which is what it makes of its list
first. An artifact is stored with its job and with the stores at that time,
which the code does not keep: they are the history that statements about runs
refer to. Progress updates are left out.

No `sorry`, no `axiom`.
-/
import Finbar.Enrichment.Enricher
import Finbar.Parity.FrameDependency
import Mathlib.Data.Finset.Dedup
import Mathlib.Data.List.Sort

namespace Finbar.IndicatorJobs

open Lib Lib.Python Finbar.Parser Finbar.Parity

/-! ## §1 Stores -/

/-- `text.upper()`. -/
def upper (text : String) : String := String.ofList (text.toList.map Char.toUpper)

/-- A cached `PriceBar`. -/
structure PriceBar where
  symbol : String
  source : String
  interval : String
  timestamp : String
  openPrice : ℚ
  high : ℚ
  low : ℚ
  close : ℚ
  volume : ℚ

/-- A row of `DerivativesMetrics`: the metrics that it has. -/
structure DerivativesRow where
  symbol : String
  timestamp : String
  metrics : List (String × PyFloat)

/-- The price cache and the derivatives rows. -/
structure Stores where
  prices : List PriceBar := []
  derivatives : List DerivativesRow := []

/-- `timestamp >= start` and `timestamp <= end`, each if it is given. -/
def inRange (startDate endDate : Option String) (timestamp : String) : Bool :=
  startDate.all (fun start => decide (start = "" ∨ start ≤ timestamp)) &&
    endDate.all (fun stop => decide (stop = "" ∨ timestamp ≤ stop))

/-- `SqlPriceCacheRepository.query_bars`. -/
def queryBars (prices : List PriceBar) (symbol source interval : String)
    (startDate endDate : Option String) : List PriceBar :=
  (prices.filter fun bar =>
    decide (bar.symbol = symbol ∧ bar.source = source ∧ bar.interval = interval) &&
      inRange startDate endDate bar.timestamp).insertionSort
    fun a b => a.timestamp ≤ b.timestamp

/-- `DerivativesRepository.find` of a symbol. -/
def findDerivatives (derivatives : List DerivativesRow) (symbol : String) :
    List DerivativesRow :=
  (derivatives.filter fun row => decide (row.symbol = symbol)).insertionSort
    fun a b => a.timestamp ≤ b.timestamp

/-- An enriched bar, as it is stored. -/
abbrev BarDict := OrderedDict String PyValue

/-- `_bar_to_dict`. -/
def barToDict (bar : PriceBar) : BarDict :=
  OrderedDict.assignAll {}
    [("timestamp", .str bar.timestamp), ("open", .ofRat bar.openPrice), ("high", .ofRat bar.high),
      ("low", .ofRat bar.low), ("close", .ofRat bar.close), ("volume", .ofRat bar.volume)]

/-! ## §2 Jobs -/

/-- A definition in a job's metadata. -/
inductive Document where
  | text (source : String)
  | object (entries : List (String × Json))

/-- `not definition`. -/
def Document.isEmpty : Document → Bool
  | .text source => decide (source = "")
  | .object entries => entries.isEmpty

/-- `IndicatorJob`, with what the runner reads of its metadata. -/
structure IndicatorJob where
  symbol : String
  source : String
  interval : String
  mode : String := "selected"
  timeframeAlias : String := "primary"
  startDate : Option String := none
  endDate : Option String := none
  indicators : List String := []
  definition : Option Document := none
  params : List (String × Json) := []
  enrichmentMode : Option String := none

/-- `job.metadata.setdefault("enrichment_mode", "batch_full_frame")`. -/
def IndicatorJob.enrichment (job : IndicatorJob) : String :=
  job.enrichmentMode.getD "batch_full_frame"

mutual

/-- A value as `json.dumps(…, sort_keys=True)` writes it. -/
def sortedKeys : Json → Json
  | .list items => .list (sortedItems items)
  | .dict entries => .dict ((sortedEntries entries).insertionSort fun a b => a.1 ≤ b.1)
  | value => value

def sortedItems : List Json → List Json
  | [] => []
  | item :: items => sortedKeys item :: sortedItems items

def sortedEntries : List (String × Json) → List (String × Json)
  | [] => []
  | (key, value) :: entries => (key, sortedKeys value) :: sortedEntries entries

end

/-- A document in the payload. -/
def Document.payload : Document → Json
  | .text source => .str source
  | .object entries => sortedKeys (.dict entries)

/-- The payload of `_compute_content_hash`, up to the order of its keys. -/
structure ContentPayload where
  symbol : String
  source : String
  interval : String
  mode : String
  indicators : List String
  timeframeAlias : String
  enrichmentMode : String
  startDate : Option String
  endDate : Option String
  definition : Option Json
  params : Json
  derivativesMerged : Bool
  features : Option (List String)
  deriving DecidableEq

/-- What the causal enricher is called with. It reads the timeframes of its
definition only. -/
structure CausalInput where
  primaryBars : List BarDict
  informativeBars : OrderedDict String (List BarDict) := {}
  timeframes : Option TimeframeDeclaration
  primaryIndicators : List String
  informativeIndicators : OrderedDict String (List String) := {}
  marketCalendar : String := "crypto_24_7"

/-- What the runner is created with: its collaborators over frames `F`, and
SHA-256 of a payload's JSON text, with digests `H`, as an injective function. -/
structure RunnerDeps (F H : Type) where
  parser : ParserEnvironment
  /-- `_parse_any`, with the errors of a text that is no document. -/
  load : String → Except (List ValidationError) Json
  barsToFrame : List BarDict → Except Message F
  frameToBars : F → Except Message (List BarDict)
  calculate : F → Finset String → Except Message F
  calculateFeatures : F → List FeatureSpec → Except Message F
  causalEnrich : CausalInput → Except Message F
  mergeDerivatives : F → List DerivativesRow → String → Except Message F
  hasDerivatives : Bool
  sha256 : ContentPayload → H
  sha256_injective : Function.Injective sha256

/-- `str(exc)`. -/
def parserMessage : ParserException → Message
  | .attributeError message => message
  | .typeError message => message

/-- An error under the text that its handler puts before it. -/
def errorAfter {α : Type} (text : String) (result : Except Message α) : Except Message α :=
  result.mapError (Message.after text)

/-- The handler of `run`. -/
def internally {α : Type} (result : Except Message α) : Except Message α :=
  errorAfter "Internal error: " result

variable {F H : Type} (deps : RunnerDeps F H)

/-! ## §3 Indicators and hash -/

/-- `parser.parse(definition, params)`. -/
def parseDocument (document : Document) (params : List (String × Json)) :
    Except Message StrategyValidationResult :=
  let parsed : Json → Except Message StrategyValidationResult := fun data =>
    (parse deps.parser data params).mapError parserMessage
  match document with
  | .object entries => parsed (.dict entries)
  | .text source =>
      match deps.load source with
      | .error errors => .ok (.invalid errors)
      | .ok data => parsed data

/-- `_strategy_required_indicators`. -/
def strategyRequiredIndicators (job : IndicatorJob) :
    Except Message (List String × Option AcceptedStrategy) := do
  match job.definition.filter fun document => !document.isEmpty with
  | none => throw { template := "definition_json is required for strategy_required mode" }
  | some document =>
      match ← internally (parseDocument deps document job.params) with
      | .invalid _ => throw { template := "Strategy definition is invalid" }
      | .valid accepted =>
          if job.timeframeAlias = "primary" then
            return (accepted.primaryRequiredIndicators, some accepted)
          else
            let required := informativeRequiredIndicators accepted.definition.indicators
            return ((required.get job.timeframeAlias).getD [], some accepted)

/-- `_resolve_indicators`. -/
def resolveIndicators (job : IndicatorJob) :
    Except Message (List String × Option AcceptedStrategy) :=
  if job.mode = "selected" then .ok (job.indicators, none)
  else if job.mode ≠ "strategy_required" then
    .error { template := "Unsupported indicator computation '%'", args := [.text job.mode] }
  else strategyRequiredIndicators deps job

/-- `_DERIVATIVES_INDICATORS`. -/
def derivativesIndicators : List String :=
  ["open_interest", "open_interest_delta_1h", "open_interest_delta_24h",
    "cumulative_volume_delta", "funding_rate", "funding_rate_annualised", "long_short_ratio",
    "liquidations_long_1h", "liquidations_short_1h", "liquidations_long_24h",
    "liquidations_short_24h"]

/-- Whether derivatives rows are merged for the indicators. -/
def derivativesMerged (indicators : List String) : Bool :=
  deps.hasDerivatives && indicators.any derivativesIndicators.contains

/-- The payload of `_compute_content_hash`. -/
def contentPayload (job : IndicatorJob) (indicators : List String)
    (validation : Option AcceptedStrategy) : ContentPayload where
  symbol := upper job.symbol
  source := job.source
  interval := job.interval
  mode := job.mode
  indicators := indicators.insertionSort (· ≤ ·)
  timeframeAlias := job.timeframeAlias
  enrichmentMode := job.enrichment
  startDate := job.startDate
  endDate := job.endDate
  definition := job.definition.map Document.payload
  params := sortedKeys (.dict job.params)
  derivativesMerged := derivativesMerged deps indicators
  features := validation.map fun accepted =>
    (accepted.definition.features.map FeatureSpec.name).insertionSort (· ≤ ·)

/-- `_compute_content_hash`. -/
def computeContentHash (job : IndicatorJob) (indicators : List String)
    (validation : Option AcceptedStrategy) : H :=
  deps.sha256 (contentPayload deps job indicators validation)

/-! ## §4 Computing -/

/-- `_load_cached_bars_for_interval`, before `_bar_to_dict`. -/
def loadCachedBarsForInterval (stores : Stores) (job : IndicatorJob) (symbol interval : String) :
    List PriceBar :=
  queryBars stores.prices (upper symbol) job.source interval job.startDate job.endDate

/-- `_load_cached_bars`. -/
def loadCachedBars (stores : Stores) (job : IndicatorJob) : List PriceBar :=
  loadCachedBarsForInterval stores job job.symbol job.interval

/-- The cached bars of an informative timeframe. -/
def loadInformative (stores : Stores) (job : IndicatorJob) (item : InformativeTimeframe) :
    List PriceBar :=
  loadCachedBarsForInterval stores job (if item.symbol = "" then job.symbol else item.symbol)
    item.interval

/-- `definition.timeframes.informative`, if there are timeframes. -/
def informativeTimeframes (definition : StrategyDefinition) : List InformativeTimeframe :=
  (definition.timeframes.map TimeframeDeclaration.informative).getD []

/-- One turn of the loop that loads the informative bars. -/
def addInformativeBars (stores : Stores) (job : IndicatorJob)
    (bars : OrderedDict String (List BarDict)) (item : InformativeTimeframe) :
    Except Message (OrderedDict String (List BarDict)) :=
  let loaded := loadInformative stores job item
  if loaded.isEmpty then
    .error
      { template := "No cached % bars for %", args := [.text item.interval, .text item.aliasName] }
  else .ok (bars.assign item.aliasName (loaded.map barToDict))

/-- The causal frame and its bars. -/
def causalResult (input : CausalInput) : Except Message (List BarDict × F) := do
  let frame ← errorAfter "Causal enrichment error: " (deps.causalEnrich input)
  let bars ← internally (deps.frameToBars frame)
  return (bars, frame)

/-- `_apply_causal_enrichment`. An informative job enriches its own bars. -/
def applyCausalEnrichment (stores : Stores) (job : IndicatorJob) (bars : List BarDict)
    (accepted : AcceptedStrategy) : Except Message (List BarDict × F) := do
  let required := informativeRequiredIndicators accepted.definition.indicators
  if job.timeframeAlias ≠ "primary" then
    causalResult deps {
      primaryBars := bars
      timeframes := some { primary := job.interval }
      primaryIndicators := (required.get job.timeframeAlias).getD [] }
  else
    let informative ← (informativeTimeframes accepted.definition).foldlM
      (addInformativeBars stores job) {}
    causalResult deps {
      primaryBars := bars
      informativeBars := informative
      timeframes := accepted.definition.timeframes
      primaryIndicators := accepted.primaryRequiredIndicators
      informativeIndicators := required }

/-- `_merge_derivatives_if_needed`. -/
def mergeDerivativesIfNeeded (stores : Stores) (job : IndicatorJob) (frame : F)
    (indicators : List String) : Except Message F :=
  if !derivativesMerged deps indicators then .ok frame
  else
    match findDerivatives stores.derivatives job.symbol with
    | [] => .ok frame
    | rows => deps.mergeDerivatives frame rows (if job.interval = "" then "1d" else job.interval)

/-- `_apply_indicators`. -/
def applyIndicators (stores : Stores) (job : IndicatorJob) (bars : List BarDict)
    (indicators : List String) : Except Message (List BarDict × F) :=
  if indicators.isEmpty then do
    let frame ← internally (deps.barsToFrame bars)
    return (bars, frame)
  else
    errorAfter "Indicator calculation error: " do
      let frame ← deps.barsToFrame bars
      let frame ← mergeDerivativesIfNeeded deps stores job frame indicators
      let enriched ← deps.calculate frame indicators.toFinset
      let result ← deps.frameToBars enriched
      return (result, enriched)

/-- The features that are applied (`_should_apply_features`). -/
def appliedFeatures (job : IndicatorJob) (validation : Option AcceptedStrategy) :
    List FeatureSpec :=
  match validation with
  | none => []
  | some accepted =>
      if job.mode = "strategy_required" ∧ job.timeframeAlias = "primary" then
        accepted.definition.features
      else []

/-- `_apply_features`, which has a frame to work on. -/
def applyFeatures (features : List FeatureSpec) (bars : List BarDict) (frame : F) :
    Except Message (List BarDict) :=
  if features.isEmpty then .ok bars
  else
    errorAfter "Feature calculation error: " do
      let enriched ← deps.calculateFeatures frame features
      deps.frameToBars enriched

/-- `_sync_run` from the enrichment on: the enriched bars. -/
def enrichedBars (stores : Stores) (job : IndicatorJob) (bars : List BarDict)
    (indicators : List String) (validation : Option AcceptedStrategy) :
    Except Message (List BarDict) := do
  let (bars, frame) ←
    match validation with
    | some accepted =>
        if job.enrichment = "live_parity_streaming" then
          applyCausalEnrichment deps stores job bars accepted
        else applyIndicators deps stores job bars indicators
    | none => applyIndicators deps stores job bars indicators
  applyFeatures deps (appliedFeatures job validation) bars frame

/-! ## §5 Artifacts -/

/-- A stored artifact, with its history. -/
structure Artifact (H : Type) where
  status : String := "completed"
  contentHash : H
  bars : List BarDict
  job : IndicatorJob
  stores : Stores

/-- The stores and the artifacts by job, in the order in which they were
saved. -/
structure Library (H : Type) where
  stores : Stores
  artifacts : OrderedDict String (Artifact H) := {}

variable [DecidableEq H]

/-- `find_by_hash`: the first completed artifact with the hash; a digest is
never the empty text. -/
def Library.findByHash (library : Library H) (contentHash : H) : Option String :=
  (library.artifacts.items.find? fun entry =>
    decide (entry.2.contentHash = contentHash ∧ entry.2.status = "completed")).map Prod.fst

/-- `get_artifact_bars`. -/
def Library.getArtifactBars {H : Type} (library : Library H) (jobId : String) : Option (List BarDict) :=
  (library.artifacts.get jobId).map Artifact.bars

/-- The bars that `_try_reuse_artifact` stores again, if it finds any. -/
def Library.tryReuseArtifact (library : Library H) (contentHash : H) :
    Option (List BarDict) :=
  ((library.findByHash contentHash).bind library.getArtifactBars).filter fun bars => !bars.isEmpty

/-- What a completed job stores. -/
structure JobResult (H : Type) where
  bars : List BarDict
  contentHash : H
  reused : Bool

/-- `_sync_run`; the error is that of the failed job. -/
def syncRun (library : Library H) (job : IndicatorJob) : Except Message (JobResult H) := do
  let bars := (loadCachedBars library.stores job).map barToDict
  if bars.isEmpty then
    throw { template := "No cached bars found for requested symbol/source/interval/date range" }
  let (indicators, validation) ← resolveIndicators deps job
  let contentHash := computeContentHash deps job indicators validation
  match library.tryReuseArtifact contentHash with
  | some existing => return { bars := existing, contentHash := contentHash, reused := true }
  | none =>
      let enriched ← enrichedBars deps library.stores job bars indicators validation
      return { bars := enriched, contentHash := contentHash, reused := false }

/-- A job that finds no artifact. -/
def freshRun (stores : Stores) (job : IndicatorJob) : Except Message (JobResult H) :=
  syncRun deps { stores := stores } job

/-- One step: a job runs, or the stores change. -/
inductive Action where
  | run (jobId : String) (job : IndicatorJob)
  | change (stores : Stores)

/-- `store_result` of a job that completes. -/
def Library.step (library : Library H) : Action → Library H
  | .change stores => { library with stores := stores }
  | .run jobId job =>
      match syncRun deps library job with
      | .error _ => library
      | .ok result =>
          { library with
            artifacts := library.artifacts.assign jobId
              { contentHash := result.contentHash
                bars := result.bars
                job := job
                stores := library.stores } }

end Finbar.IndicatorJobs
