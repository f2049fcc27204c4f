/-
Finbar.Parity.FrameDependency — live-parity safety: which columns depend on
the rows after them (`frame_dependency.py`), which metrics the streaming
enricher supports (`streaming_coverage.py`), and how
`BacktestStrategyDefinitionUseCase` annotates a result with both.

A result is annotated after the engine has returned; one whose engine raised
keeps the defaults of the result and is not modelled.

No `sorry`, no `axiom`.
-/
import Finbar.Indicators.FormulaTheorems
import Finbar.Parser.RequiredColumnTheorems
import Finbar.Streaming.Names
import Mathlib.Data.List.Dedup

namespace Finbar.Parity

open Lib Lib.Python Finbar.Parser Finbar.Streaming Finbar.Indicators
open Finbar.Evaluation (riskReads)

/-! ## §1 Frame dependency -/

/-- `EnrichmentMode`. -/
inductive EnrichmentMode where
  | batchFullFrame
  | liveParityStreaming
  deriving DecidableEq, Repr

/-- `_FRAME_DEPENDENT_PREFIXES` and `_FRAME_DEPENDENT_DYNAMIC_PREFIXES`. -/
def frameDependentStarts : List String := ["vp_", "mp_", "cvp_", "poc_slope_"]

/-- `_FRAME_DEPENDENT_DERIVED`. -/
def frameDependentDerived : List String :=
  ["inside_value", "above_value", "below_value", "at_poc", "near_vah", "near_val",
    "distance_to_vah_pct", "distance_to_val_pct", "value_area_width_pct", "balance_status",
    "acceptance_into_value", "rejection_from_edge", "acceptance_outside_value",
    "poc_rejection", "edge_volume_building", "value_area_migration", "wyckoff_phase",
    "profile_shape"]

/-- `is_frame_dependent_indicator`. -/
def isFrameDependentIndicator (name : String) : Bool :=
  frameDependentDerived.contains name || frameDependentStarts.any (startsWith name)

/-- `FrameDependencyReport`. -/
structure FrameDependencyReport where
  indicators : List String := []
  liveParitySafe : Bool := true
  reason : String := ""

/-- `classify_frame_dependency`. -/
def classifyFrameDependency (indicatorNames : List String) (mode : EnrichmentMode) :
    FrameDependencyReport :=
  let present := indicatorNames.filter isFrameDependentIndicator
  match mode with
  | .liveParityStreaming =>
      { indicators := present
        reason := "live_parity_streaming mode uses a causal enricher; no future bars influence any row." }
  | .batchFullFrame =>
      if present.isEmpty then
        { reason := "batch_full_frame mode with no frame-dependent indicators." }
      else
        { indicators := present
          liveParitySafe := false
          reason := "batch_full_frame mode computes session VP/AMT over the full frame, broadcasting completed-session values to earlier rows (future leakage)." }

/-! ## §2 Streaming coverage -/

/-- The labels of a coverage entry. -/
inductive CoverageLabel where
  | streamingCorrect
  | streamingUnsupported
  deriving DecidableEq, Repr

/-- `StreamingCoverageEntry`. -/
structure StreamingCoverageEntry where
  label : CoverageLabel
  reason : String := ""
  reason_given : label = .streamingUnsupported → reason ≠ "" := by decide

/-- `StreamingCoverageMatrix`: the entries by lowercase name. -/
abbrev StreamingCoverageMatrix := OrderedDict String StreamingCoverageEntry

/-- `StreamingCoverageReport`. -/
structure StreamingCoverageReport where
  correct : List String := []
  unsupported : List String := []
  silentWrong : List String := []
  loudNanMismatch : List String := []

/-- `live_parity_safe`. -/
def StreamingCoverageReport.liveParitySafe (report : StreamingCoverageReport) : Bool :=
  report.unsupported.isEmpty

/-- `sorted(set(names))`. -/
def sortedSet (names : List String) : List String :=
  names.dedup.mergeSort fun a b => decide (a ≤ b)

/-- One metric of `classify_streaming_coverage`. -/
def coverMetric (matrix : StreamingCoverageMatrix) (registry : HandlerRegistry)
    (report : StreamingCoverageReport) (name : String) :
    Except PyError StreamingCoverageReport :=
  match matrix.get name with
  | none =>
      match classifyIndicator registry name with
      | .ok _ => .ok { report with correct := report.correct ++ [name] }
      | .error _ =>
          .error (.valueError
            { template := "Unknown metric '%' in streaming coverage classifier"
              args := [.text name] })
  | some entry =>
      if entry.label = .streamingCorrect then
        .ok { report with correct := report.correct ++ [name] }
      else
        let unsupported := report.unsupported ++ [name]
        if entry.reason = "silent_wrong_value" then
          .ok { report with
            unsupported := unsupported, silentWrong := report.silentWrong ++ [name] }
        else if entry.reason = "nan_or_raise_mismatch" then
          .ok { report with
            unsupported := unsupported, loudNanMismatch := report.loudNanMismatch ++ [name] }
        else .ok { report with unsupported := unsupported }

/-- `classify_streaming_coverage`. -/
def classifyStreamingCoverage (matrix : StreamingCoverageMatrix) (registry : HandlerRegistry)
    (metricNames : List String) : Except PyError StreamingCoverageReport :=
  (sortedSet (metricNames.map lower)).foldlM (coverMetric matrix registry) {}

/-! ## §3 Annotations -/

/-- `required_indicators`: the columns of the declared indicators. -/
def requiredIndicators (definition : StrategyDefinition) : List String :=
  definition.indicators.map IndicatorSpec.columnName

/-- `_informative_required_indicators`. -/
def informativeRequiredIndicators (indicators : List IndicatorSpec) :
    OrderedDict String (List String) :=
  indicators.foldl (fun required item =>
    if item.timeframe = "primary" then required
    else required.assign item.timeframe
      (addColumn ((required.get item.timeframe).getD []) item.concreteName)) {}

/-- `_coverage_indicator_names`. -/
def coverageIndicatorNames (accepted : AcceptedStrategy) : List String :=
  accepted.primaryRequiredIndicators ++
    (informativeRequiredIndicators accepted.definition.indicators).items.flatMap Prod.snd

/-- What `_apply_streaming_coverage_guard` returns: the mode of the request it
hands on, its warnings and the unsupported metrics. -/
structure CoverageGuard where
  mode : EnrichmentMode
  warnings : List Message := []
  unsupported : List String := []

/-- `_apply_streaming_coverage_guard`. -/
def applyStreamingCoverageGuard (matrix : StreamingCoverageMatrix) (registry : HandlerRegistry)
    (mode : EnrichmentMode) (accepted : AcceptedStrategy) : Except PyError CoverageGuard :=
  match mode with
  | .batchFullFrame => .ok { mode := mode }
  | .liveParityStreaming => do
      let report ← classifyStreamingCoverage matrix registry (coverageIndicatorNames accepted)
      if report.liveParitySafe then return { mode := mode }
      else
        let unsupported := sortedSet report.unsupported
        return {
          mode := .batchFullFrame
          warnings :=
            [{ template := "Metrics % are not yet streaming-correct; falling back to batch_full_frame (not live-parity safe)."
               args := [.text (", ".intercalate unsupported)] }]
          unsupported := unsupported }

/-- `BacktestResultDTO`: what the engine's result gives, and the
annotations. -/
structure BacktestResultDto (ρ : Type) where
  metrics : ρ
  enrichmentMode : EnrichmentMode := .batchFullFrame
  liveParitySafe : Bool := true
  parityWarnings : List Message := []

/-- `_annotate_parity_metadata`. -/
def annotateParityMetadata {ρ : Type} (dto : BacktestResultDto ρ) (mode : EnrichmentMode)
    (accepted : AcceptedStrategy) (parityWarnings : List Message)
    (streamingUnsupported : List String) : BacktestResultDto ρ :=
  let report := classifyFrameDependency (requiredIndicators accepted.definition) mode
  let roots := sortedSet
    (report.indicators.filter fun name => startsWith name "vp_" || startsWith name "mp_")
  let named := if roots.isEmpty then report.indicators else roots
  let warnings := if report.liveParitySafe then parityWarnings else
    parityWarnings ++
      [{ template := "Session VP/AMT indicators % are frame-dependent in batch_full_frame mode; use live_parity_streaming for live-tradable validation."
         args := [.text (", ".intercalate (named.take 6))] }]
  { dto with
    enrichmentMode := mode
    liveParitySafe := report.liveParitySafe && streamingUnsupported.isEmpty
    parityWarnings := warnings }

/-- What happens to the parity metadata of a request: the guard, which is
asked for raw bars only, and the annotation of the engine's result. -/
def annotatedResult {ρ : Type} (matrix : StreamingCoverageMatrix) (registry : HandlerRegistry)
    (mode : EnrichmentMode) (useEnricher : Bool) (accepted : AcceptedStrategy)
    (dto : BacktestResultDto ρ) : Except PyError (BacktestResultDto ρ) := do
  let guarded ←
    if useEnricher then applyStreamingCoverageGuard matrix registry mode accepted
    else .ok { mode := mode }
  return annotateParityMetadata dto guarded.mode accepted guarded.warnings guarded.unsupported

/-! ## §4 What a strategy reads -/

/-- The columns that its evaluation reads: those of the operands, their
fallback sources and those of the risk settings. -/
def evaluationReads (definition : StrategyDefinition) : List String :=
  (definition.operands.filter fun operand => operand.kind.isColumn).flatMap
      (fun operand => Operand.column operand :: operand.sources) ++
    riskReads definition.risk

/-- The columns that calculating a feature reads: those the handler of its type
looks up, and those that the leaves of a formula name. -/
def featureReads (strOf : Json → String) (feature : FeatureSpec) : List String :=
  if feature.type = "formula" then
    (feature.rawExpr.map fun expr => namedColumns strOf (evaluatedLeaves expr)).getD []
  else if feature.type ∈ rollingTypes ∨ feature.type = "shift" then [feature.source]
  else if feature.type = "body_pct" then ["close", "open", "high", "low"]
  else if feature.type = "range_pct" then ["high", "low", "close"]
  else if feature.type = "typical_price" then ["high", "low", "close"]
  else if feature.type = "ohlc4" then ["open", "high", "low", "close"]
  else []

/-- The columns that a strategy's evaluation and its features read. -/
def strategyReads (strOf : Json → String) (definition : StrategyDefinition) : List String :=
  evaluationReads definition ++ definition.features.flatMap (featureReads strOf)

/-- A column without the suffix of a declared informative interval. -/
def withoutInterval (definition : StrategyDefinition) (column : String) : String :=
  match (informativeIntervals definition).find? fun interval =>
      ("_" ++ interval).toList.isSuffixOf column.toList with
  | some interval => String.ofList
      (column.toList.take (column.toList.length - ("_" ++ interval).toList.length))
  | none => column

end Finbar.Parity
