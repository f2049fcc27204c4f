/-
Finbar.Backtest.OptimizerTheorems — the optimizers against the direct
backtest.

On a frame with `w` warmup bars the optimizers hand the engine the frame
without its first `w` rows and still ask it to skip `w` bars; the direct
backtest hands it the whole frame. The two agree exactly when there is no
warmup (`optimizers_match_direct_iff`): otherwise `2 * w` bars go untraded.

No `sorry`, no `axiom`.
-/
import Finbar.Backtest.EquityTheorems
import Finbar.Backtest.Optimizer

namespace Finbar.Backtest

open Lib.Python Lib.Run Finbar.Simulation

/-! ## §1 The rows an engine call trades -/

section Calls

variable {ι σ : Type}

/-- The rows that are tradable in a call with a given frame and number of
warmup bars. -/
def tradableRows (df : Frame ι) (warmupBars : ℕ) : List (Row ι) :=
  df.rows.drop warmupBars

end Calls

/-! ## §2 Optimizers and direct backtest -/

section Optimizers

variable {D δ ι σ : Type} [LinearOrder ι]

/-- A parameter set prepares `frame`: the definition parses, the frame is
built with its features and columns, and warmup validation succeeds. -/
structure Prepared
    (selectFrame : OptimizerDeps D δ ι σ → ParsedStrategy δ → Option (Frame ι) →
      Except PyError (Frame ι))
    (deps : OptimizerDeps D δ ι σ) (definition : D) (params : Kwargs)
    (baseFrame : Option (Frame ι)) (parsed : ParsedStrategy δ) (frame : Frame ι) :
    Prop where
  parse_ok : deps.parse definition params = .ok (some parsed)
  frame_ok : (selectFrame deps parsed baseFrame >>= applyFeatures deps parsed) = .ok frame
  columns_ok : missingFrameColumns frame parsed.requiredColumns = []
  warmup_ok : warmupError (validateRequiredData frame parsed.requiredColumns) = none

/-- The outcome of an engine call as the optimizers report it. -/
def callResult (deps : OptimizerDeps D δ ι σ) (params : Kwargs)
    (call : Except PyError (EngineCall ι σ)) : OptimizationResult :=
  guarded params do
    let call ← call
    let raw ← call.run deps.runner
    return metricsFromRaw params raw

/-- The direct backtest: the optimizers' call, on the whole frame. -/
def directBacktest (initialCash : Kwargs → Except PyError ℚ)
    (deps : OptimizerDeps D δ ι σ) (parsed : ParsedStrategy δ) (frame : Frame ι)
    (params metadata : Kwargs) : OptimizationResult :=
  callResult deps params do
    let call ← optimizerCall initialCash deps parsed frame
      (validateRequiredData frame parsed.requiredColumns) metadata
    return { call with df := frame }

/-- An optimizer's metrics are those of the direct backtest, and its engine
call trades every row after the warmup rows. -/
def MatchesDirect (initialCash : Kwargs → Except PyError ℚ) (deps : OptimizerDeps D δ ι σ)
    (parsed : ParsedStrategy δ) (frame : Frame ι) (params metadata : Kwargs)
    (result : OptimizationResult) : Prop :=
  let warmup := validateRequiredData frame parsed.requiredColumns
  result = directBacktest initialCash deps parsed frame params metadata ∧
    tradableRows (executableFrame frame warmup) warmup.warmupBars
      = tradableRows frame warmup.warmupBars

/-- On a prepared frame an optimizer reports its engine call. -/
theorem evaluate_prepared
    {selectFrame : OptimizerDeps D δ ι σ → ParsedStrategy δ → Option (Frame ι) →
      Except PyError (Frame ι)}
    {initialCash : Kwargs → Except PyError ℚ} {deps : OptimizerDeps D δ ι σ}
    {definition : D} {params : Kwargs} {baseFrame : Option (Frame ι)}
    {parsed : ParsedStrategy δ} {frame : Frame ι}
    (h : Prepared selectFrame deps definition params baseFrame parsed frame)
    (metadata : Kwargs) :
    evaluate selectFrame initialCash deps definition params metadata baseFrame
      = callResult deps params
          (optimizerCall initialCash deps parsed frame
            (validateRequiredData frame parsed.requiredColumns) metadata) := by
  have hframe := h.frame_ok
  rw [bind_eq_ok] at hframe
  obtain ⟨selected, hselected, hfeatures⟩ := hframe
  unfold evaluate callResult
  rw [h.parse_ok]
  congr 1
  show (selectFrame deps parsed baseFrame >>= _) = _
  rw [hselected]
  show (applyFeatures deps parsed selected >>= _) = _
  rw [hfeatures]
  show (if missingFrameColumns frame parsed.requiredColumns ≠ [] then _ else _) = _
  rw [if_neg (fun hne => hne h.columns_ok)]
  simp only [h.warmup_ok]

omit [LinearOrder ι] in
/-- Slicing the warmup rows off costs no tradable row exactly when there are
none. -/
theorem tradableRows_executableFrame_iff {frame : Frame ι} {columns : List String}
    (h : warmupError (validateRequiredData frame columns) = none) :
    tradableRows (executableFrame frame (validateRequiredData frame columns))
        (validateRequiredData frame columns).warmupBars
      = tradableRows frame (validateRequiredData frame columns).warmupBars ↔
    (validateRequiredData frame columns).warmupBars = 0 := by
  have hbound := warmupBars_lt_length h
  generalize validateRequiredData frame columns = warmup at hbound ⊢
  unfold tradableRows executableFrame
  constructor
  · intro hrows
    by_contra hne
    rw [if_pos (Nat.pos_of_ne_zero hne)] at hrows
    have hlen := congrArg List.length hrows
    unfold Frame.drop at hlen
    simp only [List.length_drop] at hlen
    omega
  · intro hzero
    rw [if_neg (by omega)]

/-- Without warmup the optimizers' call is the direct one. -/
theorem callResult_eq_directBacktest {initialCash : Kwargs → Except PyError ℚ}
    {deps : OptimizerDeps D δ ι σ} {parsed : ParsedStrategy δ} {frame : Frame ι}
    {params metadata : Kwargs}
    (h : (validateRequiredData frame parsed.requiredColumns).warmupBars = 0) :
    callResult deps params
        (optimizerCall initialCash deps parsed frame
          (validateRequiredData frame parsed.requiredColumns) metadata)
      = directBacktest initialCash deps parsed frame params metadata := by
  unfold directBacktest
  congr 1
  unfold optimizerCall executableFrame
  rw [h, if_neg (lt_irrefl 0)]
  cases initialCash metadata with
  | error e => rfl
  | ok cash =>
      cases executionParams metadata with
      | error e => rfl
      | ok execution => rfl

/-- An optimizer agrees with the direct backtest exactly when there is no
warmup. -/
theorem matchesDirect_iff
    {selectFrame : OptimizerDeps D δ ι σ → ParsedStrategy δ → Option (Frame ι) →
      Except PyError (Frame ι)}
    {initialCash : Kwargs → Except PyError ℚ} {deps : OptimizerDeps D δ ι σ}
    {definition : D} {params metadata : Kwargs} {baseFrame : Option (Frame ι)}
    {parsed : ParsedStrategy δ} {frame : Frame ι}
    (h : Prepared selectFrame deps definition params baseFrame parsed frame) :
    MatchesDirect initialCash deps parsed frame params metadata
        (evaluate selectFrame initialCash deps definition params metadata baseFrame) ↔
      (validateRequiredData frame parsed.requiredColumns).warmupBars = 0 := by
  unfold MatchesDirect
  rw [evaluate_prepared h metadata]
  constructor
  · intro hmatch
    exact (tradableRows_executableFrame_iff h.warmup_ok).mp hmatch.2
  · intro hzero
    exact ⟨callResult_eq_directBacktest hzero,
      (tradableRows_executableFrame_iff h.warmup_ok).mpr hzero⟩

/-- **Warmup is skipped twice.** On every frame that a parameter set
prepares, the metrics and the traded bars of both optimizers are those of the
direct backtest if and only if the frame has no warmup bars. -/
theorem optimizers_match_direct_iff (deps : OptimizerDeps D δ ι σ) (definition : D)
    (params metadata : Kwargs) (baseFrame : Option (Frame ι)) (parsed : ParsedStrategy δ)
    (frame : Frame ι) :
    (Prepared gridSelectFrame deps definition params baseFrame parsed frame →
      (MatchesDirect gridInitialCash deps parsed frame params metadata
          (GridSearchOptimizer.backtestOne deps definition params metadata baseFrame) ↔
        (validateRequiredData frame parsed.requiredColumns).warmupBars = 0)) ∧
    (Prepared walkForwardSelectFrame deps definition params baseFrame parsed frame →
      (MatchesDirect walkForwardInitialCash deps parsed frame params metadata
          (WalkForwardOptimizer.backtestWithBars deps definition params metadata baseFrame) ↔
        (validateRequiredData frame parsed.requiredColumns).warmupBars = 0)) :=
  ⟨fun h => matchesDirect_iff h, fun h => matchesDirect_iff h⟩

end Optimizers

/-! ## §3 A frame with one warmup bar -/

/-- The strategy that asks to buy ten on every bar. -/
def buyAlways : TradingStrategy Unit where
  onReset memory := memory
  onBar memory _ _ := (memory, some buyTen)

/-- A row at 100; its moving average may be missing. -/
def averagedRow (index : ℕ) (average : PyValue) : Row ℕ where
  index := index
  label := "row"
  date := "2024-01-01"
  openPrice := some 100
  high := some 101
  low := some 99
  close := some 100
  extra := [("sma_2", average)]

/-- Three rows whose average is missing on the first. -/
def averagedFrame : Frame ℕ where
  columns := ["open", "high", "low", "close", "sma_2"]
  rows := [averagedRow 0 (.num .nan), averagedRow 1 (.ofRat 100), averagedRow 2 (.ofRat 100)]

/-- A definition that needs the average. -/
def averagedStrategy : ParsedStrategy Unit where
  definition := ()
  requiredColumns := ["close", "sma_2"]
  hasInformative := false
  hasFeatures := false

/-- Optimizers that parse every definition as `averagedStrategy`. -/
def averagedDeps : OptimizerDeps Unit Unit ℕ Unit where
  parse _ _ := .ok (some averagedStrategy)
  barsToFrame := .ok averagedFrame
  mergeInformative _ := .ok averagedFrame
  calculateFeatures := none
  createStrategy _ := (buyAlways, ())
  runner :=
    { floatMath := { sqrt := fun _ => 0, pow := fun _ _ => 0 }
      fromisoformat := fun _ => none }

theorem averagedFrame_prepared_grid :
    Prepared gridSelectFrame averagedDeps () [] (some averagedFrame) averagedStrategy
      averagedFrame where
  parse_ok := rfl
  frame_ok := rfl
  columns_ok := by decide +kernel
  warmup_ok := by decide +kernel

theorem averagedFrame_prepared_walkForward :
    Prepared walkForwardSelectFrame averagedDeps () [] (some averagedFrame) averagedStrategy
      averagedFrame where
  parse_ok := rfl
  frame_ok := rfl
  columns_ok := by decide +kernel
  warmup_ok := by decide +kernel

/-- Both optimizers on the sample frame, by its one warmup bar. -/
theorem optimizers_match_direct_averaged :
    (MatchesDirect gridInitialCash averagedDeps averagedStrategy averagedFrame [] []
        (GridSearchOptimizer.backtestOne averagedDeps () [] [] (some averagedFrame)) ↔
      (validateRequiredData averagedFrame averagedStrategy.requiredColumns).warmupBars = 0) ∧
    (MatchesDirect walkForwardInitialCash averagedDeps averagedStrategy averagedFrame [] []
        (WalkForwardOptimizer.backtestWithBars averagedDeps () [] [] (some averagedFrame)) ↔
      (validateRequiredData averagedFrame averagedStrategy.requiredColumns).warmupBars
        = 0) := by
  have hmatch := optimizers_match_direct_iff averagedDeps () [] [] (some averagedFrame)
    averagedStrategy averagedFrame
  exact ⟨hmatch.1 averagedFrame_prepared_grid, hmatch.2 averagedFrame_prepared_walkForward⟩

/-- The error and the number of trades of a result. -/
def OptimizationResult.outcome (result : OptimizationResult) : Option Message × ℕ :=
  (result.error, result.totalTrades)

/-- The direct backtest trades once; the optimizers, which skip the only bar
on which they could enter, never do. -/
theorem averaged_totalTrades_differ :
    (validateRequiredData averagedFrame averagedStrategy.requiredColumns).warmupBars = 1 ∧
    (directBacktest gridInitialCash averagedDeps averagedStrategy averagedFrame [] []).outcome
      = (none, 1) ∧
    (GridSearchOptimizer.backtestOne averagedDeps () [] [] (some averagedFrame)).outcome
      = (none, 0) ∧
    (directBacktest walkForwardInitialCash averagedDeps averagedStrategy averagedFrame
      [] []).outcome = (none, 1) ∧
    (WalkForwardOptimizer.backtestWithBars averagedDeps () [] []
      (some averagedFrame)).outcome = (none, 0) := by
  refine ⟨?_, ?_, ?_, ?_, ?_⟩
  all_goals decide +kernel

end Finbar.Backtest
