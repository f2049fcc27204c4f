/-
Finbar.Optimization.GridSearch — the ranking of `GridSearchOptimizer._sync_run`
and the ranking metrics of `correlation.py`.

`OptimizationResult.Failed` is read off a result: a failed backtest leaves an
error text, except that an engine run that returns an error dictionary leaves
none, and is told by its infinite profit factor.

No `sorry`, no `axiom`.
-/
import Finbar.Backtest.Optimizer
import Finbar.Lib.Ranking
import Mathlib.Data.Rat.Cast.Order
import Mathlib.Order.WithBot

namespace Finbar.Optimization

open Lib Lib.Python Finbar.Backtest

/-! ## §1 Ranking metrics -/

/-- `_RANKING_METRICS`. -/
inductive RankingMetric where
  | sharpeRatio
  | sortinoRatio
  | totalReturn
  | profitFactor
  | winRate
  | calmarRatio
  deriving DecidableEq

instance : StrEnum RankingMetric where
  members := [.sharpeRatio, .sortinoRatio, .totalReturn, .profitFactor, .winRate, .calmarRatio]
  value
    | .sharpeRatio => "sharpe_ratio"
    | .sortinoRatio => "sortino_ratio"
    | .totalReturn => "total_return"
    | .profitFactor => "profit_factor"
    | .winRate => "win_rate"
    | .calmarRatio => "calmar_ratio"
  value_ne_empty := by intro m; cases m <;> decide
  find_value := by intro m; cases m <;> decide

/-- `_ASCENDING_METRICS`. -/
def ascendingMetrics : List String := ["max_drawdown"]

/-- `is_ranking_metric(name)`, with the metric it names. -/
def rankingMetric (name : String) : Option RankingMetric :=
  StrEnum.members.find? fun m => StrEnum.value m == name

/-- `resolve_metric(name)`: the named metric, else the Sharpe ratio. -/
def resolveMetric (name : String) : RankingMetric :=
  (rankingMetric name).getD .sharpeRatio

/-- `sort_ascending(metric)`. -/
def sortAscending (metric : RankingMetric) : Bool :=
  ascendingMetrics.contains (StrEnum.value metric)

/-- `getattr(r, metric, 0) or 0`. -/
def metricValue (metric : RankingMetric) (r : OptimizationResult) : PyFloat :=
  match metric with
  | .sharpeRatio => .fin r.sharpeRatio
  | .sortinoRatio => .fin r.sortinoRatio
  | .totalReturn => .fin r.totalReturn
  | .profitFactor => r.profitFactor
  | .winRate => .fin r.winRate
  | .calmarRatio => .fin r.calmarRatio

/-! ## §2 Ranking -/

/-- `results.sort(key=…, reverse=not sort_ascending(metric))`. The sort
compares two keys with `<` only, and keeps the order of equal ones in either
direction. -/
def sortResults (metric : RankingMetric) (results : List OptimizationResult) :
    List OptimizationResult :=
  if sortAscending metric then
    results.mergeSort fun a b => !(metricValue metric b).lt (metricValue metric a)
  else
    results.mergeSort fun a b => !(metricValue metric a).lt (metricValue metric b)

/-- The results with their ranks, from `1` on. -/
def numberRanks (results : List OptimizationResult) : List OptimizationResult :=
  results.mapIdx fun i r => { r with rank := i + 1 }

variable {D δ ι σ : Type} [LinearOrder ι]

/-- The ranked results of `GridSearchOptimizer._sync_run`: every combination
is backtested, in order, on the shared base frame. -/
def GridSearchOptimizer.rankedResults (deps : OptimizerDeps D δ ι σ) (definition : D)
    (combinations : List Kwargs) (metadata : Kwargs) (baseFrame : Option (Frame ι))
    (metric : String) : List OptimizationResult :=
  numberRanks (sortResults (resolveMetric metric) (combinations.map fun params =>
    GridSearchOptimizer.backtestOne deps definition params metadata baseFrame))

/-- The backtest behind a result failed: it recorded an error, or its metrics
were read off an error dictionary of the engine. -/
def OptimizationResult.Failed (r : OptimizationResult) : Prop :=
  r.error.isSome ∨ r.profitFactor = .posInf

instance (r : OptimizationResult) : Decidable (OptimizationResult.Failed r) :=
  inferInstanceAs (Decidable (_ ∨ _))

end Finbar.Optimization
