/-
Finbar.Optimization.Sensitivity — how much each parameter matters: the
sensitivities of a grid search (`compute_sensitivity`), their ranking
(`_rank_values`) and the agreement of the folds' rankings
(`_compute_rank_correlation`), up to `aggregate_folds`.

The ranking is a `while` loop whose passes need not advance, so what depends on it
is `none` when it never ends. A NaN compares with nothing; where the sort leaves it
does not matter to that.

No `sorry`, no `axiom`.
-/
import Finbar.Lib.OrderedDict
import Finbar.Lib.While
import Finbar.Optimization.WalkForward

namespace Finbar.Optimization

open Lib Lib.Python Finbar.Backtest

/-! ## §1 Sensitivities -/

/-- `r.params.get(name)`; the combinations hold finite numbers. -/
def paramOf (r : OptimizationResult) (name : String) : Option ℚ :=
  match r.params.lookup name with
  | some (.num (.fin q)) => some q
  | _ => none

/-- The results that count for a parameter, as its value and their metric: those
without an error text that have the parameter. -/
def counted (metric : RankingMetric) (name : String) (results : List OptimizationResult) :
    List (ℚ × PyFloat) :=
  results.filterMap fun r =>
    if r.error.isSome then none
    else (paramOf r name).map fun value => (value, metricValue metric r)

/-- `sum(v) / len(v)`. -/
def mean (xs : List PyFloat) : PyFloat := (PyFloat.sum xs).div (.fin xs.length)

/-- `sensitivity[name]`: how far apart the means over the values of the parameter
are, `0.0` for fewer than two values. -/
def spread (metric : RankingMetric) (name : String) (results : List OptimizationResult) :
    PyFloat :=
  let scores := OrderedDict.collect (counted metric name results)
  match scores.items.map fun entry => mean entry.2 with
  | first :: second :: rest =>
      (PyFloat.maxOf first (second :: rest)).sub (PyFloat.minOf first (second :: rest))
  | _ => .fin 0

/-- `compute_sensitivity(results, metric, ranges)`, for the names of the ranges. -/
def computeSensitivity (names : List String) (results : List OptimizationResult)
    (metric : String) : List (String × PyFloat) :=
  if names.length < 2 ∨ results.length < 2 then []
  else
    let sensitivity := names.map fun name => (name, spread (resolveMetric metric) name results)
    let total := PyFloat.sum (sensitivity.map Prod.snd)
    if total.le (.fin 0) then []
    else sensitivity.map fun entry => (entry.1, (entry.2.div total).round 4)

/-! ## §2 Ranks -/

/-- The items from the group leader on that are close to it: `j - i` after the inner
loop. -/
def groupLength (indexed : List (PyFloat × ℕ)) (i : ℕ) : ℕ :=
  match indexed[i]? with
  | none => 0
  | some leader =>
      ((indexed.drop i).takeWhile fun item => item.1.isClose leader.1 (1 / 10 ^ 12)).length

/-- `for k in range(i, j): ranks[indexed[k][1]] = avg_rank`. -/
def assignRanks (indexed : List (PyFloat × ℕ)) (i j : ℕ) (ranks : List ℚ) : List ℚ :=
  ((indexed.drop i).take (j - i)).foldl
    (fun ranks item => ranks.set item.2 (((i : ℚ) + 1 + j) / 2)) ranks

/-- A pass of the loop of `_rank_values`, on `i` and `ranks`. -/
def rankPass (indexed : List (PyFloat × ℕ)) : ℕ × List ℚ → Option (ℕ × List ℚ)
  | (i, ranks) =>
      if i < indexed.length then
        let j := i + groupLength indexed i
        some (j, assignRanks indexed i j ranks)
      else none

/-- `indexed`: the values with their places, the largest first. -/
def indexedValues (values : List PyFloat) : List (PyFloat × ℕ) :=
  values.zipIdx.mergeSort fun a b => !a.1.lt b.1

/-- The loop of `_rank_values` before its first pass. -/
def rankStart (values : List PyFloat) : ℕ × List ℚ := (0, values.map fun _ => 0)

/-- The loop of `_rank_values` ends on these values. -/
def Rankable (values : List PyFloat) : Prop :=
  While.Halts (rankPass (indexedValues values)) (rankStart values)

/-- `_rank_values(values)`; none when its loop never ends. -/
def rankValues (values : List PyFloat) : Option (List ℚ) :=
  let last := While.run (rankPass (indexedValues values)) values.length (rankStart values)
  match rankPass (indexedValues values) last with
  | none => some last.2
  | some _ => none

/-! ## §3 Rank correlation -/

/-- `_spearman`. -/
def spearman (fm : FloatMath) (xs ys : List ℚ) : ℚ :=
  let n := xs.length
  if n < 2 then 0
  else
    let mx := xs.sum / n
    let my := ys.sum / n
    let cov := (List.zipWith (fun x y => (x - mx) * (y - my)) xs ys).sum
    let vx := (xs.map fun x => (x - mx) ^ 2).sum
    let vy := (ys.map fun y => (y - my) ^ 2).sum
    if vx = 0 ∨ vy = 0 then 0 else cov / fm.pow (vx * vy) (1 / 2)

/-- The pairs of a list, each item with the later ones. -/
def pairsOf {α : Type} : List α → List (α × α)
  | [] => []
  | x :: xs => xs.map (fun y => (x, y)) ++ pairsOf xs

/-- The fold takes part in the rank correlation. -/
def WalkForwardFold.ranked (fold : WalkForwardFold) : Bool :=
  fold.completed && !fold.paramSensitivity.isEmpty

/-- `ordered_names`: the parameters of the folds. -/
def orderedNames (folds : List WalkForwardFold) : List String :=
  (((folds.filter WalkForwardFold.ranked).flatMap fun fold =>
    fold.paramSensitivity.map Prod.fst).dedup).insertionSort (· ≤ ·)

/-- The scores of a fold, by parameter. -/
def scoresOf (names : List String) (fold : WalkForwardFold) : List PyFloat :=
  names.map fun name => (fold.paramSensitivity.lookup name).getD (.fin 0)

/-- `_compute_rank_correlation(folds)`; none when the ranking of a fold never ends. -/
def computeRankCorrelation (fm : FloatMath) (folds : List WalkForwardFold) : Option ℚ :=
  let names := orderedNames folds
  if names.length < 2 ∨ folds.length < 2 then some 1
  else do
    let rankings ← (folds.filter WalkForwardFold.ranked).mapM fun fold =>
      rankValues (scoresOf names fold)
    if rankings.length < 2 then return 1
    else
      let correlations := (pairsOf rankings).map fun pair => spearman fm pair.1 pair.2
      if correlations = [] then return 1
      else return pyRound (correlations.sum / correlations.length) 4

/-- `aggregate_folds(folds)` with its ranking; none when it never returns. A job
without a completed fold does not come to the ranking. -/
def aggregateRankedFolds (fm : FloatMath) (stability : List WalkForwardFold → ℚ)
    (folds : List WalkForwardFold) : Option WalkForwardResult :=
  let completed := folds.filter WalkForwardFold.completed
  if completed.isEmpty then
    some (aggregateFolds fm { stability := stability, rankCorrelation := fun _ => 1 } folds)
  else
    (computeRankCorrelation fm completed).map fun correlation =>
      aggregateFolds fm { stability := stability, rankCorrelation := fun _ => correlation } folds

end Finbar.Optimization
