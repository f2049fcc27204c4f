/-
Finbar.Optimization.RankingTheorems — when the optimizers rank no failed
combination ahead of a successful one.

A failed backtest is compared by the default of its metric, zero, or by an
infinite profit factor when the engine returned an error dictionary
(`metricValue_failed`), so a successful combination outranks it only with a
positive metric, or from an earlier place. `failures_ranked_last_iff` is the
exact condition, for the grid search and for the best parameters of a
walk-forward fold.

No `sorry`, no `axiom`.
-/
import Finbar.Optimization.WalkForward
import Finbar.Backtest.OptimizerTheorems

namespace Finbar.Optimization

open Lib Lib.Python Lib.Run Finbar.Backtest

/-! ## §1 Results of backtests -/

/-- What a backtest of an optimizer returns: a failure text, or the metrics of
an engine output. -/
inductive FromBacktest : OptimizationResult → Prop where
  | failed (params : Kwargs) (message : Message) : FromBacktest (failedResult params message)
  | raw (params : Kwargs) (output : EngineOutput) : FromBacktest (metricsFromRaw params output)

theorem failed_failedResult (params : Kwargs) (message : Message) :
    OptimizationResult.Failed (failedResult params message) :=
  Or.inl rfl

theorem failed_error (params : Kwargs) (message : Message) :
    OptimizationResult.Failed (metricsFromRaw params (.error message)) :=
  Or.inr rfl

theorem not_failed_result (params : Kwargs) (result : BacktestResult) :
    ¬ OptimizationResult.Failed (metricsFromRaw params (.result result)) := by
  rintro (h | h)
  · exact absurd h Bool.false_ne_true
  · exact PyFloat.noConfusion h

section Evaluate

variable {D δ ι σ : Type} [LinearOrder ι]

/-- A guarded computation that returns results of backtests is one. -/
theorem fromBacktest_guarded {params : Kwargs} {x : Except PyError OptimizationResult}
    (h : Yields x FromBacktest) : FromBacktest (guarded params x) := by
  cases x with
  | error e => exact .failed params e.message
  | ok result => exact h result rfl

theorem fromBacktest_evaluate
    (selectFrame : OptimizerDeps D δ ι σ → ParsedStrategy δ → Option (Frame ι) →
      Except PyError (Frame ι))
    (initialCash : Kwargs → Except PyError ℚ) (deps : OptimizerDeps D δ ι σ) (definition : D)
    (params metadata : Kwargs) (baseFrame : Option (Frame ι)) :
    FromBacktest
      (evaluate selectFrame initialCash deps definition params metadata baseFrame) := by
  unfold evaluate
  refine fromBacktest_guarded (Yields.bind_of_forall fun parsed => ?_)
  cases parsed with
  | none => exact Yields.pure (.failed _ _)
  | some parsed =>
      refine Yields.bind_of_forall fun selected => Yields.bind_of_forall fun frame => ?_
      dsimp only
      split
      · exact Yields.pure (.failed _ _)
      · split
        · exact Yields.pure (.failed _ _)
        · refine Yields.bind_of_forall fun call => Yields.bind_of_forall fun raw => ?_
          exact Yields.pure (.raw _ raw)

end Evaluate

/-! ## §2 Ranking keys -/

/-- A metric that can be compared: a number or infinity. -/
def rankKey (metric : RankingMetric) (r : OptimizationResult) : WithTop ℚ :=
  match metricValue metric r with
  | .fin q => (q : WithTop ℚ)
  | .posInf => ⊤
  | _ => 0

/-- No ranking metric is sorted in ascending order. -/
theorem sortAscending_eq_false (metric : RankingMetric) : sortAscending metric = false := by
  cases metric <;> decide

/-- The metric of a failed backtest: zero, and an infinite profit factor behind
an error dictionary. -/
theorem metricValue_failed {r : OptimizationResult} (h : FromBacktest r)
    (hfailed : OptimizationResult.Failed r) (metric : RankingMetric) :
    metricValue metric r =
      if metric = .profitFactor ∧ r.profitFactor = .posInf then .posInf else .fin 0 := by
  cases h with
  | failed params message => cases metric <;> rfl
  | raw params output =>
      cases output with
      | error message => cases metric <;> rfl
      | result result => exact absurd hfailed (not_failed_result params result)

/-- The metric of a successful backtest is a number. -/
theorem metricValue_succeeded {r : OptimizationResult} (h : FromBacktest r)
    (hok : ¬ OptimizationResult.Failed r) (metric : RankingMetric) :
    ∃ q, metricValue metric r = .fin q := by
  cases h with
  | failed params message => exact absurd (failed_failedResult params message) hok
  | raw params output =>
      cases output with
      | error message => exact absurd (failed_error params message) hok
      | result result => cases metric <;> exact ⟨_, rfl⟩

/-- The metrics of backtests are numbers or infinite. -/
theorem metricValue_cases {r : OptimizationResult} (h : FromBacktest r)
    (metric : RankingMetric) :
    metricValue metric r = .posInf ∨ ∃ q, metricValue metric r = .fin q := by
  by_cases hfailed : OptimizationResult.Failed r
  · rw [metricValue_failed h hfailed]
    split
    · exact Or.inl rfl
    · exact Or.inr ⟨0, rfl⟩
  · exact Or.inr (metricValue_succeeded h hfailed metric)

/-- On metrics of backtests the comparison of the sort is that of the keys. -/
theorem not_lt_eq_decide {a b : OptimizationResult} (ha : FromBacktest a) (hb : FromBacktest b)
    (metric : RankingMetric) :
    (!(metricValue metric a).lt (metricValue metric b)) =
      decide (rankKey metric b ≤ rankKey metric a) := by
  unfold rankKey
  rcases metricValue_cases ha metric with ha | ⟨p, ha⟩ <;>
    rcases metricValue_cases hb metric with hb | ⟨q, hb⟩ <;>
    rw [ha, hb] <;>
    simp [PyFloat.lt, ← decide_not]

/-- **The sort of the results is the ranking by their keys.** -/
theorem sortResults_eq_rankBy {results : List OptimizationResult}
    (h : ∀ r ∈ results, FromBacktest r) (metric : RankingMetric) :
    sortResults metric results = rankBy (rankKey metric) results := by
  unfold sortResults rankBy
  rw [if_neg (by rw [sortAscending_eq_false]; exact Bool.false_ne_true)]
  have hmap := List.map_mergeSort (f := id) (l := results)
    (r := fun a b => !(metricValue metric a).lt (metricValue metric b))
    (s := fun a b => decide (rankKey metric b ≤ rankKey metric a))
    fun a ha b hb => not_lt_eq_decide (h a ha) (h b hb) metric
  rwa [List.map_id, List.map_id] at hmap

/-! ## §3 Failures and successes -/

/-- No failed result stands ahead of a successful one. -/
def FailuresLast (results : List OptimizationResult) : Prop :=
  results.Pairwise fun a b => OptimizationResult.Failed a → OptimizationResult.Failed b

/-- The condition on the results in the order of their combinations: beside a
failure, every success has a positive metric, or a metric of zero from an
earlier place; and ranked by the profit factor, no failure is an error
dictionary of the engine. -/
def FailuresOutscored (metric : RankingMetric) (results : List OptimizationResult) : Prop :=
  ∀ (i j : ℕ) (hi : i < results.length) (hj : j < results.length),
    OptimizationResult.Failed results[i] → ¬ OptimizationResult.Failed results[j] →
      ¬ (metric = .profitFactor ∧ results[i].profitFactor = .posInf) ∧
      ((PyFloat.fin 0).lt (metricValue metric results[j]) = true ∨
        metricValue metric results[j] = .fin 0 ∧ j < i)

/-- Where one failure stands to one success. -/
theorem outranks_failed_iff {r s : OptimizationResult} (hr : FromBacktest r)
    (hs : FromBacktest s) (hfailed : OptimizationResult.Failed r)
    (hok : ¬ OptimizationResult.Failed s) (metric : RankingMetric) (earlier : Prop) :
    (rankKey metric r < rankKey metric s ∨ rankKey metric r = rankKey metric s ∧ earlier) ↔
      ¬ (metric = .profitFactor ∧ r.profitFactor = .posInf) ∧
      ((PyFloat.fin 0).lt (metricValue metric s) = true ∨
        metricValue metric s = .fin 0 ∧ earlier) := by
  obtain ⟨q, hq⟩ := metricValue_succeeded hs hok metric
  have hkey : rankKey metric s = (q : WithTop ℚ) := by
    unfold rankKey
    rw [hq]
  rw [hkey, hq]
  by_cases hinf : metric = .profitFactor ∧ r.profitFactor = .posInf
  · have htop : rankKey metric r = ⊤ := by
      unfold rankKey
      rw [metricValue_failed hr hfailed, if_pos hinf]
    rw [htop]
    simp [hinf]
  · have hzero : rankKey metric r = ((0 : ℚ) : WithTop ℚ) := by
      unfold rankKey
      rw [metricValue_failed hr hfailed, if_neg hinf]
    rw [hzero, WithTop.coe_lt_coe, WithTop.coe_inj, and_iff_right hinf]
    simp [PyFloat.lt, eq_comm]

/-- **When the failures are ranked last.** -/
theorem failuresLast_sortResults_iff {results : List OptimizationResult}
    (h : ∀ r ∈ results, FromBacktest r) (metric : RankingMetric) :
    FailuresLast (sortResults metric results) ↔ FailuresOutscored metric results := by
  unfold FailuresLast FailuresOutscored
  rw [sortResults_eq_rankBy h, pairwise_rankBy_iff]
  refine forall_congr' fun i => forall_congr' fun j => forall_congr' fun hi =>
    forall_congr' fun hj => forall_congr' fun hfailed => forall_congr' fun hok => ?_
  exact outranks_failed_iff (h _ (List.getElem_mem hi)) (h _ (List.getElem_mem hj)) hfailed hok
    metric (j < i)

/-- Giving the results their ranks moves none. -/
theorem failuresLast_numberRanks (results : List OptimizationResult) :
    FailuresLast (numberRanks results) ↔ FailuresLast results := by
  have hnumber : (numberRanks results).map (fun r => decide (OptimizationResult.Failed r)) =
      results.map fun r => decide (OptimizationResult.Failed r) := by
    refine List.ext_getElem (by simp [numberRanks]) fun i _ _ => ?_
    simp only [numberRanks, List.getElem_map, List.getElem_mapIdx]
    rfl
  have hread (rs : List OptimizationResult) : FailuresLast rs ↔
      (rs.map fun r => decide (OptimizationResult.Failed r)).Pairwise
        fun a b => a = true → b = true := by
    unfold FailuresLast
    rw [List.pairwise_map]
    simp only [decide_eq_true_eq]
  rw [hread, hnumber, ← hread]

/-- The best of a list with the failures last is a success if there is one. -/
theorem FailuresLast.head {best : OptimizationResult} {rest : List OptimizationResult}
    (h : FailuresLast (best :: rest))
    (hsome : ∃ r ∈ best :: rest, ¬ OptimizationResult.Failed r) :
    ¬ OptimizationResult.Failed best := by
  obtain ⟨r, hr, hok⟩ := hsome
  intro hfailed
  rcases List.mem_cons.mp hr with rfl | hr
  · exact hok hfailed
  · exact hok ((List.pairwise_cons.mp h).1 r hr hfailed)

section Optimizers

variable {D δ ι σ : Type} [LinearOrder ι]

/-- A grid search over a window with bars, within the limit on combinations,
picks the best of the sorted results. -/
theorem runGridSearch_best {env : WalkForwardDeps D δ ι σ} {definition : D}
    {combinations : List Kwargs} {bars : List Bar} {metric : String} {metadata : Kwargs}
    {trainFrame : Option (Frame ι)} (hlimit : combinations.length ≤ 100) (hbars : bars ≠ []) :
    (WalkForwardOptimizer.runGridSearch env definition combinations bars metric metadata
        trainFrame).best =
      (sortResults (resolveMetric metric) (WalkForwardOptimizer.gridResults env definition
        combinations bars metadata trainFrame)).head? := by
  unfold WalkForwardOptimizer.runGridSearch
  rw [if_neg (not_lt.mpr hlimit), if_neg (by rwa [List.isEmpty_iff])]
  dsimp only
  split
  · next heq => rw [heq]; rfl
  · next heq => rw [heq]; rfl

/-- **When the optimizers rank every failure behind every success**, for the
grid search and for the training window of a walk-forward fold, whose picked
parameters then are those of a success if any combination succeeded. -/
theorem failures_ranked_last_iff (deps : OptimizerDeps D δ ι σ) (env : WalkForwardDeps D δ ι σ)
    (definition : D) (combinations : List Kwargs) (metadata : Kwargs)
    (baseFrame : Option (Frame ι)) (bars : List Bar) (metric : String) :
    (FailuresLast (GridSearchOptimizer.rankedResults deps definition combinations metadata
        baseFrame metric) ↔
      FailuresOutscored (resolveMetric metric) (combinations.map fun params =>
        GridSearchOptimizer.backtestOne deps definition params metadata baseFrame)) ∧
    ((FailuresLast (sortResults (resolveMetric metric)
          (WalkForwardOptimizer.gridResults env definition combinations bars metadata
            baseFrame)) ∧
        (combinations.length ≤ 100 → bars ≠ [] →
          (∃ r ∈ WalkForwardOptimizer.gridResults env definition combinations bars metadata
            baseFrame, ¬ OptimizationResult.Failed r) →
          ∃ best, (WalkForwardOptimizer.runGridSearch env definition combinations bars metric
            metadata baseFrame).best = some best ∧ ¬ OptimizationResult.Failed best)) ↔
      FailuresOutscored (resolveMetric metric)
        (WalkForwardOptimizer.gridResults env definition combinations bars metadata
          baseFrame)) := by
  have hgrid : ∀ r ∈ combinations.map fun params =>
      GridSearchOptimizer.backtestOne deps definition params metadata baseFrame,
      FromBacktest r := by
    intro r hr
    obtain ⟨params, -, rfl⟩ := List.mem_map.mp hr
    exact fromBacktest_evaluate _ _ deps definition params metadata baseFrame
  have hfold : ∀ r ∈ WalkForwardOptimizer.gridResults env definition combinations bars metadata
      baseFrame, FromBacktest r := by
    intro r hr
    obtain ⟨params, -, rfl⟩ := List.mem_map.mp hr
    exact fromBacktest_evaluate _ _ (env.deps bars) definition params metadata baseFrame
  constructor
  · unfold GridSearchOptimizer.rankedResults
    rw [failuresLast_numberRanks]
    exact failuresLast_sortResults_iff hgrid (resolveMetric metric)
  · rw [← failuresLast_sortResults_iff hfold (resolveMetric metric)]
    refine and_iff_left_of_imp ?_
    intro hlast hlimit hbars hsome
    rw [runGridSearch_best hlimit hbars]
    have hsorted : ∃ r ∈ sortResults (resolveMetric metric)
        (WalkForwardOptimizer.gridResults env definition combinations bars metadata baseFrame),
        ¬ OptimizationResult.Failed r := by
      obtain ⟨r, hr, hok⟩ := hsome
      refine ⟨r, ?_, hok⟩
      rw [sortResults_eq_rankBy hfold]
      exact mem_rankBy.mpr hr
    cases hranked : sortResults (resolveMetric metric)
        (WalkForwardOptimizer.gridResults env definition combinations bars metadata baseFrame) with
    | nil =>
        rw [hranked] at hsorted
        obtain ⟨r, hr, -⟩ := hsorted
        cases hr
    | cons best rest =>
        rw [hranked] at hsorted hlast
        exact ⟨best, rfl, hlast.head hsorted⟩

end Optimizers

/-! ## §4 A losing strategy beside a failed one -/

/-- A row at a price. -/
def pricedRow (index : ℕ) (price : ℚ) : Row ℕ where
  index := index
  label := "row"
  date := "2024-01-01"
  openPrice := some price
  high := some price
  low := some price
  close := some price
  extra := []

/-- The price halves after the entry. -/
def fallingFrame : Frame ℕ where
  columns := ["open", "high", "low", "close"]
  rows := [pricedRow 0 100, pricedRow 1 100, pricedRow 2 50]

/-- Optimizers whose definition is valid for the parameter `1` only, and then
buys into the fall. -/
def fallingDeps : OptimizerDeps Unit Unit ℕ Unit where
  parse _ params := .ok (if (params.pop "fast" .none).truthy then
    some { definition := (), requiredColumns := ["close"], hasInformative := false,
           hasFeatures := false }
    else none)
  barsToFrame := .ok fallingFrame
  mergeInformative _ := .ok fallingFrame
  calculateFeatures := none
  createStrategy _ := (buyAlways, ())
  runner :=
    { floatMath := { sqrt := fun _ => 0, pow := fun _ _ => 0 }
      fromisoformat := fun _ => none }

/-- The results of a valid combination and then an invalid one. -/
def fallingResults : List OptimizationResult :=
  [[("fast", .ofRat 1)], [("fast", .ofRat 0)]].map fun params =>
    GridSearchOptimizer.backtestOne fallingDeps () params [] (some fallingFrame)

/-- The combination that fails validation is ranked ahead of the one that
traded at a loss. -/
theorem failed_ranked_first :
    ¬ FailuresLast (GridSearchOptimizer.rankedResults fallingDeps ()
      [[("fast", .ofRat 1)], [("fast", .ofRat 0)]] [] (some fallingFrame) "total_return") := by
  have hresults : ∀ r ∈ fallingResults, FromBacktest r := by
    intro r hr
    obtain ⟨params, -, rfl⟩ := List.mem_map.mp hr
    exact fromBacktest_evaluate _ _ fallingDeps () params [] (some fallingFrame)
  unfold GridSearchOptimizer.rankedResults
  rw [failuresLast_numberRanks]
  intro h
  have houtscored := (failuresLast_sortResults_iff hresults _).mp h 1 0 (by decide) (by decide)
    (by decide +kernel) (by decide +kernel)
  exact absurd houtscored.2 (by decide +kernel)

end Finbar.Optimization
