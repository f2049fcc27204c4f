/-
Finbar.Optimization.FoldRunTheorems — the ranges of the walk-forward folds, which
of them a job runs, and the progress it reports.

Every fold trains before it tests and keeps to the bars (`folds_wellFormed`). The
folds that a job runs are counted twice: beforehand, with `min_test_bars`, for the
total of the job, and in the loop, where the minimum that a fold carries, one bar,
comes before `min_test_bars`. The two counts agree exactly when no fold has test
bars but fewer than `min_test_bars` (`runs_counted_folds_iff`).

No `sorry`, no `axiom`.
-/
import Finbar.Optimization.FoldTheorems
import Finbar.Optimization.JobTheorems

namespace Finbar.Optimization

open Lib Lib.Python Finbar.Backtest

/-! ## §1 The ranges of a fold -/

/-- The ranges of a fold keep to the bars, the training range ends where the test
range starts, and the counts are their lengths. -/
structure FoldIndices.WellFormed (totalBars : ℤ) (fold : FoldIndices) : Prop where
  train_nonneg : 0 ≤ fold.trainStart
  train_ordered : fold.trainStart ≤ fold.trainEnd
  test_follows : fold.trainEnd = fold.testStart
  train_within : fold.trainEnd ≤ totalBars
  test_within : fold.testEnd ≤ totalBars
  train_count : fold.trainCount = fold.trainEnd - fold.trainStart
  test_count : fold.testCount = max 0 (fold.testEnd - fold.testStart)
  trains_first : fold.trainWindow.Precedes fold.testWindow

section Ranges

variable {totalBars foldSize : ℤ} {trainRatio : ℚ}

theorem anchoredFold_wellFormed {i n : ℕ} (hi : i < n) (hsize : 0 ≤ foldSize)
    (hfit : n * foldSize ≤ totalBars) :
    (anchoredFold totalBars foldSize i).WellFormed totalBars := by
  have hend : ((i : ℤ) + 1) * foldSize ≤ totalBars := by
    refine le_trans (mul_le_mul_of_nonneg_right ?_ hsize) hfit
    exact_mod_cast hi
  exact
    { train_nonneg := le_rfl
      train_ordered := mul_nonneg (by omega) hsize
      test_follows := rfl
      train_within := hend
      test_within := min_le_right _ _
      train_count := (sub_zero _).symm
      test_count := rfl
      trains_first := Window.precedes_of_stop_le le_rfl }

/-- A ratio between zero and one trains on a part of the fold. -/
theorem trainLength_bounds (hsize : 0 ≤ foldSize) (hratio : 0 ≤ trainRatio ∧ trainRatio ≤ 1) :
    0 ≤ trainLength foldSize trainRatio ∧ trainLength foldSize trainRatio ≤ foldSize := by
  have hsize' : (0 : ℚ) ≤ foldSize := by exact_mod_cast hsize
  have hpart : 0 ≤ (foldSize : ℚ) * trainRatio := mul_nonneg hsize' hratio.1
  unfold trainLength truncate
  rw [if_pos hpart]
  refine ⟨Int.floor_nonneg.mpr hpart, ?_⟩
  have hle : (⌊(foldSize : ℚ) * trainRatio⌋ : ℚ) ≤ foldSize :=
    (Int.floor_le _).trans (mul_le_of_le_one_right hsize' hratio.2)
  exact_mod_cast hle

theorem rollingFold_wellFormed (hratio : 0 ≤ trainRatio ∧ trainRatio ≤ 1)
    (hsize : 0 ≤ foldSize) {i : ℕ} (hfit : i * (foldSize / 2) + foldSize ≤ totalBars) :
    (rollingFold totalBars foldSize trainRatio i).WellFormed totalBars := by
  obtain ⟨hlength, hlength'⟩ := trainLength_bounds hsize hratio
  have hslide : 0 ≤ (i : ℤ) * (foldSize / 2) :=
    mul_nonneg (by omega) (Int.ediv_nonneg hsize (by omega))
  exact
    { train_nonneg := hslide
      train_ordered := le_add_of_nonneg_right hlength
      test_follows := rfl
      train_within := (Int.add_le_add_left hlength' _).trans hfit
      test_within := min_le_right _ _
      train_count := rfl
      test_count := rfl
      trains_first := Window.precedes_of_stop_le le_rfl }

/-- The extra fold is well formed because the fold before it is. -/
theorem tailFold_wellFormed {last : FoldIndices} (h : last.WellFormed totalBars)
    (hsize : 0 ≤ foldSize) (htest : last.testStart ≤ last.testEnd) :
    (tailFold totalBars foldSize last).WellFormed totalBars := by
  have hstart : 0 ≤ last.testStart := h.test_follows ▸ h.train_nonneg.trans h.train_ordered
  have hwithin : last.testStart ≤ totalBars := h.test_follows ▸ h.train_within
  have hend : last.testStart ≤ min totalBars (last.testEnd + foldSize) :=
    le_min hwithin (htest.trans (le_add_of_nonneg_right hsize))
  exact
    { train_nonneg := le_max_left _ _
      train_ordered := max_le hstart (sub_le_self _ hsize)
      test_follows := rfl
      train_within := hwithin
      test_within := min_le_left _ _
      train_count := rfl
      test_count := (max_eq_right (sub_nonneg.mpr hend)).symm
      trains_first := Window.precedes_of_stop_le le_rfl }

end Ranges

/-- **Every fold is well formed**, in both modes and the extra fold included. -/
theorem folds_wellFormed {totalBars folds : ℤ} {trainRatio : ℚ} {anchor : String}
    (hratio : 0 ≤ trainRatio ∧ trainRatio ≤ 1) :
    ∀ fold ∈ computeFoldIndices totalBars folds trainRatio anchor,
      fold.WellFormed totalBars := by
  unfold computeFoldIndices
  by_cases hnone : totalBars < 3 ∨ folds < 2
  · rw [if_pos hnone]
    exact fun fold hfold => nomatch hfold
  obtain ⟨hbars, hfolds⟩ : 3 ≤ totalBars ∧ 2 ≤ folds := by omega
  have hsize : 0 ≤ totalBars / folds := Int.ediv_nonneg (by omega) (by omega)
  have hfit : folds * (totalBars / folds) ≤ totalBars := Int.mul_ediv_self_le (by omega)
  rw [if_neg hnone]
  dsimp only
  by_cases hanchor : anchor = "anchored"
  · rw [if_pos hanchor]
    intro fold hfold
    obtain ⟨i, hi, rfl⟩ := List.mem_map.mp hfold
    refine anchoredFold_wellFormed (List.mem_range.mp hi) hsize ?_
    rwa [Int.toNat_of_nonneg (by omega)]
  rw [if_neg hanchor]
  obtain ⟨n, hn⟩ : ∃ n : ℕ, (folds - 1).toNat = n + 1 := ⟨(folds - 2).toNat, by omega⟩
  -- the last rolling fold starts `n` half folds behind the first, and `n + 2` folds fit
  have hrolling (i : ℕ) (hi : i ≤ n) :
      (rollingFold totalBars (totalBars / folds) trainRatio i).WellFormed totalBars := by
    refine rollingFold_wellFormed hratio hsize ?_
    have hslide : (i : ℤ) * (totalBars / folds / 2) ≤ (folds - 2) * (totalBars / folds) :=
      mul_le_mul (by omega) (by omega) (Int.ediv_nonneg hsize (by omega)) (by omega)
    calc (i : ℤ) * (totalBars / folds / 2) + totalBars / folds
        ≤ (folds - 2) * (totalBars / folds) + totalBars / folds := by omega
      _ = folds * (totalBars / folds) - totalBars / folds := by ring
      _ ≤ totalBars := by omega
  rw [hn, withTail_rolling]
  intro fold hfold
  rcases List.mem_append.mp hfold with hfold | hfold
  · obtain ⟨i, hi, rfl⟩ := List.mem_map.mp hfold
    exact hrolling i (Nat.lt_succ_iff.mp (List.mem_range.mp hi))
  · split at hfold
    · obtain rfl := List.mem_singleton.mp hfold
      have hlast := hrolling n le_rfl
      refine tailFold_wellFormed hlast hsize (le_min (le_add_of_nonneg_right hsize) ?_)
      exact hlast.test_follows ▸ hlast.train_within
    · cases hfold

/-- Four rolling folds over 100 bars, and the extra one behind the third. -/
theorem folds_wellFormed_hundred :
    (computeFoldIndices 100 4 (7 / 10) "rolling").Forall fun fold => fold.WellFormed 100 :=
  List.forall_iff_forall_mem.mpr
    (folds_wellFormed ⟨by decide +kernel, by decide +kernel⟩)

/-! ## §2 The folds that are run -/

/-- The fold counts for the total of the job: it has the training bars and the test
bars that the configuration asks for. -/
def FoldIndices.Counted (config : WalkForwardConfig) (fold : FoldIndices) : Prop :=
  config.minTrainBars ≤ fold.trainCount ∧ max 1 config.minTestBars ≤ fold.testCount

instance (config : WalkForwardConfig) (fold : FoldIndices) : Decidable (fold.Counted config) :=
  inferInstanceAs (Decidable (_ ∧ _))

/-- The folds that the loop of `_sync_run` runs, with their numbers. -/
def executedFolds (config : WalkForwardConfig) (indices : List FoldIndices) :
    List (FoldIndices × ℕ) :=
  indices.zipIdx.filter fun p => p.1.enoughBars config

/-- The walk-forward result that a job stores comes from the loop over the folds; nothing is
stored if no fold has a test bar. -/
structure StoresLoop (runFold : ℕ → List Bar → List Bar → WalkForwardFold)
    (config : WalkForwardConfig) (bars : List Bar) (jobs : List OptimizationJob) : Prop where
  folds : ∀ job ∈ jobs, ∀ result, job.walkForwardResult = some result →
    result.folds = foldResults runFold config bars (jobFolds config bars)
  stored : (∃ job ∈ jobs, job.walkForwardResult ≠ none) ↔
    ∃ fold ∈ jobFolds config bars, 0 < fold.testCount

/-- The loop runs the folds that are counted; the result that the job stores, if a fold has a
test bar, has the outcomes of these and records all others as skipped. -/
structure RunsCounted (runFold : ℕ → List Bar → List Bar → WalkForwardFold)
    (config : WalkForwardConfig) (bars : List Bar) (jobs : List OptimizationJob) : Prop where
  runs : ∀ p ∈ (jobFolds config bars).zipIdx, p.1.Counted config →
    p ∈ executedFolds config (jobFolds config bars) ∧
      ∀ job ∈ jobs, ∀ result, job.walkForwardResult = some result →
        result.folds[p.2]? =
          some (runFold p.2 (Window.pySlice bars p.1.trainStart p.1.trainEnd)
            (Window.pySlice bars p.1.testStart p.1.testEnd))
  skips : ∀ p ∈ (jobFolds config bars).zipIdx, ¬ p.1.Counted config →
    p ∉ executedFolds config (jobFolds config bars) ∧
      ∀ job ∈ jobs, ∀ result, job.walkForwardResult = some result →
        ∃ r, result.folds[p.2]? = some r ∧ r.skipped = true
  stored : (∃ job ∈ jobs, job.walkForwardResult ≠ none) ↔
    ∃ fold ∈ jobFolds config bars, 0 < fold.testCount

/-- No fold that is long enough to be run has test bars but fewer than
`min_test_bars`. -/
def TestsEnough (config : WalkForwardConfig) (bars : List Bar) : Prop :=
  ∀ fold ∈ jobFolds config bars, config.minTrainBars ≤ fold.trainCount →
    1 ≤ fold.testCount → config.minTestBars ≤ fold.testCount

instance (config : WalkForwardConfig) (bars : List Bar) : Decidable (TestsEnough config bars) :=
  inferInstanceAs (Decidable (∀ fold ∈ jobFolds config bars, _))

/-- Every fold carries a minimum of one test bar. -/
theorem minTest_eq_one {totalBars folds : ℤ} {trainRatio : ℚ} {anchor : String} :
    ∀ fold ∈ computeFoldIndices totalBars folds trainRatio anchor, fold.minTest = 1 := by
  unfold computeFoldIndices
  split
  · simp
  · dsimp only
    split
    · simp [anchoredFold]
    · have hrolling (n : ℕ) : ∀ fold ∈ (List.range n).map
          (rollingFold totalBars (totalBars / folds) trainRatio), fold.minTest = 1 := by
        simp [rollingFold]
      unfold withTail
      split
      · split
        · intro fold hfold
          rcases List.mem_append.mp hfold with hfold | hfold
          · exact hrolling _ fold hfold
          · obtain rfl := List.mem_singleton.mp hfold
            rfl
        · exact hrolling _
      · exact hrolling _

/-- The loop asks a fold for one test bar only. -/
theorem enoughBars_iff {config : WalkForwardConfig} {bars : List Bar} {fold : FoldIndices}
    (hfold : fold ∈ jobFolds config bars) :
    fold.enoughBars config = true ↔
      config.minTrainBars ≤ fold.trainCount ∧ 1 ≤ fold.testCount := by
  simp [FoldIndices.enoughBars, minTest_eq_one fold hfold]

theorem counted_iff {config : WalkForwardConfig} {fold : FoldIndices} :
    fold.Counted config ↔ config.minTrainBars ≤ fold.trainCount ∧ 1 ≤ fold.testCount ∧
      config.minTestBars ≤ fold.testCount := by
  simp [FoldIndices.Counted]

theorem mem_executedFolds {config : WalkForwardConfig} {bars : List Bar} {p : FoldIndices × ℕ}
    (hp : p ∈ (jobFolds config bars).zipIdx) :
    p ∈ executedFolds config (jobFolds config bars) ↔
      config.minTrainBars ≤ p.1.trainCount ∧ 1 ≤ p.1.testCount := by
  simp [executedFolds, hp, enoughBars_iff (List.fst_mem_of_mem_zipIdx hp)]

theorem foldResults_getElem? (runFold : ℕ → List Bar → List Bar → WalkForwardFold)
    {config : WalkForwardConfig} {bars : List Bar} {p : FoldIndices × ℕ}
    (hp : p ∈ (jobFolds config bars).zipIdx) :
    (foldResults runFold config bars (jobFolds config bars))[p.2]? =
      some (foldResult runFold config bars p.2 p.1) := by
  have hget : (jobFolds config bars)[p.2]? = some p.1 :=
    List.mk_mem_zipIdx_iff_getElem?.mp hp
  simp [foldResults, hget]

/-- The loop runs the counted folds exactly when every fold with a test bar has
enough of them. -/
theorem runsCounted_iff {runFold : ℕ → List Bar → List Bar → WalkForwardFold}
    {config : WalkForwardConfig} {bars : List Bar} {jobs : List OptimizationJob}
    (hjobs : StoresLoop runFold config bars jobs) :
    RunsCounted runFold config bars jobs ↔ TestsEnough config bars := by
  constructor
  · intro h fold hfold htrain htest
    obtain ⟨i, hi⟩ := List.mem_iff_getElem?.mp hfold
    have hp : (fold, i) ∈ (jobFolds config bars).zipIdx :=
      List.mk_mem_zipIdx_iff_getElem?.mpr hi
    by_contra hfew
    have hskipped := (h.skips _ hp fun hcounted => hfew (counted_iff.mp hcounted).2.2).1
    exact hskipped ((mem_executedFolds hp).mpr ⟨htrain, htest⟩)
  · intro h
    have hcounted {p : FoldIndices × ℕ} (hp : p ∈ (jobFolds config bars).zipIdx) :
        p ∈ executedFolds config (jobFolds config bars) ↔ p.1.Counted config := by
      rw [mem_executedFolds hp, counted_iff]
      have := h p.1 (List.fst_mem_of_mem_zipIdx hp)
      tauto
    have henough {p : FoldIndices × ℕ} (hp : p ∈ (jobFolds config bars).zipIdx) :
        p.1.enoughBars config = true ↔ p.1.Counted config := by
      rw [enoughBars_iff (List.fst_mem_of_mem_zipIdx hp), ← mem_executedFolds hp, hcounted hp]
    refine ⟨fun p hp hc => ⟨(hcounted hp).mpr hc, fun job hjob result hresult => ?_⟩,
      fun p hp hc => ⟨?_, fun job hjob result hresult => ?_⟩, hjobs.stored⟩
    · rw [hjobs.folds job hjob result hresult, foldResults_getElem? runFold hp, foldResult,
        if_pos ((henough hp).mpr hc)]
    · exact fun hexecuted => hc ((hcounted hp).mp hexecuted)
    · rw [hjobs.folds job hjob result hresult]
      refine ⟨_, foldResults_getElem? runFold hp, ?_⟩
      rw [foldResult, if_neg fun henough' => hc ((henough hp).mp henough')]

/-! ## §3 Progress -/

/-- The job after each update of its worker, from the start on. -/
def WorkerRun.jobs (run : WorkerRun) : List OptimizationJob :=
  run.updates.scanl OptimizationJob.update {}

/-- A job never reports more runs than its total, its progress stays within 0 to 100
and never falls. -/
structure ProgressSound (jobs : List OptimizationJob) : Prop where
  done_le : ∀ job ∈ jobs, job.combinationsDone ≤ job.totalCombinations
  pct_le : ∀ job ∈ jobs, job.progressPct ≤ 100
  pct_mono : jobs.Pairwise fun job later => job.progressPct ≤ later.progressPct

/-- One more job in front that is behind all others. -/
theorem ProgressSound.cons {job : OptimizationJob} {jobs : List OptimizationJob}
    (h : ProgressSound jobs) (hdone : job.combinationsDone ≤ job.totalCombinations)
    (hpct : job.progressPct ≤ 100) (hmono : ∀ later ∈ jobs, job.progressPct ≤ later.progressPct) :
    ProgressSound (job :: jobs) where
  done_le := List.forall_mem_cons.mpr ⟨hdone, h.done_le⟩
  pct_le := List.forall_mem_cons.mpr ⟨hpct, h.pct_le⟩
  pct_mono := List.pairwise_cons.mpr ⟨hmono, h.pct_mono⟩

/-- The last `run` of `executable` folds, from a job that has `k` of them behind it. -/
theorem progressSound_folds {executable n : ℕ} {completed : JobUpdate}
    (hpct : completed.progressPct = some 100)
    (hdone : completed.combinationsDone = some executable)
    (htotal : completed.totalCombinations = none) (run : List (FoldIndices × ℕ)) {k : ℕ}
    (hk : k + run.length = executable) (job : OptimizationJob)
    (hjob : job.totalCombinations = max executable 1) (hjobDone : job.combinationsDone ≤ k)
    (hjobPct : job.progressPct ≤ k * 100 / max executable 1) :
    let jobs := (run.mapIdx (fun i p => foldProgress executable n (k + i) p.2)
      ++ [completed]).scanl OptimizationJob.update job
    ProgressSound jobs ∧ ∀ later ∈ jobs, job.progressPct ≤ later.progressPct := by
  have hbehind : k * 100 / max executable 1 ≤ 100 :=
    Nat.div_le_of_le_mul (Nat.mul_le_mul_right 100 (by omega))
  induction run generalizing k job with
  | nil =>
      have hpct' : (job.update completed).progressPct = 100 := by
        simp [OptimizationJob.update, hpct]
      have hdone' : (job.update completed).combinationsDone
          ≤ (job.update completed).totalCombinations := by
        simp [OptimizationJob.update, hdone, htotal, hjob]
      have hlast : ProgressSound [job.update completed] :=
        ⟨by simpa using hdone', by simp [hpct'], List.pairwise_singleton _ _⟩
      simp only [List.mapIdx_nil, List.nil_append, List.scanl_singleton]
      refine ⟨hlast.cons (by omega) (by omega) ?_, ?_⟩
      · simp only [List.mem_singleton, forall_eq, hpct']
        omega
      · simp only [List.mem_cons, List.not_mem_nil, or_false, forall_eq_or_imp, forall_eq,
          le_refl, hpct', true_and]
        omega
  | cons p run ih =>
      have hlength : k + 1 + run.length = executable := by
        rw [← hk, List.length_cons]
        omega
      have hpos : 0 < executable := by omega
      have hstep : (k : ℕ) * 100 / max executable 1 ≤ (k + 1) * 100 / max executable 1 :=
        Nat.div_le_div_right (by omega)
      obtain ⟨hsound, hmono⟩ := ih (k := k + 1) hlength
        (job.update (foldProgress executable n k p.2)) hjob (Nat.le_succ k)
        (by simpa [OptimizationJob.update, foldProgress, hpos] using hstep)
        (Nat.div_le_of_le_mul (Nat.mul_le_mul_right 100 (by omega)))
      have hnow : job.progressPct ≤ (job.update (foldProgress executable n k p.2)).progressPct := by
        simpa [OptimizationJob.update, foldProgress, hpos] using hjobPct
      have hshift : (fun (i : ℕ) (q : FoldIndices × ℕ) =>
          foldProgress executable n (k + (i + 1)) q.2) =
            fun i q => foldProgress executable n (k + 1 + i) q.2 := by
        funext i q
        rw [Nat.add_right_comm, Nat.add_assoc k i 1]
      simp only [List.mapIdx_cons, List.cons_append, List.scanl_cons, Nat.add_zero, hshift]
      have hlater : ∀ later ∈ (run.mapIdx (fun i q => foldProgress executable n (k + 1 + i) q.2)
          ++ [completed]).scanl OptimizationJob.update
            (job.update (foldProgress executable n k p.2)),
          job.progressPct ≤ later.progressPct :=
        fun later h => hnow.trans (hmono later h)
      refine ⟨hsound.cons (by omega) (by omega) hlater, ?_⟩
      exact List.forall_mem_cons.mpr ⟨le_rfl, hlater⟩

variable {D δ ι σ : Type} [LinearOrder ι]

/-- What a job has stored it had at first, or an update has brought. -/
theorem stored_of_mem_scanl {updates : List JobUpdate} {first job : OptimizationJob}
    {result : WalkForwardResult} (hjob : job ∈ updates.scanl OptimizationJob.update first)
    (hresult : job.walkForwardResult = some result) :
    first.walkForwardResult = some result ∨ ∃ u ∈ updates, u.walkForwardResult = some result := by
  induction updates generalizing first with
  | nil =>
      rw [List.scanl_nil, List.mem_singleton] at hjob
      exact .inl (hjob ▸ hresult)
  | cons u updates ih =>
      rw [List.scanl_cons, List.mem_cons] at hjob
      rcases hjob with rfl | hjob
      · exact .inl hresult
      · rcases ih hjob with hfirst | ⟨later, hlater, hstored⟩
        · rcases Option.or_eq_some_iff.mp hfirst with hu | ⟨-, hfirst⟩
          · exact .inr ⟨u, List.mem_cons_self, hu⟩
          · exact .inl hfirst
        · exact .inr ⟨later, List.mem_cons_of_mem u hlater, hstored⟩

/-- What the last update brings the job stores. -/
theorem exists_stored_of_last {last : JobUpdate} (hlast : last.walkForwardResult ≠ none)
    (updates : List JobUpdate) (first : OptimizationJob) :
    ∃ job ∈ (updates ++ [last]).scanl OptimizationJob.update first,
      job.walkForwardResult ≠ none := by
  induction updates generalizing first with
  | nil =>
      refine ⟨first.update last, by simp, fun hnone => hlast ?_⟩
      exact (Option.or_eq_none_iff.mp hnone).1
  | cons u updates ih =>
      obtain ⟨job, hjob, hstored⟩ := ih (first.update u)
      rw [List.cons_append, List.scanl_cons]
      exact ⟨job, List.mem_cons_of_mem first hjob, hstored⟩

theorem walkForwardResult_eq_ok {fm : FloatMath} {diagnostics : FoldDiagnostics}
    {runFold : ℕ → List Bar → List Bar → WalkForwardFold} {config : WalkForwardConfig}
    {bars : List Bar} {result : WalkForwardResult}
    (h : walkForwardResult fm diagnostics runFold config bars = .ok result) :
    (∃ fold ∈ jobFolds config bars, 0 < fold.testCount) ∧
      result.folds = foldResults runFold config bars (jobFolds config bars) := by
  unfold walkForwardResult at h
  dsimp only at h
  split at h
  · cases h
  · rename_i hsome
    refine ⟨by simpa using hsome, ?_⟩
    cases h
    unfold aggregateFolds
    dsimp only
    split <;> rfl

theorem walkForwardResult_eq_error {fm : FloatMath} {diagnostics : FoldDiagnostics}
    {runFold : ℕ → List Bar → List Bar → WalkForwardFold} {config : WalkForwardConfig}
    {bars : List Bar} {message : Message}
    (h : walkForwardResult fm diagnostics runFold config bars = .error message) :
    ¬ ∃ fold ∈ jobFolds config bars, 0 < fold.testCount := by
  unfold walkForwardResult at h
  dsimp only at h
  split at h
  · rename_i hnone
    simpa using hnone
  · cases h

/-- `_run_fold` of a job. -/
def WalkForwardOptimizer.jobFold (env : RunnerDeps D δ ι σ) (request : JobRequest D) :
    ℕ → List Bar → List Bar → WalkForwardFold :=
  WalkForwardOptimizer.runFold env.toWalkForwardDeps request.definition request.combinations
    request.metric request.metadata

/-- The updates of a run that has its bars and its configuration: a failure if no fold has a
test bar, or the folds that are executed and then the result. -/
theorem syncRun_updates {env : RunnerDeps D δ ι σ} {request : JobRequest D} {bars : List Bar}
    {config : WalkForwardConfig} (hbars : resolveArtifact env request.metadata = .ok bars)
    (hconfig : walkForwardConfig request.metadata = .ok config) :
    let indices := jobFolds config bars
    let executable := executableFolds config indices
    let run := executedFolds config indices
    let updates := (WalkForwardOptimizer.syncRun env request).updates
    (¬ (∃ fold ∈ indices, 0 < fold.testCount) ∧ ∃ message, updates = [failedUpdate message]) ∨
      ∃ (completed : JobUpdate) (result : WalkForwardResult), completed.progressPct = some 100 ∧
        completed.combinationsDone = some run.length ∧ completed.totalCombinations = none ∧
        completed.walkForwardResult = some result ∧
        ((∃ fold ∈ indices, 0 < fold.testCount) ∧
          result.folds = foldResults (WalkForwardOptimizer.jobFold env request) config bars indices) ∧
        updates = { status := some .running, totalCombinations := some (max executable 1) } ::
          run.mapIdx (fun i p => foldProgress executable indices.length i p.2)
            ++ [completed] := by
  unfold WalkForwardOptimizer.syncRun
  simp only [hbars, hconfig, bind, Except.bind, pure, Except.pure]
  cases hresult : walkForwardResult env.floatMath env.diagnostics _ config bars with
  | error message => exact Or.inl ⟨walkForwardResult_eq_error hresult, message, rfl⟩
  | ok result =>
      exact Or.inr ⟨_, result, rfl, rfl, rfl, rfl, walkForwardResult_eq_ok hresult, rfl⟩

theorem storesLoop_syncRun {env : RunnerDeps D δ ι σ} {request : JobRequest D} {bars : List Bar}
    {config : WalkForwardConfig} (hbars : resolveArtifact env request.metadata = .ok bars)
    (hconfig : walkForwardConfig request.metadata = .ok config) :
    StoresLoop (WalkForwardOptimizer.jobFold env request) config bars
      (WalkForwardOptimizer.syncRun env request).jobs := by
  unfold WorkerRun.jobs
  rcases syncRun_updates hbars hconfig with ⟨hnone, message, hupdates⟩ |
    ⟨completed, result, -, -, -, hstored, ⟨htested, hfolds⟩, hupdates⟩
  · rw [hupdates]
    exact ⟨by simp [OptimizationJob.update, failedUpdate],
      iff_of_false (by simp [OptimizationJob.update, failedUpdate]) hnone⟩
  · rw [hupdates]
    refine ⟨fun job hjob other hother => ?_, iff_of_true ?_ htested⟩
    · rcases stored_of_mem_scanl hjob hother with hfirst | ⟨u, hu, hstored'⟩
      · cases hfirst
      · rcases List.mem_append.mp hu with hu | hu
        · rcases List.mem_cons.mp hu with rfl | hu
          · cases hstored'
          · obtain ⟨i, hi, rfl⟩ := List.mem_mapIdx.mp hu
            cases hstored'
        · rw [List.mem_singleton.mp hu, hstored] at hstored'
          rw [← Option.some.inj hstored', hfolds]
    · exact exists_stored_of_last (by simp [hstored]) _ _

/-- When every fold with test bars has enough of them, as many folds are run as were
counted. -/
theorem length_executedFolds {config : WalkForwardConfig} {bars : List Bar}
    (h : TestsEnough config bars) :
    (executedFolds config (jobFolds config bars)).length =
      executableFolds config (jobFolds config bars) := by
  have hsame : ∀ fold ∈ jobFolds config bars,
      fold.enoughBars config = decide (fold.Counted config) := by
    intro fold hfold
    rw [Bool.eq_iff_iff, enoughBars_iff hfold, decide_eq_true_iff, counted_iff]
    have := h fold hfold
    tauto
  have hcounted : executableFolds config (jobFolds config bars) =
      ((jobFolds config bars).filter fun fold => fold.enoughBars config).length :=
    congrArg List.length (List.filter_congr fun fold hfold => (hsame fold hfold).symm)
  rw [hcounted, executedFolds, ← List.countP_eq_length_filter, ← List.countP_eq_length_filter]
  nth_rewrite 2 [← List.zipIdx_map_fst 0 (jobFolds config bars)]
  rw [List.countP_map]
  rfl

theorem progressSound_of_testsEnough {env : RunnerDeps D δ ι σ} {request : JobRequest D}
    {bars : List Bar} {config : WalkForwardConfig}
    (hbars : resolveArtifact env request.metadata = .ok bars)
    (hconfig : walkForwardConfig request.metadata = .ok config) (h : TestsEnough config bars) :
    ProgressSound (WalkForwardOptimizer.syncRun env request).jobs := by
  unfold WorkerRun.jobs
  rcases syncRun_updates hbars hconfig with ⟨-, message, hupdates⟩ |
    ⟨completed, -, hpct, hdone, htotal, -, -, hupdates⟩
  · rw [hupdates]
    constructor <;> simp [OptimizationJob.update, failedUpdate]
  · rw [length_executedFolds h] at hdone
    obtain ⟨hsound, hmono⟩ := progressSound_folds (n := (jobFolds config bars).length) hpct hdone
      htotal (executedFolds config (jobFolds config bars)) (k := 0)
      (by rw [length_executedFolds h, Nat.zero_add])
      (OptimizationJob.update {} { status := some .running, totalCombinations := some (max _ 1) })
      rfl le_rfl (Nat.zero_le _)
    simp only [Nat.zero_add] at hsound hmono
    rw [hupdates, List.cons_append, List.scanl_cons]
    exact hsound.cons (Nat.zero_le _) (Nat.zero_le _) fun _ _ => Nat.zero_le _

/-- **A walk-forward job runs exactly the folds it has counted, records all others as skipped
and reports sound progress, exactly when no fold that is long enough to train has test bars but
fewer than `min_test_bars`.** -/
theorem runs_counted_folds_iff {env : RunnerDeps D δ ι σ} {request : JobRequest D}
    {bars : List Bar} {config : WalkForwardConfig}
    (hbars : resolveArtifact env request.metadata = .ok bars)
    (hconfig : walkForwardConfig request.metadata = .ok config) :
    RunsCounted (WalkForwardOptimizer.jobFold env request) config bars
        (WalkForwardOptimizer.syncRun env request).jobs ∧
      ProgressSound (WalkForwardOptimizer.syncRun env request).jobs ↔
      TestsEnough config bars := by
  have hcounted := runsCounted_iff (storesLoop_syncRun hbars hconfig)
  exact ⟨fun h => hcounted.mp h.1,
    fun h => ⟨hcounted.mpr h, progressSound_of_testsEnough hbars hconfig h⟩⟩

/-- Runners over the falling prices with the given number of bars. -/
def fallingRunnerOver (n : ℕ) : RunnerDeps Unit Unit ℕ Unit :=
  { fallingRunner with artifactBars := fun _ => .ok (some (List.replicate n [])) }

/-- A walk-forward job of four rolling folds with a minimum number of test bars. -/
def fourFolds (minTestBars : ℚ) : JobRequest Unit :=
  { oneCombination with
    metadata := [("bars_artifact_id", .str "a"), ("wf_folds", .ofRat 4),
      ("wf_min_train_bars", .ofRat 10), ("wf_min_test_bars", .ofRat minTestBars)] }

/-- With at least 20 test bars each, the four folds over 100 bars are counted and
run. -/
theorem runs_counted_folds_twenty :
    ∃ config, walkForwardConfig (fourFolds 20).metadata = .ok config ∧
      RunsCounted (WalkForwardOptimizer.jobFold (fallingRunnerOver 100) (fourFolds 20)) config
        (List.replicate 100 [])
        (WalkForwardOptimizer.syncRun (fallingRunnerOver 100) (fourFolds 20)).jobs ∧
      ProgressSound (WalkForwardOptimizer.syncRun (fallingRunnerOver 100) (fourFolds 20)).jobs := by
  have hconfig : walkForwardConfig (fourFolds 20).metadata =
      .ok { folds := 4, minTrainBars := 10, minTestBars := 20 } := rfl
  exact ⟨_, hconfig, (runs_counted_folds_iff rfl hconfig).mpr (by decide +kernel)⟩

/-- **Folds that were not counted are run**: with at least 30 test bars only the
extra fold counts, but the three rolling folds of 25 test bars are run as well. Four
of one runs are reported done, and the progress rises to 300 and falls to 100. -/
theorem uncounted_folds_run :
    let job := WalkForwardOptimizer.syncRun (fallingRunnerOver 100) (fourFolds 30)
    job.jobs.map OptimizationJob.totalCombinations = [0, 1, 1, 1, 1, 1, 1] ∧
      job.jobs.map OptimizationJob.combinationsDone = [0, 0, 0, 1, 2, 3, 4] ∧
      job.jobs.map OptimizationJob.progressPct = [0, 0, 0, 100, 200, 300, 100] ∧
      ¬ ProgressSound job.jobs := by
  have hpct : (WalkForwardOptimizer.syncRun (fallingRunnerOver 100) (fourFolds 30)).jobs.map
      OptimizationJob.progressPct = [0, 0, 0, 100, 200, 300, 100] := by decide +kernel
  refine ⟨by decide +kernel, by decide +kernel, hpct, fun h => ?_⟩
  have hle : ∀ pct ∈ (WalkForwardOptimizer.syncRun (fallingRunnerOver 100)
      (fourFolds 30)).jobs.map OptimizationJob.progressPct, pct ≤ 100 :=
    List.forall_mem_map.mpr h.pct_le
  rw [hpct] at hle
  exact absurd (hle 300 (by decide)) (by decide)

end Finbar.Optimization
