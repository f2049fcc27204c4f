/-
Finbar.Optimization.FoldTheorems — which walk-forward configurations test every
bar at most once.

Rolling folds slide by half a fold and each tests a whole fold, so two
neighbours share half of their test bars, and the extra fold tests the bars of
the last rolling one again; `testRanges_apart_iff` names the configurations
that escape. `aggregateFolds_compounds` says what the aggregate return is made
of.

No `sorry`, no `axiom`.
-/
import Finbar.Optimization.WalkForward
import Mathlib.Algebra.BigOperators.Group.List.Basic
import Mathlib.Tactic.Linarith

namespace Finbar.Optimization

open Lib Lib.Python Finbar.Backtest

/-! ## §1 The ranges one builder makes -/

section Builders

variable {totalBars foldSize : ℤ} {trainRatio : ℚ}

theorem anchored_ordered (hsize : 0 ≤ foldSize) (n : ℕ) :
    Window.Ordered (((List.range n).map (anchoredFold totalBars foldSize)).map
      FoldIndices.testWindow) := by
  unfold Window.Ordered
  rw [List.map_map, List.pairwise_map]
  refine List.pairwise_lt_range.imp ?_
  intro i j hij
  refine Window.precedes_of_stop_le ?_
  show min ((i + 1) * foldSize + foldSize) totalBars ≤ (j + 1) * foldSize
  have hnext : ((i : ℤ) + 2) * foldSize ≤ (j + 1) * foldSize :=
    mul_le_mul_of_nonneg_right (by omega) hsize
  have hstop : ((i : ℤ) + 1) * foldSize + foldSize = (i + 2) * foldSize := by ring
  omega

/-- The bars of a rolling fold before its test range. -/
def trainLength (foldSize : ℤ) (trainRatio : ℚ) : ℤ :=
  truncate (foldSize * trainRatio)

theorem rollingFold_testWindow (i : ℕ) :
    (rollingFold totalBars foldSize trainRatio i).testWindow =
      { start := i * (foldSize / 2) + trainLength foldSize trainRatio
        stop := min (i * (foldSize / 2) + trainLength foldSize trainRatio + foldSize) totalBars } :=
  rfl

/-- Folds of no bars have nothing to test. -/
theorem ordered_of_empty {ws : List Window} (h : ∀ w ∈ ws, w.stop ≤ w.start) :
    Window.Ordered ws :=
  List.pairwise_of_forall_mem_list fun v hv _ _ => Window.precedes_of_left_empty (h v hv)

/-- The last of the rolling folds. -/
theorem getLast?_rolling (n : ℕ) :
    ((List.range (n + 1)).map (rollingFold totalBars foldSize trainRatio)).getLast? =
      some (rollingFold totalBars foldSize trainRatio n) := by
  rw [List.range_succ, List.map_append, List.map_singleton, List.getLast?_concat]

/-- There is an extra fold exactly when the last rolling one stops short of the
end. -/
theorem withTail_rolling (n : ℕ) :
    withTail totalBars foldSize
        ((List.range (n + 1)).map (rollingFold totalBars foldSize trainRatio)) =
      (List.range (n + 1)).map (rollingFold totalBars foldSize trainRatio) ++
        if n * (foldSize / 2) + trainLength foldSize trainRatio + foldSize < totalBars then
          [tailFold totalBars foldSize (rollingFold totalBars foldSize trainRatio n)]
        else [] := by
  unfold withTail
  rw [getLast?_rolling]
  have hend : (rollingFold totalBars foldSize trainRatio n).testEnd < totalBars ↔
      n * (foldSize / 2) + trainLength foldSize trainRatio + foldSize < totalBars := by
    show min _ totalBars < totalBars ↔ _
    rw [min_lt_iff, or_iff_left (lt_irrefl totalBars)]
    rfl
  by_cases h : n * (foldSize / 2) + trainLength foldSize trainRatio + foldSize < totalBars
  · rw [if_pos h]
    dsimp only
    rw [if_pos (hend.mpr h)]
  · rw [if_neg h, List.append_nil]
    dsimp only
    rw [if_neg (mt hend.mp h)]

theorem empty_of_size_zero (n : ℕ) :
    ∀ w ∈ (withTail totalBars 0
      ((List.range (n + 1)).map (rollingFold totalBars 0 trainRatio))).map
        FoldIndices.testWindow, w.stop ≤ w.start := by
  have hrolling (i : ℕ) : (rollingFold totalBars 0 trainRatio i).testEnd ≤
      (rollingFold totalBars 0 trainRatio i).testStart := by
    refine (min_le_left _ _).trans_eq ?_
    rw [add_zero]
    rfl
  intro w hw
  obtain ⟨fold, hfold, rfl⟩ := List.mem_map.mp hw
  rw [withTail_rolling] at hfold
  rcases List.mem_append.mp hfold with hfold | hfold
  · obtain ⟨i, -, rfl⟩ := List.mem_map.mp hfold
    exact hrolling i
  · split at hfold
    · obtain rfl := List.mem_singleton.mp hfold
      refine (min_le_right _ _).trans ?_
      rw [add_zero]
      exact hrolling n
    · cases hfold

/-- Rolling folds whose second one starts to test at the end of the bars: no
fold but the first has anything to test, and none is added. -/
theorem rolling_ordered (hsize : 0 ≤ foldSize) {n : ℕ}
    (hfirst : n = 0 → totalBars ≤ trainLength foldSize trainRatio + foldSize)
    (hsecond : n ≠ 0 → totalBars ≤ foldSize / 2 + trainLength foldSize trainRatio) :
    Window.Ordered ((withTail totalBars foldSize
      ((List.range (n + 1)).map (rollingFold totalBars foldSize trainRatio))).map
        FoldIndices.testWindow) := by
  have hhalf : 0 ≤ foldSize / 2 := Int.ediv_nonneg hsize (by omega)
  have hstart (j : ℕ) (hj : 1 ≤ j) : foldSize / 2 ≤ j * (foldSize / 2) :=
    le_mul_of_one_le_left hhalf (by omega)
  have hcovered :
      ¬ n * (foldSize / 2) + trainLength foldSize trainRatio + foldSize < totalBars := by
    rcases Nat.eq_zero_or_pos n with rfl | hn
    · have := hfirst rfl
      simp only [Nat.cast_zero, zero_mul]
      omega
    · have := hsecond (by omega)
      have := hstart n hn
      omega
  rw [withTail_rolling, if_neg hcovered, List.append_nil, List.map_map]
  unfold Window.Ordered
  rw [List.pairwise_map]
  refine List.pairwise_lt_range.imp_of_mem ?_
  intro i j _ hj hij
  refine Window.precedes_of_right_empty ?_
  have := List.mem_range.mp hj
  have := hsecond (by omega)
  have := hstart j (by omega)
  show min _ totalBars ≤ j * (foldSize / 2) + trainLength foldSize trainRatio
  omega

/-- The first two rolling folds test a common bar unless the second one starts
at the end of the bars. -/
theorem second_fold_of_ordered (hsize : 0 < foldSize) {n : ℕ}
    (h : Window.Ordered ((withTail totalBars foldSize
      ((List.range (n + 1)).map (rollingFold totalBars foldSize trainRatio))).map
        FoldIndices.testWindow)) (hn : n ≠ 0) :
    totalBars ≤ foldSize / 2 + trainLength foldSize trainRatio := by
  by_contra hlt
  rw [withTail_rolling, List.map_append, List.map_map] at h
  have hrolling := (List.pairwise_append.mp h).1
  rw [List.pairwise_map] at hrolling
  have hpair : [0, 1].Sublist (List.range (n + 1)) :=
    List.range_sublist.mpr (show 2 ≤ n + 1 by omega)
  have hfirst := List.pairwise_iff_forall_sublist.mp hrolling hpair
  refine Window.not_precedes (x := foldSize / 2 + trainLength foldSize trainRatio) ?_ ?_ hfirst
  · rw [Function.comp_apply, rollingFold_testWindow, Window.Holds]
    dsimp only
    omega
  · rw [Function.comp_apply, rollingFold_testWindow, Window.Holds]
    dsimp only
    omega

/-- The extra fold tests the bars of the last rolling one again. -/
theorem tail_fold_of_ordered (hsize : 0 < foldSize)
    (h : Window.Ordered ((withTail totalBars foldSize
      ((List.range 1).map (rollingFold totalBars foldSize trainRatio))).map
        FoldIndices.testWindow)) :
    totalBars ≤ trainLength foldSize trainRatio + foldSize := by
  by_contra hlt
  have hshort : ((0 : ℕ) : ℤ) * (foldSize / 2) + trainLength foldSize trainRatio + foldSize
      < totalBars := by
    simp only [Nat.cast_zero, zero_mul]
    omega
  rw [withTail_rolling 0, if_pos hshort] at h
  have hpair := List.pairwise_iff_forall_sublist.mp h (List.Sublist.refl _)
  refine Window.not_precedes (x := trainLength foldSize trainRatio) ?_ ?_ hpair
  · rw [rollingFold_testWindow, Window.Holds]
    dsimp only
    omega
  · show ((0 : ℕ) : ℤ) * (foldSize / 2) + trainLength foldSize trainRatio ≤ _ ∧
      _ < min totalBars (min (((0 : ℕ) : ℤ) * (foldSize / 2)
        + trainLength foldSize trainRatio + foldSize) totalBars + foldSize)
    simp only [Nat.cast_zero, zero_mul]
    omega

end Builders

/-! ## §2 When the test ranges are apart -/

/-- The condition on the configuration under which no bar is tested twice:
too few bars or folds to make any, anchored mode, more folds than bars, or
rolling folds so long before their test range that only the first one has
anything to test. -/
def TestsApart (totalBars folds : ℤ) (trainRatio : ℚ) (anchor : String) : Prop :=
  totalBars < 3 ∨ folds < 2 ∨ anchor = "anchored" ∨ totalBars < folds ∨
    (folds = 2 ∧ totalBars ≤ trainLength (totalBars / folds) trainRatio + totalBars / folds) ∨
    (2 < folds ∧ totalBars ≤ totalBars / folds / 2 + trainLength (totalBars / folds) trainRatio)

instance (totalBars folds : ℤ) (trainRatio : ℚ) (anchor : String) :
    Decidable (TestsApart totalBars folds trainRatio anchor) :=
  inferInstanceAs (Decidable (_ ∨ _))

/-- The test ranges of the folds, in order. -/
def testWindows (totalBars folds : ℤ) (trainRatio : ℚ) (anchor : String) : List Window :=
  (computeFoldIndices totalBars folds trainRatio anchor).map FoldIndices.testWindow

theorem testWindows_ordered {totalBars folds : ℤ} {trainRatio : ℚ} {anchor : String}
    (h : TestsApart totalBars folds trainRatio anchor) :
    Window.Ordered (testWindows totalBars folds trainRatio anchor) := by
  unfold testWindows computeFoldIndices
  by_cases hnone : totalBars < 3 ∨ folds < 2
  · rw [if_pos hnone]
    exact List.Pairwise.nil
  obtain ⟨hbars, hfolds⟩ : 3 ≤ totalBars ∧ 2 ≤ folds := by omega
  have hsize : 0 ≤ totalBars / folds := Int.ediv_nonneg (by omega) (by omega)
  rw [if_neg hnone]
  dsimp only
  by_cases hanchor : anchor = "anchored"
  · rw [if_pos hanchor]
    exact anchored_ordered hsize _
  rw [if_neg hanchor]
  obtain ⟨n, hn⟩ : ∃ n : ℕ, (folds - 1).toNat = n + 1 := ⟨(folds - 2).toNat, by omega⟩
  rw [hn]
  rcases h with h | h | h | h | h | h
  · omega
  · omega
  · exact absurd h hanchor
  · -- more folds than bars: every fold is empty
    have hzero : totalBars / folds = 0 := Int.ediv_eq_zero_of_lt (by omega) h
    rw [hzero]
    exact ordered_of_empty (empty_of_size_zero n)
  · refine rolling_ordered hsize (fun _ => h.2) fun hne => ?_
    omega
  · exact rolling_ordered hsize (fun hzero => by omega) fun _ => h.2

theorem testsApart_of_ordered {totalBars folds : ℤ} {trainRatio : ℚ} {anchor : String}
    (h : Window.Ordered (testWindows totalBars folds trainRatio anchor)) :
    TestsApart totalBars folds trainRatio anchor := by
  unfold testWindows computeFoldIndices at h
  by_cases hnone : totalBars < 3 ∨ folds < 2
  · rcases hnone with hbars | hfolds
    · exact Or.inl hbars
    · exact Or.inr (Or.inl hfolds)
  rw [if_neg hnone] at h
  dsimp only at h
  by_cases hanchor : anchor = "anchored"
  · exact Or.inr (Or.inr (Or.inl hanchor))
  by_cases hmore : totalBars < folds
  · exact Or.inr (Or.inr (Or.inr (Or.inl hmore)))
  have hsize : 0 < totalBars / folds := (Int.le_ediv_iff_mul_le (by omega)).mpr (by omega)
  rw [if_neg hanchor] at h
  obtain ⟨n, hn⟩ : ∃ n : ℕ, (folds - 1).toNat = n + 1 := ⟨(folds - 2).toNat, by omega⟩
  rw [hn] at h
  refine Or.inr (Or.inr (Or.inr (Or.inr ?_)))
  rcases Nat.eq_zero_or_pos n with rfl | hpos
  · exact Or.inl ⟨by omega, tail_fold_of_ordered hsize h⟩
  · exact Or.inr ⟨by omega, second_fold_of_ordered hsize h (by omega)⟩

/-- Apart test ranges start and end at bars. -/
theorem testWindow_nonneg {totalBars folds : ℤ} {trainRatio : ℚ} {anchor : String}
    (h : TestsApart totalBars folds trainRatio anchor) :
    ∀ fold ∈ computeFoldIndices totalBars folds trainRatio anchor,
      0 ≤ fold.testStart ∧ 0 ≤ fold.testEnd := by
  unfold computeFoldIndices
  by_cases hnone : totalBars < 3 ∨ folds < 2
  · rw [if_pos hnone]
    exact fun fold hfold => nomatch hfold
  obtain ⟨hbars, hfolds⟩ : 3 ≤ totalBars ∧ 2 ≤ folds := by omega
  have hsize : 0 ≤ totalBars / folds := Int.ediv_nonneg (by omega) (by omega)
  have hle : totalBars / folds ≤ totalBars := Int.ediv_le_self _ (by omega)
  rw [if_neg hnone]
  dsimp only
  by_cases hanchor : anchor = "anchored"
  · rw [if_pos hanchor]
    intro fold hfold
    obtain ⟨i, -, rfl⟩ := List.mem_map.mp hfold
    have hstart : 0 ≤ ((i : ℤ) + 1) * (totalBars / folds) := mul_nonneg (by omega) hsize
    exact ⟨hstart, le_min (by omega) (by omega)⟩
  rw [if_neg hanchor]
  -- in the rolling modes that are apart, the training length is not negative
  have hlength : 0 ≤ trainLength (totalBars / folds) trainRatio := by
    rcases h with h | h | h | h | h | h
    · omega
    · omega
    · exact absurd h hanchor
    · have hzero : totalBars / folds = 0 := Int.ediv_eq_zero_of_lt (by omega) h
      rw [hzero]
      unfold trainLength truncate
      rw [Int.cast_zero, zero_mul, if_pos le_rfl, Int.floor_zero]
    · omega
    · omega
  have hrolling (i : ℕ) :
      0 ≤ (rollingFold totalBars (totalBars / folds) trainRatio i).testStart ∧
        0 ≤ (rollingFold totalBars (totalBars / folds) trainRatio i).testEnd := by
    have hslide : 0 ≤ (i : ℤ) * (totalBars / folds / 2) :=
      mul_nonneg (by omega) (Int.ediv_nonneg hsize (by omega))
    have hstart : 0 ≤ (rollingFold totalBars (totalBars / folds) trainRatio i).testStart :=
      Int.add_nonneg hslide hlength
    exact ⟨hstart, le_min (Int.add_nonneg hstart hsize) (by omega)⟩
  obtain ⟨n, hn⟩ : ∃ n : ℕ, (folds - 1).toNat = n + 1 := ⟨(folds - 2).toNat, by omega⟩
  rw [hn, withTail_rolling]
  intro fold hfold
  rcases List.mem_append.mp hfold with hfold | hfold
  · obtain ⟨i, -, rfl⟩ := List.mem_map.mp hfold
    exact hrolling i
  · split at hfold
    · obtain rfl := List.mem_singleton.mp hfold
      obtain ⟨hstart, hend⟩ := hrolling n
      exact ⟨hstart, le_min (by omega) (by omega)⟩
    · cases hfold

/-! ## §3 What the aggregate compounds -/

/-- The completed folds of a job with their numbers. -/
def completedFolds (runFold : ℕ → List Bar → List Bar → WalkForwardFold)
    (config : WalkForwardConfig) (bars : List Bar) : List (FoldIndices × ℕ) :=
  (jobFolds config bars).zipIdx.filter fun p => (foldResult runFold config bars p.2 p.1).completed

/-- The test bars of the completed folds, fold by fold. -/
def compoundedBars (runFold : ℕ → List Bar → List Bar → WalkForwardFold)
    (config : WalkForwardConfig) (bars : List Bar) : List Bar :=
  (completedFolds runFold config bars).flatMap fun p =>
    Window.pySlice bars p.1.testStart p.1.testEnd

theorem compoundReturn_eq (returns : List ℚ) :
    1 + compoundReturn returns = (returns.map fun r => 1 + r).prod := by
  have hfold (total : ℚ) : returns.foldl (fun total r => total * (1 + r)) total =
      total * (returns.map fun r => 1 + r).prod := by
    induction returns generalizing total with
    | nil => rw [List.map_nil, List.prod_nil, mul_one, List.foldl_nil]
    | cons r returns ih =>
        rw [List.foldl_cons, ih, List.map_cons, List.prod_cons, mul_assoc]
  unfold compoundReturn
  rw [hfold, one_mul, add_sub_cancel]

theorem filter_foldResults (runFold : ℕ → List Bar → List Bar → WalkForwardFold)
    (config : WalkForwardConfig) (bars : List Bar) :
    (foldResults runFold config bars (jobFolds config bars)).filter WalkForwardFold.completed =
      (completedFolds runFold config bars).map fun p => foldResult runFold config bars p.2 p.1 := by
  unfold foldResults completedFolds
  rw [List.mapIdx_eq_zipIdx_map, List.filter_map]
  rfl

/-- **The aggregate return compounds the returns of the test bars of the
completed folds**, whenever each of them compounds the returns of its own. -/
theorem aggregateFolds_compounds (fm : FloatMath) (diagnostics : FoldDiagnostics)
    (runFold : ℕ → List Bar → List Bar → WalkForwardFold) (config : WalkForwardConfig)
    (bars : List Bar) (barReturn : Bar → ℚ)
    (hfold : ∀ p ∈ completedFolds runFold config bars,
      1 + (foldResult runFold config bars p.2 p.1).oosTotalReturn =
        ((Window.pySlice bars p.1.testStart p.1.testEnd).map fun b => 1 + barReturn b).prod) :
    1 + (aggregateFolds fm diagnostics
        (foldResults runFold config bars (jobFolds config bars))).oosTotalReturn =
      ((compoundedBars runFold config bars).map fun b => 1 + barReturn b).prod := by
  have hsplit : ((compoundedBars runFold config bars).map fun b => 1 + barReturn b).prod =
      ((completedFolds runFold config bars).map fun p =>
        1 + (foldResult runFold config bars p.2 p.1).oosTotalReturn).prod := by
    unfold compoundedBars
    rw [List.map_flatMap, List.flatMap_def, List.prod_flatten, List.map_map]
    exact congrArg List.prod (List.map_congr_left fun p hp => (hfold p hp).symm)
  unfold aggregateFolds
  dsimp only
  rw [filter_foldResults, hsplit]
  split
  · next hempty =>
      rw [List.isEmpty_map, List.isEmpty_iff] at hempty
      rw [hempty, List.map_nil, List.prod_nil, add_zero]
  · rw [compoundReturn_eq, List.map_map, List.map_map]
    rfl

/-- Apart test ranges make every bar count at most once. -/
theorem compoundedBars_sublist (runFold : ℕ → List Bar → List Bar → WalkForwardFold)
    (config : WalkForwardConfig) (bars : List Bar)
    (h : TestsApart bars.length config.folds config.trainRatio config.anchor) :
    (compoundedBars runFold config bars).Sublist bars := by
  have hsub : ((completedFolds runFold config bars).map fun p => p.1.testWindow).Sublist
      (testWindows bars.length config.folds config.trainRatio config.anchor) := by
    have hindices : ((completedFolds runFold config bars).map Prod.fst).Sublist
        (jobFolds config bars) := by
      have hfilter := (List.filter_sublist (p := fun p : FoldIndices × ℕ =>
        (foldResult runFold config bars p.2 p.1).completed)
          (l := (jobFolds config bars).zipIdx)).map Prod.fst
      rwa [List.zipIdx_map_fst] at hfilter
    have hmap := hindices.map FoldIndices.testWindow
    rwa [List.map_map] at hmap
  have hnonneg (p : FoldIndices × ℕ) (hp : p ∈ completedFolds runFold config bars) :
      0 ≤ p.1.testStart ∧ 0 ≤ p.1.testEnd := by
    refine testWindow_nonneg h p.1 ?_
    exact List.fst_mem_of_mem_zipIdx (List.mem_of_mem_filter hp)
  have hcut : compoundedBars runFold config bars =
      ((completedFolds runFold config bars).map fun p => p.1.testWindow).flatMap
        (Window.cut bars) := by
    unfold compoundedBars
    rw [List.flatMap_map]
    refine List.flatMap_congr fun p hp => ?_
    exact Window.pySlice_eq_cut bars (hnonneg p hp).1 (hnonneg p hp).2
  rw [hcut]
  refine Window.flatMap_cut_sublist ((testWindows_ordered h).sublist hsub) ?_
  intro w hw
  obtain ⟨p, hp, rfl⟩ := List.mem_map.mp hw
  exact (hnonneg p hp).1

/-- **When the folds test every bar at most once.** The test ranges are
disjoint and in increasing order, and whatever folds are run and complete, the
aggregate compounds a sublist of the bars: exactly for the configurations of
`TestsApart`. The aggregate return compounds the returns of these bars if every
fold compounds the returns of its own. -/
theorem testRanges_apart_iff (totalBars : ℕ) (folds : ℤ) (trainRatio : ℚ) (anchor : String) :
    ((Window.Ordered (testWindows totalBars folds trainRatio anchor) ∧
      ∀ (runFold : ℕ → List Bar → List Bar → WalkForwardFold) (minTrainBars minTestBars : ℤ)
        (bars : List Bar), bars.length = totalBars →
        (compoundedBars runFold
          { folds := folds
            trainRatio := trainRatio
            anchor := anchor
            minTrainBars := minTrainBars
            minTestBars := minTestBars } bars).Sublist bars) ↔
      TestsApart totalBars folds trainRatio anchor) ∧
    ∀ (fm : FloatMath) (diagnostics : FoldDiagnostics)
      (runFold : ℕ → List Bar → List Bar → WalkForwardFold) (config : WalkForwardConfig)
      (bars : List Bar) (barReturn : Bar → ℚ),
      (∀ p ∈ completedFolds runFold config bars,
        1 + (foldResult runFold config bars p.2 p.1).oosTotalReturn =
          ((Window.pySlice bars p.1.testStart p.1.testEnd).map fun b => 1 + barReturn b).prod) →
      1 + (aggregateFolds fm diagnostics
          (foldResults runFold config bars (jobFolds config bars))).oosTotalReturn =
        ((compoundedBars runFold config bars).map fun b => 1 + barReturn b).prod := by
  refine ⟨⟨?_, ?_⟩, aggregateFolds_compounds⟩
  · rintro ⟨hordered, -⟩
    exact testsApart_of_ordered hordered
  · intro h
    refine ⟨testWindows_ordered h, ?_⟩
    intro runFold minTrainBars minTestBars bars hlength
    refine compoundedBars_sublist runFold _ bars ?_
    rw [hlength]
    exact h

/-- With 100 bars in four rolling folds at the default ratio, the first two
folds both test bar 29. -/
theorem default_folds_overlap :
    ¬ Window.Ordered (testWindows 100 4 (7 / 10) "rolling") := by
  intro h
  exact absurd (testsApart_of_ordered h) (by decide +kernel)

end Finbar.Optimization
