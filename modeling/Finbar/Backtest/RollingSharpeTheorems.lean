/-
Finbar.Backtest.RollingSharpeTheorems — the running sums of the rolling Sharpe
ratio are the sums over the returns of each window.

A pass of the loop adds the return that enters the window and subtracts the one
that leaves it (`sum_rowsBefore_succ`), so that after any number of passes the
sums are those of the window reached (`sharpeLoop_eq`) and the ratio is that of
the window on its own (`calculateRollingSharpe_eq_naive`).

No `sorry`, no `axiom`.
-/
import Finbar.Backtest.RollingMetrics
import Finbar.Lib.Moments
import Finbar.Lib.Run
import Finbar.Lib.Series
import Finbar.Lib.SlidingSum

namespace Finbar.Backtest

open Lib Lib.Run Lib.Series Lib.Python

/-! ## §1 The Sharpe ratio of a window -/

/-- The Sharpe ratio of the returns of a window, from scratch: their mean over the root of
their sample variance, annualized. -/
def naiveWindowSharpe (fm : FloatMath) (window : ℕ) (ann : ℚ) (returns : List ℚ) :
    Except ZeroDivisionError ℚ := do
  let mean ← divide returns.sum window
  let var ← divide (returns.map fun r => (r - mean) ^ 2).sum (window - 1)
  if 0 < var then
    return pyRound (mean / fm.pow var (1 / 2) * ann) 4
  else
    return 0

/-- The ratio of each window of a curve on its own; a bar has a window when there are
`window` returns up to it. -/
def naiveRollingSharpe (fm : FloatMath) (equityValues : List ℚ) (window : ℕ)
    (periodsPerYear : ℚ) : Except ZeroDivisionError (List (Option ℚ)) :=
  (List.range equityValues.length).mapM fun bar =>
    if 0 < bar ∧ window ≤ bar then
      (naiveWindowSharpe fm window (fm.pow periodsPerYear (1 / 2))
        (rowsBefore window bar (dailyReturns equityValues))).map some
    else .ok none

section Sharpe

variable (fm : FloatMath) {equityValues returns : List ℚ} {window : ℕ} (ann periodsPerYear : ℚ)

theorem divide_of_ne {x y : ℚ} (h : y ≠ 0) : divide x y = .ok (x / y) := if_neg h

/-- The squares less the squared sum over `n` are the squared deviations. -/
theorem sumSq_sub_eq {mean : ℚ} (h : (returns.length : ℚ) ≠ 0)
    (hmean : mean = returns.sum / returns.length) :
    (returns.map fun r => r * r).sum - mean * returns.sum =
      (returns.map fun r => (r - mean) ^ 2).sum := by
  have hsum : returns.sum = returns.length * mean := by
    rw [hmean]
    field_simp
  rw [Moments.sum_sub_const_sq, hsum]
  ring

/-- **The ratio of the running sums** is that of the window, if they are its sums. -/
theorem windowSharpe_eq_naive (hlength : returns.length = window) :
    windowSharpe fm window ann returns.sum (returns.map fun r => r * r).sum =
      naiveWindowSharpe fm window ann returns := by
  unfold windowSharpe naiveWindowSharpe
  by_cases hzero : (window : ℚ) = 0
  · rw [divide, if_pos hzero]
    rfl
  · rw [divide_of_ne hzero]
    simp only [bind, Except.bind]
    rw [sumSq_sub_eq (by rw [hlength]; exact hzero) (by rw [hlength])]

/-- With the window lengths 0 and 1 there is nothing to divide by. -/
theorem naiveWindowSharpe_of_lt (h : window < 2) :
    naiveWindowSharpe fm window ann returns = .error {} := by
  unfold naiveWindowSharpe
  obtain rfl | rfl : window = 0 ∨ window = 1 := by omega
  · rfl
  · rw [divide_of_ne (by norm_num)]
    simp [bind, Except.bind, divide]

/-- The ratio of a window of at least two returns. -/
def sharpeOf (fm : FloatMath) (ann : ℚ) (returns : List ℚ) : ℚ :=
  if 0 < Moments.sampleVariance returns then
    pyRound (Moments.mean returns
      / fm.pow (Moments.sampleVariance returns) (1 / 2) * ann) 4
  else 0

theorem naiveWindowSharpe_of_le (h : 2 ≤ window) (hlength : returns.length = window) :
    naiveWindowSharpe fm window ann returns = .ok (sharpeOf fm ann returns) := by
  have hcast : (2 : ℚ) ≤ window := by exact_mod_cast h
  unfold naiveWindowSharpe sharpeOf Moments.sampleVariance Moments.mean
  rw [divide_of_ne (by linarith)]
  simp only [bind, Except.bind]
  rw [divide_of_ne (by linarith), hlength]
  simp only [pure, Except.pure]
  split
  · rfl
  · rfl

/-! ## §2 The Sharpe loop -/

theorem length_dailyReturns (values : List ℚ) :
    (dailyReturns values).length = values.length - 1 := by
  unfold dailyReturns
  rw [List.length_zipWith, List.length_tail]
  omega

theorem length_rowsBefore {i : ℕ} (hi : i ≤ returns.length) (hw : window ≤ i) :
    (rowsBefore window i returns).length = window := by
  rw [rowsBefore, List.length_drop, List.length_take]
  omega

/-- The next window gains a return and loses one. -/
theorem sum_rowsBefore_succ (f : ℚ → ℚ) {i : ℕ} (hpos : 0 < window) (hw : window ≤ i)
    (hi : i < returns.length) :
    ((rowsBefore window (i + 1) returns).map f).sum =
      ((rowsBefore window i returns).map f).sum +
        (f (returns.getD i 0) - f (returns.getD (i - window) 0)) := by
  have hrows : ∀ j ≤ returns.length,
      rowsBefore window j returns = (returns.take j).rtake window := by
    intro j hj
    rw [rowsBefore, List.rtake, List.length_take, Nat.min_eq_left hj]
  have hentering : returns[i]? = some (returns.getD i 0) := by
    rw [List.getD_eq_getElem?_getD, List.getElem?_eq_getElem hi, Option.getD_some]
  have hleaving : ((returns.take i).map f).getD (((returns.take i).map f).length - window) 0 =
      f (returns.getD (i - window) 0) := by
    rw [List.length_map, List.length_take, Nat.min_eq_left hi.le, List.getD_eq_getElem?_getD,
      List.getElem?_map, List.getElem?_take_of_lt (by omega), List.getD_eq_getElem?_getD,
      List.getElem?_eq_getElem (show i - window < returns.length by omega)]
    rfl
  rw [hrows (i + 1) hi, hrows i hi.le, ← map_rtake, ← map_rtake, List.take_add_one, hentering,
    Option.toList_some, List.map_append, List.map_singleton, sum_rtake_concat _ _ hpos,
    if_pos (by rw [List.length_map, List.length_take]; omega), hleaving]
  ring

/-- The cells up to the last bar whose window the loop has reached. -/
def sharpeCells (fm : FloatMath) (equityValues : List ℚ) (window : ℕ) (periodsPerYear : ℚ)
    (last : ℕ) : List (Option ℚ) :=
  (List.range equityValues.length).map fun bar =>
    if window ≤ bar ∧ bar ≤ last then
      some (sharpeOf fm (fm.pow periodsPerYear (1 / 2))
        (rowsBefore window bar (dailyReturns equityValues)))
    else none

theorem set_sharpeCells {last : ℕ} (hlast : window ≤ last) :
    (sharpeCells fm equityValues window periodsPerYear last).set (last + 1)
        (some (sharpeOf fm (fm.pow periodsPerYear (1 / 2))
          (rowsBefore window (last + 1) (dailyReturns equityValues)))) =
      sharpeCells fm equityValues window periodsPerYear (last + 1) := by
  unfold sharpeCells
  rw [set_map_range]
  refine List.map_congr_left fun bar _ => ?_
  by_cases hbar : bar = last + 1
  · rw [if_pos hbar, if_pos ⟨by omega, by omega⟩, hbar]
  · rw [if_neg hbar]
    exact if_congr (by omega) rfl rfl

/-- The cells after the seed. -/
theorem set_replicate_sharpeCells :
    (List.replicate equityValues.length none).set window
        (some (sharpeOf fm (fm.pow periodsPerYear (1 / 2))
          (rowsBefore window window (dailyReturns equityValues)))) =
      sharpeCells fm equityValues window periodsPerYear window := by
  unfold sharpeCells
  rw [← List.length_range (n := equityValues.length), ← List.map_const', List.length_range,
    set_map_range]
  refine List.map_congr_left fun bar _ => ?_
  by_cases hbar : bar = window
  · rw [if_pos hbar, if_pos ⟨by omega, by omega⟩, hbar]
  · rw [if_neg hbar, if_neg (by omega)]

theorem sharpeLoop_succ (equityValues : List ℚ) (window passes : ℕ) :
    sharpeLoop fm equityValues window periodsPerYear (passes + 1) =
      sharpeLoop fm equityValues window periodsPerYear passes >>= fun s =>
        sharpeStep fm window (fm.pow periodsPerYear (1 / 2)) (dailyReturns equityValues) s
          (window + passes) := by
  unfold sharpeLoop
  simp only [List.range'_1_concat, List.foldlM_append, List.foldlM_cons, List.foldlM_nil,
    bind_pure, bind_assoc]

/-- **The loop after its first passes**: its sums are those of the window it has reached, and
the cells up to there are filled. -/
theorem sharpeLoop_eq (hw : 2 ≤ window) {passes : ℕ}
    (hpasses : window + passes ≤ (dailyReturns equityValues).length) :
    sharpeLoop fm equityValues window periodsPerYear passes = .ok
      { winSum := (rowsBefore window (window + passes) (dailyReturns equityValues)).sum
        winSqSum := ((rowsBefore window (window + passes) (dailyReturns equityValues)).map
          fun r => r * r).sum
        result := sharpeCells fm equityValues window periodsPerYear (window + passes) } := by
  induction passes with
  | zero =>
      rw [Nat.add_zero] at hpasses ⊢
      have hseed : (dailyReturns equityValues).take window =
          rowsBefore window window (dailyReturns equityValues) := by
        rw [rowsBefore, Nat.sub_self, List.drop_zero]
      have hlength := length_rowsBefore hpasses (Nat.le_refl window)
      unfold sharpeLoop seedSharpe
      simp only [hseed]
      rw [windowSharpe_eq_naive fm _ hlength, naiveWindowSharpe_of_le fm _ hw hlength,
        ← set_replicate_sharpeCells]
      rfl
  | succ passes ih =>
      have hi : window + passes < (dailyReturns equityValues).length := by omega
      have hle : window ≤ window + passes := Nat.le_add_right window passes
      have hlength := length_rowsBefore hi (Nat.le_succ_of_le hle)
      have hsum := sum_rowsBefore_succ (fun r => r) (by omega) hle hi
      have hsumSq := sum_rowsBefore_succ (fun r => r * r) (by omega) hle hi
      rw [List.map_id', List.map_id'] at hsum
      rw [sharpeLoop_succ, ih hi.le]
      simp only [bind, Except.bind, sharpeStep]
      rw [← hsum, ← hsumSq, windowSharpe_eq_naive fm _ hlength,
        naiveWindowSharpe_of_le fm _ hw hlength]
      simp only [pure, Except.pure]
      rw [set_sharpeCells fm periodsPerYear hle]
      rfl

/-! ## §3 The rolling Sharpe ratio -/

theorem naiveRollingSharpe_of_le (hw : 2 ≤ window) :
    naiveRollingSharpe fm equityValues window periodsPerYear = .ok
      (sharpeCells fm equityValues window periodsPerYear (dailyReturns equityValues).length) := by
  have hlength := length_dailyReturns equityValues
  unfold naiveRollingSharpe sharpeCells
  refine mapM_eq_ok fun bar hbar => ?_
  rw [List.mem_range] at hbar
  by_cases hwindow : window ≤ bar
  · rw [if_pos ⟨by omega, hwindow⟩, if_pos ⟨hwindow, by omega⟩,
      naiveWindowSharpe_of_le fm _ hw (length_rowsBefore (by omega) hwindow)]
    rfl
  · rw [if_neg fun h => hwindow h.2, if_neg fun h => hwindow h.1]

/-- A window length below 2 raises on every curve that has a return. -/
theorem naiveRollingSharpe_of_lt (hw : window < 2) (hlength : 2 ≤ equityValues.length) :
    naiveRollingSharpe fm equityValues window periodsPerYear = .error {} := by
  obtain ⟨n, hn⟩ : ∃ n, equityValues.length = n + 2 := ⟨equityValues.length - 2, by omega⟩
  unfold naiveRollingSharpe
  rw [hn, List.range_succ_eq_map, List.range_succ_eq_map, List.map_cons, List.mapM_cons,
    List.mapM_cons, if_neg (by omega), if_pos ⟨by omega, by omega⟩,
    naiveWindowSharpe_of_lt fm _ hw]
  rfl

theorem sharpeLoop_of_lt (hw : window < 2) (hlength : window ≤ (dailyReturns equityValues).length)
    (passes : ℕ) : sharpeLoop fm equityValues window periodsPerYear passes = .error {} := by
  unfold sharpeLoop seedSharpe
  have hseed : ((dailyReturns equityValues).take window).length = window := by
    rw [List.length_take]
    omega
  simp only []
  rw [windowSharpe_eq_naive fm _ hseed, naiveWindowSharpe_of_lt fm _ hw]
  rfl

/-- **The rolling Sharpe ratio** is the ratio of each window on its own. -/
theorem calculateRollingSharpe_eq_naive (equityValues : List ℚ) (window : ℕ) :
    calculateRollingSharpe fm equityValues window periodsPerYear =
      naiveRollingSharpe fm equityValues window periodsPerYear := by
  have hlength := length_dailyReturns equityValues
  unfold calculateRollingSharpe
  by_cases hshort : equityValues.length < 2 ∨ (dailyReturns equityValues).length < window
  · simp only [if_pos hshort]
    unfold naiveRollingSharpe
    have hnone : ∀ bar ∈ List.range equityValues.length, ¬ (0 < bar ∧ window ≤ bar) := by
      intro bar hbar
      rw [List.mem_range] at hbar
      omega
    rw [← List.length_range (n := equityValues.length), ← List.map_const', List.length_range]
    exact (mapM_eq_ok fun bar hbar => if_neg (hnone bar hbar)).symm
  · simp only [if_neg hshort]
    obtain ⟨htwo, hwindow⟩ := not_or.mp hshort
    by_cases hw : window < 2
    · rw [sharpeLoop_of_lt fm _ hw (by omega), naiveRollingSharpe_of_lt fm _ hw (by omega)]
      rfl
    · rw [sharpeLoop_eq fm _ (by omega) (by omega), naiveRollingSharpe_of_le fm _ (by omega),
        Nat.add_sub_cancel' (by omega)]
      rfl

end Sharpe

end Finbar.Backtest
