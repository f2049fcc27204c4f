/-
Finbar.Backtest.RollingMetricsTheorems — the rolling metrics are those of each
window on its own.

The prefix sums of the win rate count the trades closed within the window
(`calculateRollingWinRate_eq_naive`), and every value is in one bin of its
histogram (`counts_histogram`). `rolling_metrics_eq_naive` puts these together
with the rolling Sharpe ratio.

No `sorry`, no `axiom`.
-/
import Finbar.Backtest.RollingSharpeTheorems
import Mathlib.Algebra.Order.BigOperators.Group.List
import Mathlib.Data.Rat.Sqrt

namespace Finbar.Backtest

open Lib Lib.Python Lib.Series

/-! ## §1 The bars of the exits -/

/-- The bar a trade is closed at: the first one of its exit date. -/
def exitBar (equityCurve : List CurveEntry) (t : TradeEntry) : Option ℕ :=
  equityCurve.findIdx? fun e => decide (e.dateText = t.exitText)

/-- The trades closed on the `window` bars up to one. -/
def closedWithin (trades : List TradeEntry) (equityCurve : List CurveEntry) (window bar : ℕ) :
    List TradeEntry :=
  trades.filter (between (exitBar equityCurve) (bar + 1 - window) (bar + 1))

/-- The share of winning trades among those closed within each window; a bar has a window
when there are `window` bars up to it. -/
def naiveRollingWinRate (trades : List TradeEntry) (equityCurve : List CurveEntry)
    (window : ℕ) : List (Option ℚ) :=
  (List.range equityCurve.length).map fun bar =>
    let closed := closedWithin trades equityCurve window bar
    if window ≤ bar + 1 ∧ closed ≠ [] then
      some (pyRound (closed.countP TradeEntry.wins / closed.length) 4)
    else none

section WinRate

variable {trades : List TradeEntry} {equityCurve : List CurveEntry} {window : ℕ}

/-- **The bar of a date** is the first one that has it. -/
theorem dateToIdx_get (equityCurve : List CurveEntry) (text : String) :
    (dateToIdx equityCurve).get text =
      equityCurve.findIdx? fun e => decide (e.dateText = text) := by
  unfold dateToIdx
  induction equityCurve using List.reverseRecOn with
  | nil => rfl
  | append_singleton curve e ih =>
      rw [List.zipIdx_append, List.foldl_append, List.zipIdx_singleton, List.foldl_cons,
        List.foldl_nil, List.findIdx?_append, List.findIdx?_singleton, Nat.zero_add]
      generalize curve.zipIdx.foldl _ _ = dates at ih ⊢
      by_cases hmem : e.dateText ∈ dates.keys
      · rw [if_pos hmem, ih]
        by_cases he : e.dateText = text
        · obtain ⟨bar, hbar⟩ := OrderedDict.mem_keys.mp hmem
          rw [he, ih] at hbar
          rw [hbar]
          rfl
        · simp [he]
      · rw [if_neg hmem, OrderedDict.get_assign, ih]
        by_cases he : e.dateText = text
        · have hnone : curve.findIdx? (fun e => decide (e.dateText = text)) = none := by
            rw [← ih, ← he]
            exact Option.eq_none_iff_forall_ne_some.mpr fun bar hbar =>
              hmem (OrderedDict.mem_keys.mpr ⟨bar, hbar⟩)
          rw [if_pos he, hnone]
          simp [he]
        · rw [if_neg he]
          simp [he]

theorem exitBar_eq (equityCurve : List CurveEntry) :
    (fun t : TradeEntry => (dateToIdx equityCurve).get t.exitText) = exitBar equityCurve :=
  funext fun t => dateToIdx_get equityCurve t.exitText

theorem exitBar_lt {t : TradeEntry} {bar : ℕ} (h : exitBar equityCurve t = some bar) :
    bar < equityCurve.length :=
  (List.findIdx?_eq_some_iff_getElem.mp h).1

/-- **The counts at the bars**: of the winning trades and of all. -/
theorem foldl_countExit (dates : OrderedDict String ℕ) (n : ℕ) (trades : List TradeEntry) :
    trades.foldl (countExit dates) (List.replicate n 0, List.replicate n 0) =
      (tally n (fun t => dates.get t.exitText) (trades.filter TradeEntry.wins),
        tally n (fun t => dates.get t.exitText) trades) := by
  induction trades using List.reverseRecOn with
  | nil => rfl
  | append_singleton trades t ih =>
      rw [List.foldl_append, ih, List.foldl_cons, List.foldl_nil, tally_concat, List.filter_append,
        countExit, countAt]
      cases hbar : dates.get t.exitText with
      | none =>
          by_cases hwins : t.wins
          · rw [List.filter_cons_of_pos hwins, List.filter_nil, tally_concat, countAt]
            simp only [hbar]
          · rw [List.filter_cons_of_neg hwins, List.filter_nil, List.append_nil]
      | some bar =>
          by_cases hwins : t.wins
          · rw [List.filter_cons_of_pos hwins, List.filter_nil, tally_concat, countAt]
            simp only [hbar]
            rw [if_pos (of_decide_eq_true hwins)]
          · rw [List.filter_cons_of_neg hwins, List.filter_nil, List.append_nil]
            simp only []
            rw [if_neg fun hpos => hwins (decide_eq_true hpos)]

/-! ## §2 The rolling win rate -/

/-- The rate of a bar, if trades are closed within its window. -/
def winRateAt (trades : List TradeEntry) (equityCurve : List CurveEntry) (window bar : ℕ) :
    Option ℚ :=
  let closed := closedWithin trades equityCurve window bar
  if closed ≠ [] then some (pyRound (closed.countP TradeEntry.wins / closed.length) 4) else none

theorem countP_wins_filter (p : TradeEntry → Bool) (trades : List TradeEntry) :
    (trades.filter TradeEntry.wins).countP p = (trades.filter p).countP TradeEntry.wins := by
  rw [List.countP_filter, List.countP_filter]
  exact List.countP_congr fun t _ => by rw [Bool.and_comm]

/-- **A pass fills the cell of its bar**, if trades are closed within the window. -/
theorem winRateStep_eq (result : List (Option ℚ)) {bar : ℕ} (hbar : bar < equityCurve.length) :
    winRateStep window
        (prefixSums (tally equityCurve.length (exitBar equityCurve)
          (trades.filter TradeEntry.wins)))
        (prefixSums (tally equityCurve.length (exitBar equityCurve) trades)) result bar =
      if (winRateAt trades equityCurve window bar).isSome then
        result.set bar (winRateAt trades equityCurve window bar)
      else result := by
  unfold winRateStep
  simp only [sub_prefixSum_tally (Nat.sub_le (bar + 1) window) hbar, countP_wins_filter]
  unfold winRateAt closedWithin
  simp only [List.countP_eq_length_filter
    (p := between (exitBar equityCurve) (bar + 1 - window) (bar + 1))]
  generalize trades.filter (between (exitBar equityCurve) (bar + 1 - window) (bar + 1)) = closed
  cases closed with
  | nil => simp
  | cons t closed =>
      rw [if_pos (List.cons_ne_nil t closed), if_pos (by simp)]
      simp

/-- No trade is closed on a bar. -/
theorem winRateAt_of_total_zero
    (h : (tally equityCurve.length (exitBar equityCurve) trades).all (· = 0)) (bar : ℕ) :
    winRateAt trades equityCurve window bar = none := by
  have hsum : (tally equityCurve.length (exitBar equityCurve) trades).sum = 0 := by
    rw [List.sum_eq_zero_iff]
    intro count hcount
    exact of_decide_eq_true (List.all_eq_true.mp h count hcount)
  rw [sum_tally, List.countP_eq_zero] at hsum
  have hnil : closedWithin trades equityCurve window bar = [] := by
    unfold closedWithin
    rw [List.filter_eq_nil_iff]
    intro t ht
    have hnone := hsum t ht
    unfold between
    cases hbar : exitBar equityCurve t with
    | none => simp
    | some exit =>
        unfold below at hnone
        rw [hbar] at hnone
        exact absurd (by simpa using exitBar_lt hbar) hnone
  unfold winRateAt
  rw [hnil]
  exact if_neg fun h => h rfl

theorem map_winRateAt_eq_naive (trades : List TradeEntry) (equityCurve : List CurveEntry)
    (window : ℕ) :
    ((List.range equityCurve.length).map fun bar =>
      if window - 1 ≤ bar ∧ bar < window - 1 + (equityCurve.length - (window - 1)) then
        winRateAt trades equityCurve window bar
      else none) = naiveRollingWinRate trades equityCurve window := by
  unfold naiveRollingWinRate winRateAt
  refine List.map_congr_left fun bar hbar => ?_
  rw [List.mem_range] at hbar
  by_cases hwindow : window ≤ bar + 1
  · rw [if_pos (by omega)]
    exact if_congr (and_iff_right hwindow).symm rfl rfl
  · rw [if_neg (by omega)]
    exact (if_neg fun h => hwindow h.1).symm

/-- **The rolling win rate** is the share of the winning trades among those closed within
the window, on every curve of at least two bars. -/
theorem calculateRollingWinRate_eq_naive (trades : List TradeEntry) (window : ℕ)
    (hlength : 2 ≤ equityCurve.length) :
    calculateRollingWinRate trades equityCurve window =
      naiveRollingWinRate trades equityCurve window := by
  rw [← map_winRateAt_eq_naive]
  unfold calculateRollingWinRate
  have hnone : (∀ bar, winRateAt trades equityCurve window bar = none) →
      List.replicate equityCurve.length none = (List.range equityCurve.length).map fun bar =>
        if window - 1 ≤ bar ∧ bar < window - 1 + (equityCurve.length - (window - 1)) then
          winRateAt trades equityCurve window bar
        else none := by
    intro h
    simp [h]
  by_cases htrades : trades = []
  · rw [if_pos (.inl htrades)]
    refine hnone fun bar => ?_
    rw [htrades]
    rfl
  · rw [if_neg (not_or.mpr ⟨htrades, by omega⟩)]
    simp only [foldl_countExit, exitBar_eq]
    by_cases hzero : (tally equityCurve.length (exitBar equityCurve) trades).all (· = 0)
    · rw [if_pos hzero]
      exact hnone (winRateAt_of_total_zero hzero)
    · rw [if_neg hzero, ← foldl_fill]
      refine List.foldl_ext _ _ _ fun result bar hbar => ?_
      rw [List.mem_range'_1] at hbar
      exact winRateStep_eq result (by omega)

/-- A shorter curve has no win rates. -/
theorem calculateRollingWinRate_of_lt (trades : List TradeEntry) (window : ℕ)
    (hlength : equityCurve.length < 2) :
    calculateRollingWinRate trades equityCurve window =
      List.replicate equityCurve.length none :=
  if_pos (.inr hlength)

end WinRate

/-! ## §3 Histograms -/

/-- The bins of a histogram are half open, the last one is closed. -/
def InBin (minVal binWidth : ℚ) (bins k : ℕ) (v : ℚ) : Prop :=
  minVal + k * binWidth ≤ v ∧ (v < minVal + (k + 1) * binWidth ∨ k + 1 = bins)

instance (minVal binWidth : ℚ) (bins k : ℕ) (v : ℚ) : Decidable (InBin minVal binWidth bins k v) :=
  inferInstanceAs (Decidable (_ ∧ _))

/-- The values of each bin, counted bin by bin. -/
def naiveCounts (values : List ℚ) (bins : ℕ) : List ℕ :=
  match values with
  | [] => []
  | first :: rest =>
      let minVal := rest.foldl min first
      let maxVal := rest.foldl max first
      if minVal = maxVal then [(first :: rest).length]
      else
        (List.range bins).map fun k =>
          (first :: rest).countP fun v => decide (InBin minVal ((maxVal - minVal) / bins) bins k v)

section Histogram

variable {bins : ℕ}

/-- An extreme of a list bounds its values. -/
theorem foldl_bounds {le : ℚ → ℚ → Prop} {pick : ℚ → ℚ → ℚ} (hrefl : ∀ a, le a a)
    (htrans : ∀ a b c, le a b → le b c → le a c) (hleft : ∀ a b, le (pick a b) a)
    (hright : ∀ a b, le (pick a b) b) (first : ℚ) (rest : List ℚ) :
    ∀ v ∈ first :: rest, le (rest.foldl pick first) v := by
  induction rest generalizing first with
  | nil =>
      intro v hv
      rw [List.mem_singleton.mp hv]
      exact hrefl first
  | cons second rest ih =>
      have hextreme := ih (pick first second)
      have hpick := hextreme _ List.mem_cons_self
      intro v hv
      rw [List.foldl_cons]
      rcases List.mem_cons.mp hv with rfl | hv
      · exact htrans _ _ _ hpick (hleft v second)
      · rcases List.mem_cons.mp hv with rfl | hv
        · exact htrans _ _ _ hpick (hright first v)
        · exact hextreme v (List.mem_cons_of_mem _ hv)

theorem foldl_min_le (first : ℚ) (rest : List ℚ) :
    ∀ v ∈ first :: rest, rest.foldl min first ≤ v :=
  foldl_bounds le_refl (fun _ _ _ => le_trans) min_le_left min_le_right first rest

theorem le_foldl_max (first : ℚ) (rest : List ℚ) :
    ∀ v ∈ first :: rest, v ≤ rest.foldl max first :=
  @foldl_bounds (fun a b => b ≤ a) max le_refl (fun _ _ _ hab hbc => le_trans hbc hab)
    le_max_left le_max_right first rest

/-- **A value is counted in the bin that it is in.** -/
theorem binIndex_eq_iff {minVal maxVal v : ℚ} (hbins : 0 < bins) (hlt : minVal < maxVal)
    (hmin : minVal ≤ v) (hmax : v ≤ maxVal) {k : ℕ} (hk : k < bins) :
    binIndex minVal maxVal ((maxVal - minVal) / bins) bins v = k ↔
      InBin minVal ((maxVal - minVal) / bins) bins k v := by
  have hcast : (0 : ℚ) < bins := by exact_mod_cast hbins
  have hkcast : (k : ℚ) + 1 ≤ bins := by exact_mod_cast hk
  generalize hwidth : (maxVal - minVal) / bins = width
  have hpos : 0 < width := by
    rw [← hwidth]
    exact div_pos (sub_pos.mpr hlt) hcast
  have htop : maxVal = minVal + bins * width := by
    rw [← hwidth]
    field_simp
    ring
  unfold binIndex InBin
  by_cases hv : v = maxVal
  · rw [if_pos hv, hv, htop]
    have hnot : ¬ minVal + bins * width < minVal + (k + 1) * width := by
      rw [not_lt]
      exact add_le_add (le_refl _) (mul_le_mul_of_nonneg_right hkcast hpos.le)
    rw [or_iff_right hnot]
    have hle : minVal + k * width ≤ minVal + bins * width :=
      add_le_add (le_refl _) (mul_le_mul_of_nonneg_right (by linarith) hpos.le)
    rw [and_iff_right hle]
    omega
  · rw [if_neg hv]
    have hvlt : v < minVal + bins * width := htop ▸ lt_of_le_of_ne hmax hv
    have hquot : 0 ≤ (v - minVal) / width := div_nonneg (sub_nonneg.mpr hmin) hpos.le
    have hfloor : ⌊(v - minVal) / width⌋ < bins := by
      rw [Int.floor_lt, div_lt_iff₀ hpos]
      push_cast
      linarith
    rw [truncate, if_pos hquot, min_eq_left (by omega)]
    have hnonneg := Int.floor_nonneg.mpr hquot
    have hnat : ⌊(v - minVal) / width⌋.toNat = k ↔ ⌊(v - minVal) / width⌋ = k := by omega
    rw [hnat, Int.floor_eq_iff, le_div_iff₀ hpos, div_lt_iff₀ hpos]
    push_cast
    constructor
    · intro h
      exact ⟨by linarith [h.1], .inl (by linarith [h.2])⟩
    · rintro ⟨hlow, hhigh | hlast⟩
      · exact ⟨by linarith, by linarith⟩
      · have hlast' : (k : ℚ) + 1 = bins := by exact_mod_cast hlast
        rw [hlast']
        exact ⟨by linarith, by linarith⟩

/-- No value is counted outside of the bins. -/
theorem binIndex_lt {minVal maxVal : ℚ} (hbins : 0 < bins) (width v : ℚ) :
    binIndex minVal maxVal width bins v < bins := by
  unfold binIndex
  split
  · omega
  · have hle := min_le_right (truncate ((v - minVal) / width)) ((bins : ℤ) - 1)
    omega

/-- **The counts of a histogram** are those of its bins. -/
theorem counts_histogram (values : List ℚ) (hbins : 0 < bins) :
    (histogram values bins).counts = naiveCounts values bins := by
  cases values with
  | nil => rfl
  | cons first rest =>
      unfold histogram naiveCounts
      simp only []
      split
      · rfl
      · next hne =>
          have hlt : rest.foldl min first < rest.foldl max first :=
            lt_of_le_of_ne ((foldl_min_le first rest first List.mem_cons_self).trans
              (le_foldl_max first rest first List.mem_cons_self)) hne
          generalize hwidth : (rest.foldl max first - rest.foldl min first) / (bins : ℚ) = width
          have htally : (first :: rest).foldl
              (fun counts v => counts.modify
                (binIndex (rest.foldl min first) (rest.foldl max first) width bins v) (· + 1))
              (List.replicate bins 0) =
              tally bins (fun v => some
                (binIndex (rest.foldl min first) (rest.foldl max first) width bins v))
                (first :: rest) := rfl
          rw [htally]
          refine List.ext_getElem? fun k => ?_
          by_cases hk : k < bins
          · rw [tally_getElem? hk, List.getElem?_map, List.getElem?_range hk, Option.map_some]
            refine congrArg some (List.countP_congr fun v hv => ?_)
            rw [decide_eq_true_eq, decide_eq_true_eq, Option.some.injEq, ← hwidth]
            exact binIndex_eq_iff hbins hlt (foldl_min_le first rest v hv)
              (le_foldl_max first rest v hv) hk
          · rw [List.getElem?_eq_none (by rw [length_tally]; omega),
              List.getElem?_eq_none (by rw [List.length_map, List.length_range]; omega)]

/-- **Every value is counted once.** -/
theorem sum_counts_histogram (values : List ℚ) (hbins : 0 < bins) :
    (histogram values bins).counts.sum = values.length := by
  cases values with
  | nil => rfl
  | cons first rest =>
      unfold histogram
      simp only []
      split
      · rw [List.sum_singleton]
      · have hplaced : ∀ v ∈ first :: rest, below (fun v => some
            (binIndex (rest.foldl min first) (rest.foldl max first)
              ((rest.foldl max first - rest.foldl min first) / bins) bins v)) bins v := by
          intro v _
          exact decide_eq_true (binIndex_lt hbins _ v)
        exact sum_tally_of_forall hplaced

end Histogram

/-! ## §4 The rolling metrics -/

/-- The distribution counts the profits and the durations of the trades. -/
theorem calculateTradeDistribution_counts (trades : List TradeEntry) :
    (calculateTradeDistribution trades).pnlCounts =
        (histogram (trades.map TradeEntry.profit) 10).counts ∧
      (calculateTradeDistribution trades).durationCounts =
        (histogram (trades.map TradeEntry.duration) 8).counts := by
  unfold calculateTradeDistribution
  split
  · next hnil =>
      rw [hnil]
      exact ⟨rfl, rfl⟩
  · exact ⟨rfl, rfl⟩

/-- **The rolling metrics are those of each window on its own.** The rolling Sharpe ratio,
whose running sums are those of the window's returns at every index; the rolling win rate, on
curves of at least two bars; and the counts of the trade distribution, which sum up to the
number of trades. -/
theorem rolling_metrics_eq_naive (fm : FloatMath) :
    (∀ equityValues window periodsPerYear,
      calculateRollingSharpe fm equityValues window periodsPerYear =
        naiveRollingSharpe fm equityValues window periodsPerYear) ∧
    (∀ equityValues window periodsPerYear passes, 2 ≤ window →
      window + passes ≤ (dailyReturns equityValues).length →
      ∃ s, sharpeLoop fm equityValues window periodsPerYear passes = .ok s ∧
        s.winSum = (rowsBefore window (window + passes) (dailyReturns equityValues)).sum ∧
        s.winSqSum = ((rowsBefore window (window + passes) (dailyReturns equityValues)).map
          fun r => r * r).sum) ∧
    (∀ trades equityCurve window,
      calculateRollingWinRate trades equityCurve window =
        if 2 ≤ equityCurve.length then naiveRollingWinRate trades equityCurve window
        else List.replicate equityCurve.length none) ∧
    (∀ trades,
      (calculateTradeDistribution trades).pnlCounts =
          naiveCounts (trades.map TradeEntry.profit) 10 ∧
        (calculateTradeDistribution trades).pnlCounts.sum = trades.length ∧
        (calculateTradeDistribution trades).durationCounts =
          naiveCounts (trades.map TradeEntry.duration) 8 ∧
        (calculateTradeDistribution trades).durationCounts.sum = trades.length) := by
  refine ⟨fun equityValues window periodsPerYear =>
    calculateRollingSharpe_eq_naive fm periodsPerYear equityValues window, ?_, ?_, ?_⟩
  · intro equityValues window periodsPerYear passes hw hpasses
    exact ⟨_, sharpeLoop_eq fm periodsPerYear hw hpasses, rfl, rfl⟩
  · intro trades equityCurve window
    split
    · next hlength => exact calculateRollingWinRate_eq_naive trades window hlength
    · next hlength => exact calculateRollingWinRate_of_lt trades window (by omega)
  · intro trades
    obtain ⟨hpnl, hduration⟩ := calculateTradeDistribution_counts trades
    rw [hpnl, hduration]
    refine ⟨counts_histogram _ (by decide), ?_, counts_histogram _ (by decide), ?_⟩
    · rw [sum_counts_histogram _ (by decide), List.length_map]
    · rw [sum_counts_histogram _ (by decide), List.length_map]

/-- Square roots, of the rationals that have rational ones. -/
def rationalRoots : FloatMath where
  sqrt x := Rat.sqrt x
  pow base _ := Rat.sqrt base

/-- Returns that grow by a tenth each day. -/
theorem rolling_metrics_eq_naive_growing :
    calculateRollingSharpe rationalRoots [100, 100, 110, 132, 858 / 5] 3 4 =
        .ok [none, none, none, some 2, some 4] ∧
      ∃ s, sharpeLoop rationalRoots [100, 100, 110, 132, 858 / 5] 3 4 1 = .ok s ∧
        s.winSum =
          (rowsBefore 3 (3 + 1) (dailyReturns [100, 100, 110, 132, 858 / 5])).sum ∧
        s.winSqSum =
          ((rowsBefore 3 (3 + 1) (dailyReturns [100, 100, 110, 132, 858 / 5])).map
            fun r => r * r).sum :=
  ⟨by decide +kernel, (rolling_metrics_eq_naive rationalRoots).2.1 _ 3 4 1 (by decide) (by decide)⟩

/-- **A single bar has no win rate**, although a winning trade is closed on it, and a window
of one return has no variance. -/
theorem single_bar_not_naive :
    calculateRollingWinRate [{ exitDate := some "2024-01-02", pnl := some 10 }]
        [{ date := some "2024-01-02", value := some 100 }] 1 = [none] ∧
      naiveRollingWinRate [{ exitDate := some "2024-01-02", pnl := some 10 }]
        [{ date := some "2024-01-02", value := some 100 }] 1 = [some 1] ∧
      calculateRollingSharpe rationalRoots [100, 101] 1 4 = .error {} := by
  decide +kernel

end Finbar.Backtest
