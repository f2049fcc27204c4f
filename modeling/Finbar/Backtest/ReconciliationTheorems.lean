/-
Finbar.Backtest.ReconciliationTheorems — when the reported figures reconcile.

The result builder sums the PnL of the trade dictionaries, which `to_dict` has
rounded to cents, while cash and final value are exact. What is reported as
the reconciliation error is therefore the rounded sum of what rounding has
taken from the trades; and a trade that wins at most half a cent is counted
as a loss (`reconciles_iff`).

No `sorry`, no `axiom`.
-/
import Finbar.Backtest.CashTheorems
import Finbar.Backtest.Engine
import Finbar.Lib.Rounding

namespace Finbar.Backtest

open Lib Lib.Python Lib.Run Finbar.Simulation

variable {σ : Type} {settings : RunSettings σ}

/-! ## §1 What rounding takes from the trades -/

/-- The net PnL of a trade less what its dictionary has of it. -/
def roundingRemainder (trade : TradeRecord) : ℚ :=
  trade.netPnl - trade.toDict.netPnl

/-- A gain that its dictionary does not show. -/
def HiddenGain (trade : TradeRecord) : Prop :=
  0 < trade.netPnl ∧ trade.netPnl ≤ 1 / 200

instance (trade : TradeRecord) : Decidable (HiddenGain trade) :=
  inferInstanceAs (Decidable (_ ∧ _))

theorem sum_tradePnls (state : SimulationState) :
    (tradePnls state).sum = realisedPnl state - (state.trades.map roundingRemainder).sum := by
  unfold tradePnls realisedPnl
  induction state.trades with
  | nil => simp
  | cons trade trades ih =>
      simp only [List.map_cons, List.sum_cons, ih, roundingRemainder]
      ring

/-- The reconciliation error of a run is what rounding has taken, rounded. -/
theorem reconciliationError_eq {memory : σ} {initialCash : ℚ} {bars : List Bar}
    {books : Books} (h : runLoop settings memory initialCash bars = .ok books) :
    (computeReconciliation books.state initialCash).reconciliationError
      = pyRound (books.state.trades.map roundingRemainder).sum 2 := by
  have hfinal := finalValue_eq settings h
  have herror : finalValue books.state initialCash - initialCash
      - (tradePnls books.state).sum + books.state.totalFunding
      = (books.state.trades.map roundingRemainder).sum := by
    rw [hfinal, sum_tradePnls]
    ring
  unfold computeReconciliation
  simp only
  rw [herror]

/-! ## §2 Counting wins -/

/-- Of two properties the stronger one counts less, unless they agree on the
list. -/
theorem countP_eq_countP_iff {α : Type} {p q : α → Bool} (h : ∀ x, p x = true → q x = true)
    (items : List α) :
    items.countP p = items.countP q ↔ ∀ x ∈ items, q x = true → p x = true := by
  induction items with
  | nil => simp
  | cons x items ih =>
      have hle : items.countP p ≤ items.countP q := List.countP_mono_left fun x _ => h x
      rw [List.forall_mem_cons, ← ih, List.countP_cons, List.countP_cons]
      cases hp : p x with
      | true => simp [h x hp]
      | false =>
          cases q x with
          | true =>
              simp only [Bool.false_eq_true, if_false, if_true]
              constructor
              · intro hcount
                omega
              · rintro ⟨himp, -⟩
                exact absurd (himp trivial) id
          | false => simp

/-- A dictionary shows a win that is more than half a cent. -/
theorem toDict_netPnl_pos_iff (trade : TradeRecord) :
    0 < trade.toDict.netPnl ↔ 1 / 200 < trade.netPnl := by
  have hcents : (1 / 2 < trade.netPnl * 10 ^ 2) ↔ 1 / 200 < trade.netPnl := by
    constructor <;> intro h <;> linarith
  exact (pyRound_pos_iff trade.netPnl 2).trans hcents

theorem winningTrades_eq (fm : FloatMath) (state : SimulationState) (initialCash : ℚ)
    (config : ExecutionConfig) (interval : String) :
    (computeMetrics fm state initialCash config interval).winningTrades
      = state.trades.countP fun trade => decide (1 / 200 < trade.netPnl) := by
  unfold computeMetrics tradePnls
  simp only
  rw [← List.countP_eq_length_filter, List.countP_map]
  refine List.countP_congr fun trade _ => ?_
  simp only [Function.comp_apply, decide_eq_true_eq]
  exact toDict_netPnl_pos_iff trade

theorem losingTrades_eq (fm : FloatMath) (state : SimulationState) (initialCash : ℚ)
    (config : ExecutionConfig) (interval : String) :
    (computeMetrics fm state initialCash config interval).losingTrades
      = state.trades.countP fun trade => decide (trade.netPnl ≤ 1 / 200) := by
  unfold computeMetrics tradePnls
  simp only
  rw [← List.countP_eq_length_filter, List.countP_map]
  refine List.countP_congr fun trade _ => ?_
  simp only [Function.comp_apply, decide_eq_true_eq]
  rw [← not_lt, ← not_lt, not_iff_not]
  exact toDict_netPnl_pos_iff trade

/-- Wins are counted as such when none is hidden. -/
theorem winningTrades_iff (fm : FloatMath) (state : SimulationState) (initialCash : ℚ)
    (config : ExecutionConfig) (interval : String) :
    (computeMetrics fm state initialCash config interval).winningTrades
        = state.trades.countP (fun trade => decide (0 < trade.netPnl)) ↔
      ∀ trade ∈ state.trades, ¬ HiddenGain trade := by
  rw [winningTrades_eq, countP_eq_countP_iff]
  · simp only [decide_eq_true_eq, HiddenGain, not_and, not_le]
  · intro trade h
    simp only [decide_eq_true_eq] at h ⊢
    linarith

theorem losingTrades_iff (fm : FloatMath) (state : SimulationState) (initialCash : ℚ)
    (config : ExecutionConfig) (interval : String) :
    (computeMetrics fm state initialCash config interval).losingTrades
        = state.trades.countP (fun trade => decide (trade.netPnl ≤ 0)) ↔
      ∀ trade ∈ state.trades, ¬ HiddenGain trade := by
  rw [losingTrades_eq, eq_comm, countP_eq_countP_iff]
  · refine forall₂_congr fun trade _ => ?_
    simp only [decide_eq_true_eq]
    constructor
    · rintro himp ⟨hgain, hsmall⟩
      exact absurd (himp hsmall) (not_le.mpr hgain)
    · intro hshown hsmall
      by_contra hgain
      exact hshown ⟨not_le.mp hgain, hsmall⟩
  · intro trade h
    simp only [decide_eq_true_eq] at h ⊢
    linarith

/-! ## §3 The result of a run -/

/-- What a result promises about the trades of its run. -/
structure Reconciles (result : BacktestResult) (trades : List TradeRecord) : Prop where
  error : result.reconciliation.reconciliationError = 0
  wins : result.metrics.winningTrades
    = trades.countP fun trade => decide (0 < trade.netPnl)
  losses : result.metrics.losingTrades
    = trades.countP fun trade => decide (trade.netPnl ≤ 0)

/-- **A result reconciles exactly when rounding takes at most half a cent from
all trades together and hides no gain.** -/
theorem reconciles_iff {memory : σ} {initialCash : ℚ} {bars : List Bar} {books : Books}
    (h : runLoop settings memory initialCash bars = .ok books) (fm : FloatMath)
    (interval : String) (warmupBars : ℕ) (firstTradable : String) :
    Reconciles
        (buildResult fm books.state initialCash interval warmupBars firstTradable
          settings.executor.config) books.state.trades ↔
      |(books.state.trades.map roundingRemainder).sum| ≤ 1 / 200 ∧
        ∀ trade ∈ books.state.trades, ¬ HiddenGain trade := by
  have herror : (computeReconciliation books.state initialCash).reconciliationError = 0 ↔
      |(books.state.trades.map roundingRemainder).sum| ≤ 1 / 200 := by
    rw [reconciliationError_eq h, pyRound_eq_zero_iff]
    constructor <;> intro hbound <;> linarith
  constructor
  · intro hr
    exact ⟨herror.mp hr.error, (winningTrades_iff ..).mp hr.wins⟩
  · rintro ⟨hbound, hshown⟩
    exact ⟨herror.mpr hbound, (winningTrades_iff ..).mpr hshown,
      (losingTrades_iff ..).mpr hshown⟩

/-- Powers and roots do not matter to the figures that reconcile. -/
def noFloatMath : FloatMath where
  sqrt x := x
  pow x _ := x

/-- A long of ten over quiet bars reconciles. -/
theorem reconciles_quiet :
    ∃ books, runLoop unfundedSettings [some buyTen] 1000 quietBars = .ok books ∧
      Reconciles (buildResult noFloatMath books.state 1000 "1d" 0 ""
        unfundedSettings.executor.config) books.state.trades := by
  obtain ⟨books, hrun, hbound, hshown⟩ : Ensures
      (runLoop unfundedSettings [some buyTen] 1000 quietBars)
      (fun books => |(books.state.trades.map roundingRemainder).sum| ≤ 1 / 200 ∧
        ∀ trade ∈ books.state.trades, ¬ HiddenGain trade) := Ensures.of_run (by decide +kernel)
  exact ⟨books, hrun, (reconciles_iff hrun noFloatMath "1d" 0 "").mpr ⟨hbound, hshown⟩⟩

/-- A bar at a price a little above 100. -/
def tickBar (date : String) : Bar where
  openPrice := 1000004 / 10000
  high := 1000004 / 10000
  low := 1000004 / 10000
  close := 1000004 / 10000
  date := date
  low_pos := by norm_num
  low_le_open := le_rfl
  open_le_high := le_rfl
  low_le_close := le_rfl
  close_le_high := le_rfl

/-- Two longs of ten gain 0.004 each. Their dictionaries show no gain, so a
cent is missing and both count as losses. -/
theorem hidden_gains_do_not_reconcile :
    Ensures (runLoop unfundedSettings [some buyTen, some leave, some buyTen] 2000
        [quietBar "2024-01-01", quietBar "2024-01-02", tickBar "2024-01-03",
          quietBar "2024-01-04", tickBar "2024-01-05"])
      (fun books =>
        let result := buildResult noFloatMath books.state 2000 "1d" 0 ""
          unfundedSettings.executor.config
        result.reconciliation.reconciliationError = 1 / 100 ∧
          result.metrics.winningTrades = 0 ∧ result.metrics.losingTrades = 2 ∧
          books.state.trades.countP (fun trade => decide (0 < trade.netPnl)) = 2) :=
  Ensures.of_run (by decide +kernel)

end Finbar.Backtest
