/-
Finbar.Backtest.DrawdownTheorems — the drawdowns stored in the equity curve.

While bars are recorded the kept peak is the largest value so far, so each
stored drawdown is the one recomputed from the stored values (`CurveKept`).
`liquidate_open` replaces the last value by the cash that is left, but measures
it from a peak that has already seen the value it replaces. When that value was
a new high the stored drawdown is larger than the recomputed one
(`drawdowns_recomputed_iff`).

No `sorry`, no `axiom`.
-/
import Finbar.Backtest.EquityTheorems
import Finbar.Backtest.ExitPriceTheorems
import Finbar.Backtest.ReconciliationTheorems
import Finbar.Lib.Drawdown

namespace Finbar.Backtest

open Lib Lib.Python Lib.Run Lib.Drawdown Finbar.Simulation

variable {σ : Type} {settings : RunSettings σ}

/-! ## §1 The curve while bars are recorded -/

/-- The values of the equity curve. -/
def equityValues (books : Books) : List ℚ :=
  books.state.equityCurve.map EquityPoint.value

/-- The drawdowns stored in the equity curve. -/
def storedDrawdowns (books : Books) : List ℚ :=
  books.state.equityCurve.map EquityPoint.drawdown

/-- The kept peak is that of the stored values, and so are the drawdowns. -/
structure CurveKept (initialCash : ℚ) (books : Books) : Prop where
  peak : books.state.peakValue = peakOf initialCash (equityValues books)
  stored : storedDrawdowns books = drawdowns initialCash (equityValues books)

theorem CurveKept.of_sameCurve {initialCash : ℚ} {books books' : Books}
    (h : CurveKept initialCash books) (hsame : SameCurve books.state books'.state) :
    CurveKept initialCash books' := by
  have hvalues : equityValues books' = equityValues books := by
    unfold equityValues
    rw [hsame.equityCurve]
  have hstored : storedDrawdowns books' = storedDrawdowns books := by
    unfold storedDrawdowns
    rw [hsame.equityCurve]
  constructor
  · rw [hsame.peakValue, hvalues]
    exact h.peak
  · rw [hstored, hvalues]
    exact h.stored

/-- Tracking equity appends one value and its drawdown. -/
theorem trackEquity_curveKept {initialCash : ℚ} {books : Books}
    (h : CurveKept initialCash books) (close : ℚ) (date : String) :
    CurveKept initialCash { books with state := trackEquity books.state close date } := by
  have hvalues : equityValues { books with state := trackEquity books.state close date }
      = equityValues books ++ [portfolioValue books.state close] := by
    simp only [equityValues, trackEquity, List.map_append, List.map_cons, List.map_nil]
  have hpeak : (trackEquity books.state close date).peakValue
      = max (peakOf initialCash (equityValues books)) (portfolioValue books.state close) := by
    simp only [trackEquity, ite_lt_eq_max, h.peak]
  constructor
  · rw [hvalues, peakOf_concat]
    exact hpeak
  · rw [hvalues, drawdowns_concat, ← h.stored, ← hpeak]
    simp only [storedDrawdowns, trackEquity, List.map_append, List.map_cons, List.map_nil]
    rfl

theorem iteration_curveKept {initialCash : ℚ} {loop : Loop σ} (barAt : Bar × ℕ)
    (h : CurveKept initialCash loop.books) :
    Yields (iteration settings loop barAt) (fun loop' => CurveKept initialCash loop'.books) := by
  unfold iteration
  simp only
  split
  · exact Yields.pure h
  · intro loop' hloop'
    obtain ⟨signalled, -, hbefore, rfl⟩ := tradableBar_split hloop'
    have hsignalled : CurveKept initialCash signalled.books := h.of_sameCurve hbefore
    exact (trackEquity_curveKept hsignalled _ _).of_sameCurve (syncMarginEquity_sameCurve _)

/-- **The curve is kept by every iteration.** -/
theorem afterBars_curveKept (memory : σ) (initialCash : ℚ) (bars : List Bar) (k : ℕ) :
    Yields (afterBars settings memory initialCash bars k)
      (fun loop => CurveKept initialCash loop.books) := by
  refine Yields.foldlM (fun loop barAt _ h => iteration_curveKept barAt h) ?_
  exact ⟨rfl, rfl⟩

/-! ## §2 The last value is the portfolio value -/

/-- Before the first tradable bar nothing has happened to the books. -/
theorem afterBars_warmup {memory : σ} {initialCash : ℚ} {bars : List Bar} {k : ℕ}
    (hk : k ≤ settings.firstTradableIndex) :
    Yields (afterBars settings memory initialCash bars k)
      (fun loop => loop.books = settings.executor.setupFullMargin initialCash) := by
  refine Yields.foldlM (fun loop barAt hmem h => ?_) rfl
  have hlt : barAt.2 < k := by
    obtain ⟨i, hi⟩ := List.mem_iff_getElem?.mp hmem
    rw [List.getElem?_take] at hi
    split at hi
    · rename_i hik
      rw [List.getElem?_zipIdx, Option.map_eq_some_iff] at hi
      obtain ⟨bar, -, rfl⟩ := hi
      simpa using hik
    · cases hi
  unfold iteration
  simp only
  rw [if_pos (hlt.trans_le hk)]
  exact Yields.pure h

/-- The last point of the curve has the portfolio value at the close that the
loop remembers. -/
def LastMarked (loop : Loop σ) : Prop :=
  ∃ earlier last, loop.books.state.equityCurve = earlier ++ [last] ∧
    last.value = portfolioValue loop.books.state loop.finalClose

/-- With a position open at the end of the data its last bar was tradable, and
recorded. -/
theorem afterBars_lastMarked {memory : σ} {initialCash : ℚ} {bars : List Bar} {loop : Loop σ}
    (h : afterBars settings memory initialCash bars bars.length = .ok loop)
    (hopen : loop.books.state.position.size ≠ 0) : LastMarked loop := by
  have hne : ¬ bars.length ≤ settings.firstTradableIndex := by
    intro hle
    have hbooks := afterBars_warmup hle loop h
    rw [hbooks] at hopen
    exact hopen rfl
  obtain ⟨k, hk⟩ : ∃ k, bars.length = k + 1 := ⟨bars.length - 1, by omega⟩
  obtain ⟨bar, hbar⟩ : ∃ bar, bars[k]? = some bar :=
    ⟨_, List.getElem?_eq_getElem (show k < bars.length by omega)⟩
  rw [hk, afterBars_succ settings memory initialCash hbar, bind_eq_ok] at h
  obtain ⟨before, hbefore, hiter⟩ := h
  obtain ⟨hclose, -⟩ := iteration_final hiter
  obtain ⟨haccounted, -⟩ := afterBars_marked settings memory initialCash bars k before hbefore
  unfold iteration at hiter
  simp only at hiter
  rw [if_neg (by omega)] at hiter
  obtain ⟨signalled, hphases, -, rfl⟩ := tradableBar_split hiter
  -- The first five phases leave the account mirrored, so synchronising is idle.
  have hbegun : Accounted initialCash (beginBar bar before).books := haccounted
  have hmirrored : Mirrored signalled.books := by
    refine (Yields.foldlM (I := fun loop : Loop σ => Accounted initialCash loop.books) ?_
      hbegun signalled hphases).mirrored
    intro loop' phase _ ha' loop'' hloop''
    exact BookSteps.invariant bookStep_accounted (runPhase_steps_of_ok settings hloop'') ha'
  have htracked : Mirrored { signalled.books with
      state := trackEquity signalled.books.state bar.close bar.date } := hmirrored
  have hsync := syncMarginEquity_of_mirrored htracked
  unfold LastMarked
  rw [hclose]
  simp only [hsync]
  exact ⟨_, _, rfl, rfl⟩

/-! ## §3 The closing liquidation -/

/-- What closing a position at the end of the data costs: slippage, commission
and borrow. -/
def closingCosts (executor : PositionExecutor) (position : SimulatedPosition) (finalClose : ℚ)
    (finalDate : String) : ℚ :=
  let trade := PositionCloser.buildTrade executor.config executor.fromisoformat position
    finalClose finalDate .endOfBacktest
  position.size * (finalClose - trade.exitPrice) + trade.exitCommission + trade.borrowCost

/-- The cash after the closing exit is the portfolio value less its costs. -/
theorem exitPosition_cash (executor : PositionExecutor) (books : Books) (finalClose : ℚ)
    (finalDate : String) (hopen : books.state.position.size ≠ 0) :
    (executor.exitPosition books finalClose finalDate .endOfBacktest).state.cash
      = portfolioValue books.state finalClose
        - closingCosts executor books.state.position finalClose finalDate := by
  have haligned := books.state.position.aligned
  simp only [PositionExecutor.exitPosition, PositionCloser.close, PositionCloser.cashSettlement,
    portfolioValue, closingCosts, PositionCloser.buildTrade]
  cases hd : books.state.position.direction with
  | none =>
      rw [hd] at haligned
      exact absurd haligned hopen
  | some side =>
      rw [hd] at haligned
      cases side with
      | long =>
          have hlong : 0 < books.state.position.size := haligned
          rw [if_pos hlong, if_pos hlong, borrowCost_long, abs_of_pos hlong]
          ring
      | short =>
          have hshort : books.state.position.size < 0 := haligned
          rw [if_neg hshort.not_gt, if_neg hshort.not_gt, if_pos hshort, abs_of_neg hshort]
          ring

/-- Closing out replaces the last value by the cash, and measures it from a peak
that has seen the value it replaces. -/
theorem liquidateOpen_curve (executor : PositionExecutor) {initialCash : ℚ} {books : Books}
    (h : CurveKept initialCash books) {earlier : List EquityPoint} {last : EquityPoint}
    (hcurve : books.state.equityCurve = earlier ++ [last])
    (finalClose : ℚ) (finalDate : String) (hopen : books.state.position.size ≠ 0) :
    let books' := executor.liquidateOpen books finalClose finalDate
    let peak := peakOf initialCash (earlier.map EquityPoint.value)
    let value := portfolioValue books.state finalClose
      - closingCosts executor books.state.position finalClose finalDate
    equityValues books' = earlier.map EquityPoint.value ++ [value] ∧
      storedDrawdowns books'
        = drawdowns initialCash (earlier.map EquityPoint.value)
          ++ [drawdownFrom (max (max peak last.value) value) value] := by
  have hvalues : equityValues books = earlier.map EquityPoint.value ++ [last.value] := by
    unfold equityValues
    rw [hcurve, List.map_append]
    rfl
  have hstored : earlier.map EquityPoint.drawdown
      = drawdowns initialCash (earlier.map EquityPoint.value) := by
    have hall := h.stored
    rw [hvalues, drawdowns_concat] at hall
    unfold storedDrawdowns at hall
    rw [hcurve, List.map_append] at hall
    exact (List.append_inj' hall rfl).1
  have hpeak := h.peak
  rw [hvalues, peakOf_concat] at hpeak
  have hflat : (executor.exitPosition books finalClose finalDate
      .endOfBacktest).state.position.size = 0 := rfl
  have hvalue := exitPosition_cash executor books finalClose finalDate hopen
  rw [← portfolioValue_flat hflat finalClose] at hvalue
  have hkept : (executor.exitPosition books finalClose finalDate .endOfBacktest).state.peakValue
      = books.state.peakValue := rfl
  have hlast : (executor.exitPosition books finalClose finalDate
      .endOfBacktest).state.equityCurve.getLast? = some last := by
    change books.state.equityCurve.getLast? = some last
    rw [hcurve, List.getLast?_concat]
  have hearlier : (executor.exitPosition books finalClose finalDate
      .endOfBacktest).state.equityCurve.dropLast = earlier := by
    change books.state.equityCurve.dropLast = earlier
    rw [hcurve, List.dropLast_concat]
  intro books' peak value
  have hbooks' : books' = executor.liquidateOpen books finalClose finalDate := rfl
  unfold PositionExecutor.liquidateOpen at hbooks'
  rw [if_neg hopen] at hbooks'
  simp only [hlast, hearlier, hkept, hpeak, hvalue, ite_lt_eq_max] at hbooks'
  constructor
  · rw [hbooks', equityValues]
    simp only [List.map_append, List.map_cons, List.map_nil]
    rfl
  · rw [hbooks', storedDrawdowns]
    simp only [List.map_append, List.map_cons, List.map_nil, hstored]
    rfl

/-! ## §4 The drawdowns of a result -/

theorem drawdownStep_eq_peakStep : drawdownStep = peakStep := by
  funext acc value
  simp only [drawdownStep, peakStep, drawdownFrom, ite_lt_eq_max]

/-- `calculate_max_drawdown` of a curve that starts at `start` is the largest of
its drawdowns. -/
theorem isGreatest_calculateMaxDrawdown {start : ℚ} {values : List ℚ}
    (h : values.head? = some start) :
    IsGreatest {d | d ∈ drawdowns start values} (calculateMaxDrawdown values) := by
  obtain ⟨rest, rfl⟩ := List.head?_eq_some_iff.mp h
  have hfold : calculateMaxDrawdown (start :: rest)
      = ((start :: rest).foldl peakStep (start, 0)).2 := by
    rw [← drawdownStep_eq_peakStep]
    cases rest with
    | nil => simp [calculateMaxDrawdown, drawdownStep]
    | cons value rest => rfl
  rw [hfold]
  exact isGreatest_drawdowns start rest

/-- The stored drawdowns are those recomputed from the stored values, and the
reported one, which is rounded, is the largest of them when the curve starts
with the initial cash. -/
structure DrawdownsConsistent (fm : FloatMath) (config : ExecutionConfig) (interval : String)
    (initialCash : ℚ) (books : Books) : Prop where
  stored : storedDrawdowns books = drawdowns initialCash (equityValues books)
  reported : (equityValues books).head? = some initialCash →
    ∃ d, IsGreatest {d | d ∈ storedDrawdowns books} d ∧
      (computeMetrics fm books.state initialCash config interval).maxDrawdown = pyRound d 4

theorem drawdownsConsistent_iff (fm : FloatMath) (config : ExecutionConfig) (interval : String)
    (initialCash : ℚ) (books : Books) :
    DrawdownsConsistent fm config interval initialCash books ↔
      storedDrawdowns books = drawdowns initialCash (equityValues books) := by
  refine ⟨fun h => h.stored, fun h => ⟨h, fun hhead => ?_⟩⟩
  rw [h]
  exact ⟨_, isGreatest_calculateMaxDrawdown hhead, rfl⟩

/-- Nothing is open at the end of the data, or its marked value was no new peak,
or it costs nothing to close, or everything. -/
def KeepsPeak (executor : PositionExecutor) (initialCash : ℚ) (loop : Loop σ) : Prop :=
  let state := loop.books.state
  let value := portfolioValue state loop.finalClose
  let costs := closingCosts executor state.position loop.finalClose loop.finalDate
  state.position.size = 0 ∨
    value ≤ peakOf initialCash (equityValues loop.books).dropLast ∨ costs ≤ 0 ∨ value = costs

instance (executor : PositionExecutor) (initialCash : ℚ) (loop : Loop σ) :
    Decidable (KeepsPeak executor initialCash loop) :=
  inferInstanceAs (Decidable (_ ∨ _ ∨ _ ∨ _))

/-- **The drawdowns of a run.** For a positive initial cash and every run that
returns, whatever the strategy does: each stored drawdown is the one recomputed
from the stored values, and the reported one the largest of them, if and only
if closing what is open at the end replaces no new peak by a smaller value. -/
theorem drawdowns_recomputed_iff {memory : σ} {initialCash : ℚ} {bars : List Bar}
    {loop : Loop σ} {books : Books} (hcash : 0 < initialCash)
    (hloop : afterBars settings memory initialCash bars bars.length = .ok loop)
    (hrun : runLoop settings memory initialCash bars = .ok books) (fm : FloatMath)
    (interval : String) :
    DrawdownsConsistent fm settings.executor.config interval initialCash books
      ↔ KeepsPeak settings.executor initialCash loop := by
  rw [drawdownsConsistent_iff]
  obtain rfl := books_of_runLoop hloop hrun
  have hkept := afterBars_curveKept memory initialCash bars _ loop hloop
  by_cases hflat : loop.books.state.position.size = 0
  · have hidle : settings.executor.liquidateOpen loop.books loop.finalClose loop.finalDate
        = loop.books := by
      unfold PositionExecutor.liquidateOpen
      rw [if_pos hflat]
    rw [hidle]
    exact iff_of_true hkept.stored (.inl hflat)
  · obtain ⟨earlier, last, hcurve, hlast⟩ := afterBars_lastMarked hloop hflat
    obtain ⟨hvalues, hstored⟩ := liquidateOpen_curve settings.executor hkept hcurve
      loop.finalClose loop.finalDate hflat
    have hearlier : (equityValues loop.books).dropLast = earlier.map EquityPoint.value := by
      unfold equityValues
      rw [hcurve, List.map_append, List.map_singleton, List.dropLast_concat]
    have hpeak : 0 < peakOf initialCash (earlier.map EquityPoint.value) :=
      hcash.trans_le (le_peakOf _ _)
    simp only [hvalues, hstored, drawdowns_concat, List.append_cancel_left_eq,
      List.cons.injEq, and_true]
    rw [drawdownFrom_max_eq_iff hpeak, hlast]
    unfold KeepsPeak
    simp only [hflat, false_or, hearlier]
    rw [le_sub_self_iff, sub_eq_zero]

/-- A run at no leverage with a commission of one percent. -/
def commissionSettings : RunSettings (List (Option SignalResult)) where
  strategy := replay
  riskPerTrade := 2 / 100
  executor := { config := { commissionPct := 1 / 100 }, fromisoformat := fun _ => none }

/-- A long over quiet bars costs its commissions, and reaches no new peak. -/
theorem drawdowns_recomputed_quiet :
    ∃ books, runLoop commissionSettings [some buyTen] 2000 quietBars = .ok books ∧
      DrawdownsConsistent noFloatMath commissionSettings.executor.config "1d" 2000 books := by
  obtain ⟨loop, hloop, hkeeps⟩ : Ensures
      (afterBars commissionSettings [some buyTen] 2000 quietBars quietBars.length)
      (fun loop => KeepsPeak commissionSettings.executor 2000 loop) :=
    Ensures.of_run (by decide +kernel)
  have hrun : runLoop commissionSettings [some buyTen] 2000 quietBars
      = .ok (commissionSettings.executor.liquidateOpen loop.books loop.finalClose
          loop.finalDate) := bind_eq_ok.mpr ⟨loop, hloop, rfl⟩
  exact ⟨_, hrun,
    (drawdowns_recomputed_iff (by norm_num) hloop hrun noFloatMath "1d").mpr hkeeps⟩

/-- A bar that rises from 100 to 120. -/
def risingBar (date : String) : Bar where
  openPrice := 100
  high := 121
  low := 99
  close := 120
  date := date
  low_pos := by decide +kernel
  low_le_open := by decide +kernel
  open_le_high := by decide +kernel
  low_le_close := by decide +kernel
  close_le_high := by decide +kernel

/-- The last bar lifts a long to 2190, a new peak, and closing it leaves 2178.
Recomputed, nothing is lost there and the largest drawdown is the 0.005 of the
entry, as reported; stored is the larger loss from 2190. -/
theorem closing_stores_drawdown :
    Ensures (runLoop commissionSettings [some buyTen] 2000
        [quietBar "2024-01-01", quietBar "2024-01-02", risingBar "2024-01-03"])
      (fun books =>
        equityValues books = [2000, 1990, 2178] ∧
          storedDrawdowns books = [0, 10 / 2000, 12 / 2190] ∧
          drawdowns 2000 (equityValues books) = [0, 10 / 2000, 0] ∧
          (computeMetrics noFloatMath books.state 2000 commissionSettings.executor.config
            "1d").maxDrawdown = 5 / 1000 ∧
          pyRound (12 / 2190) 4 = 55 / 10000) :=
  Ensures.of_run (by decide +kernel)

end Finbar.Backtest
