/-
Finbar.Backtest.ExitDateTheorems — on which date a trade is closed.

Every exit is recorded with the date it is given: the bar's at the open and
at the intrabar check, the last bar's at the end. The one exit with an empty
date is the margin call of full mode. It never happens: the exit check has
just taken every position whose liquidation price the bar's range reaches,
and the close lies in that range.

No `sorry`, no `axiom`.
-/
import Finbar.Backtest.MarginModeTheorems
import Finbar.Backtest.ExitPriceTheorems
import Finbar.Backtest.PendingTheorems

namespace Finbar.Backtest

open Lib Lib.Python Lib.Run Finbar.Simulation

/-! ## §1 Dated trades -/

/-- The trades recorded between two books all carry one exit date. -/
def ClosedOn (date : String) (books books' : Books) : Prop :=
  Grows (fun trade => trade.exitDate = date) books.state.trades books'.state.trades

theorem exitPosition_closedOn (executor : PositionExecutor) (books : Books) (price : ℚ)
    (date : String) (reason : ExitReason) :
    ClosedOn date books (executor.exitPosition books price date reason) :=
  Grows.one (P := fun trade : TradeRecord => trade.exitDate = date) rfl

theorem executePendingExit_closedOn (executor : PositionExecutor) (books : Books)
    (price : ℚ) (date : String) :
    ClosedOn date books (executePendingExit executor books price date) := by
  unfold executePendingExit
  split
  · exact exitPosition_closedOn executor books price date .signalExitNextOpen
  · exact Grows.of_eq rfl

/-- An entry records no trade. -/
theorem enter_trades (executor : PositionExecutor) (books : Books) (entry : PendingEntry)
    (bar : Bar) :
    Yields (executor.enter books entry bar.openPrice bar.date)
      (fun books' => books'.state.trades = books.state.trades) := by
  refine (enter_outcome executor books entry bar).mono ?_
  rintro books' ⟨-, hopened | hkept⟩
  · exact hopened.trades
  · exact hkept.trades

theorem executePending_closedOn (executor : PositionExecutor) (books : Books) (bar : Bar) :
    Yields (executePending executor books bar.openPrice bar.date)
      (ClosedOn bar.date books) := by
  have hexit := executePendingExit_closedOn executor books bar.openPrice bar.date
  unfold executePending
  simp only
  split
  · exact Yields.pure hexit
  · split
    · exact Yields.pure hexit
    · exact (enter_trades executor _ _ bar).mono
        (fun books' htrades => hexit.trans (Grows.of_eq htrades))

theorem checkExitConditions_closedOn (executor : PositionExecutor) (books : Books)
    (bar : Bar) :
    ClosedOn bar.date books
      (executor.checkExitConditions books bar.openPrice bar.high bar.low bar.date) := by
  unfold PositionExecutor.checkExitConditions
  simp only
  split
  · exact Grows.of_eq rfl
  · exact exitPosition_closedOn executor
      { books with state := { books.state with position := books.state.position.hold } }
      _ bar.date _

theorem liquidateOpen_closedOn (executor : PositionExecutor) (books : Books)
    (finalClose : ℚ) (finalDate : String) :
    ClosedOn finalDate books (executor.liquidateOpen books finalClose finalDate) := by
  unfold PositionExecutor.liquidateOpen
  split
  · exact Grows.of_eq rfl
  · simp only
    split
    · exact exitPosition_closedOn executor books finalClose finalDate .endOfBacktest
    · exact exitPosition_closedOn executor books finalClose finalDate .endOfBacktest

/-! ## §2 One iteration -/

section Iteration

variable {σ : Type} (settings : RunSettings σ)

/-- The phases after the margin call record no trade. -/
theorem runPhase_trades (bar : Bar) (loop : Loop σ) {phase : Phase}
    (hphase : phase ∈ Phase.all.drop 3) :
    Yields (runPhase settings bar loop phase)
      (fun loop' => loop'.books.state.trades = loop.books.state.trades) := by
  cases phase with
  | executePending => exact absurd hphase (by decide)
  | checkExitConditions => exact absurd hphase (by decide)
  | checkMarginCall => exact absurd hphase (by decide)
  | applyFunding => exact Yields.pure (applyFunding_frame ..).2.2
  | processSignal => exact Yields.pure (processSignal_frame settings bar loop).2
  | trackEquity => exact Yields.pure rfl
  | syncMarginEquity => exact Yields.pure (syncMarginEquity_frame ..).2.2

/-- When the exits of a bar have been checked, its trades are dated and no
margin call is due at its close. -/
theorem checkedExits_quiet (bar : Bar) (loop : Loop σ) :
    Yields ((Phase.all.take 2).foldlM (runPhase settings bar) loop) (fun loop' =>
      ClosedOn bar.date loop.books loop'.books ∧
        QuietAt settings.executor.config bar.close loop'.books) := by
  have htake : Phase.all.take 2 = [.executePending, .checkExitConditions] := rfl
  rw [htake, List.foldlM_cons]
  refine Yields.bind (P := fun loop' : Loop σ => ClosedOn bar.date loop.books loop'.books)
    ?_ ?_
  · exact Yields.bind (executePending_closedOn settings.executor loop.books bar)
      (fun _ hbooks => Yields.pure hbooks)
  · intro opened hopened
    have hexits := checkExitConditions_closedOn settings.executor opened.books bar
    exact Yields.pure ⟨hopened.trans hexits, checkExitConditions_quiet settings.executor
      opened.books bar.low_le_close bar.close_le_high bar.date⟩

/-- **A tradable bar dates its trades.** -/
theorem tradableBar_closedOn (bar : Bar) (loop : Loop σ) :
    Yields (Phase.all.foldlM (runPhase settings bar) loop)
      (fun loop' => ClosedOn bar.date loop.books loop'.books) := by
  have hsplit : Phase.all = Phase.all.take 2 ++ (.checkMarginCall :: Phase.all.drop 3) :=
    rfl
  rw [hsplit, List.foldlM_append]
  refine Yields.bind (checkedExits_quiet settings bar loop) ?_
  rintro checked ⟨hdated, hquiet⟩
  rw [List.foldlM_cons]
  refine Yields.bind (P := fun loop' : Loop σ => ClosedOn bar.date loop.books loop'.books)
    (Yields.pure ?_) ?_
  · rw [checkMarginCall_quiet hquiet]
    exact hdated
  · intro called hcalled
    refine Yields.foldlM (I := fun loop' : Loop σ => ClosedOn bar.date loop.books loop'.books)
      ?_ hcalled
    intro loop' phase hmem hloop'
    exact (runPhase_trades settings bar loop' hmem).mono
      (fun _ htrades => hloop'.trans (Grows.of_eq htrades))

theorem iteration_closedOn (loop : Loop σ) (bar : Bar) (k : ℕ) :
    Yields (iteration settings loop (bar, k))
      (fun loop' => ClosedOn bar.date loop.books loop'.books) := by
  unfold iteration
  simp only
  split
  · exact Yields.pure (Grows.of_eq rfl)
  · exact tradableBar_closedOn settings bar (beginBar bar loop)

end Iteration

/-! ## §3 Whole runs -/

/-- **Every trade carries the date of the bar it was closed on.** With a
positive leverage multiplier, in both margin modes and whatever the strategy
does, the run returns, and

1. the trades that an iteration records have the date of its bar as their
   exit date;
2. the trade that the closing liquidation records has the date of the last
   bar; without bars there is none;
3. after the exit check of a tradable bar the margin call is not due and
   leaves the books as they are. -/
theorem trades_closed_on_bar {σ : Type} (settings : RunSettings σ) (memory : σ)
    (initialCash : ℚ) (bars : List Bar)
    (hlev : 0 < settings.executor.config.leverageMultiplier) :
    (∀ k bar, bars[k]? = some bar → ∃ before after,
      afterBars settings memory initialCash bars k = .ok before ∧
      afterBars settings memory initialCash bars (k + 1) = .ok after ∧
      ClosedOn bar.date before.books after.books) ∧
    (∃ loop books, afterBars settings memory initialCash bars bars.length = .ok loop ∧
      runLoop settings memory initialCash bars = .ok books ∧
      (∀ bar, bars.getLast? = some bar → ClosedOn bar.date loop.books books) ∧
      (bars = [] → books.state.trades = [])) ∧
    ∀ k bar, bars[k]? = some bar → settings.firstTradableIndex ≤ k →
      ∃ loop, duringBar settings memory initialCash bars k bar 2 = .ok loop ∧
        MarginAccountManager.checkMarginCall settings.executor.config
          loop.books.state.position bar.close = false ∧
        settings.executor.checkMarginCall loop.books bar.close = loop.books := by
  refine ⟨fun k bar hbar => ?_, ?_, fun k bar hbar hk => ?_⟩
  · obtain ⟨before, hbefore⟩ := afterBars_returns hlev memory initialCash bars k
    obtain ⟨after, hafter⟩ := afterBars_returns hlev memory initialCash bars (k + 1)
    have hiteration := hafter
    rw [afterBars_succ settings memory initialCash hbar, hbefore] at hiteration
    exact ⟨before, after, hbefore, hafter,
      iteration_closedOn settings before bar k after hiteration⟩
  · obtain ⟨loop, hloop⟩ := afterBars_returns hlev memory initialCash bars bars.length
    refine ⟨loop, settings.executor.liquidateOpen loop.books loop.finalClose
      loop.finalDate, hloop, ?_, fun bar hbar => ?_, fun hnil => ?_⟩
    · exact runLoop_eq_ok_iff.mpr ⟨loop, hloop, rfl⟩
    · rw [← (afterBars_final hbar hloop).2]
      exact liquidateOpen_closedOn ..
    · subst hnil
      obtain rfl := Except.ok.inj hloop
      rfl
  · obtain ⟨loop, hloop, -⟩ := ensures_duringBar (J := fun _ => True) hlev
      (fun _ _ _ h => h) trivial memory bars k bar 2
    obtain ⟨before, -, hrun⟩ := duringBar_eq_ok settings hloop
    have hquiet := (checkedExits_quiet settings bar (beginBar bar before) loop hrun).2
    exact ⟨loop, hloop, hquiet, checkMarginCall_quiet hquiet⟩

/-- A leveraged run in full margin mode: its last trade is closed by the end
of the data. -/
theorem trades_closed_on_bar_full :
    (∀ k bar, quietBars[k]? = some bar → ∃ before after,
      afterBars (unfundedSettings.withMarginMode .full) [some buyTen] 1000 quietBars k
        = .ok before ∧
      afterBars (unfundedSettings.withMarginMode .full) [some buyTen] 1000 quietBars (k + 1)
        = .ok after ∧
      ClosedOn bar.date before.books after.books) ∧
    (∃ loop books,
      afterBars (unfundedSettings.withMarginMode .full) [some buyTen] 1000 quietBars
        quietBars.length = .ok loop ∧
      runLoop (unfundedSettings.withMarginMode .full) [some buyTen] 1000 quietBars
        = .ok books ∧
      (∀ bar, quietBars.getLast? = some bar → ClosedOn bar.date loop.books books) ∧
      (quietBars = [] → books.state.trades = [])) ∧
    ∀ k bar, quietBars[k]? = some bar →
      (unfundedSettings.withMarginMode .full).firstTradableIndex ≤ k →
      ∃ loop, duringBar (unfundedSettings.withMarginMode .full) [some buyTen] 1000
          quietBars k bar 2 = .ok loop ∧
        MarginAccountManager.checkMarginCall
          (unfundedSettings.withMarginMode .full).executor.config
          loop.books.state.position bar.close = false ∧
        (unfundedSettings.withMarginMode .full).executor.checkMarginCall loop.books bar.close
          = loop.books :=
  trades_closed_on_bar (unfundedSettings.withMarginMode .full) [some buyTen] 1000 quietBars
    (by decide +kernel)

end Finbar.Backtest
