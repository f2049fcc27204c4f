/-
Finbar.Backtest.ExitPriceTheorems — at which prices positions are closed.

Every exit writes one line with its raw price (`ExitLine`). `Logs bar` says
that the lines written between two books are at prices the bar traded. All
exits are, except one: a liquidation is filled at the liquidation price even
on a bar that lies wholly beyond it (`LiquidationGap`). `fillsTraded_iff`
states this for whole leveraged runs.

No `sorry`, no `axiom`.
-/
import Finbar.Backtest.RunTheorems
import Finbar.Lib.Journal

namespace Finbar.Backtest

open Lib Lib.Python Lib.Run Finbar.Simulation

/-! ## §1 Prices a bar traded -/

/-- A price in the bar's range. -/
def TradedIn (bar : Bar) (price : ℚ) : Prop :=
  bar.low ≤ price ∧ price ≤ bar.high

instance (bar : Bar) (price : ℚ) : Decidable (TradedIn bar price) :=
  inferInstanceAs (Decidable (_ ∧ _))

theorem tradedIn_open (bar : Bar) : TradedIn bar bar.openPrice :=
  ⟨bar.low_le_open, bar.open_le_high⟩

theorem tradedIn_close (bar : Bar) : TradedIn bar bar.close :=
  ⟨bar.low_le_close, bar.close_le_high⟩

/-- The bar lies wholly beyond the liquidation price of the position: below
it for a long, above it for a short. -/
def LiquidationGap (position : SimulatedPosition) (bar : Bar) : Prop :=
  (0 < position.size ∧ bar.high < position.liquidationPrice) ∨
    (position.size < 0 ∧ position.liquidationPrice < bar.low)

instance (position : SimulatedPosition) (bar : Bar) :
    Decidable (LiquidationGap position bar) :=
  inferInstanceAs (Decidable (_ ∨ _))

/-- The resolver picks prices the bar traded. -/
theorem resolve_tradedIn {position : SimulatedPosition} {bar : Bar} {price : ℚ}
    {reason : ExitReason}
    (h : IntrabarExitResolver.resolve position bar.openPrice bar.high bar.low
      = some (price, reason)) : TradedIn bar price := by
  have hlow := bar.low_le_open
  have hhigh := bar.open_le_high
  unfold IntrabarExitResolver.resolve IntrabarExitResolver.resolveLong
    IntrabarExitResolver.resolveShort at h
  unfold TradedIn
  split at h
  · -- A long: the stop lies below the open, the target above it.
    split at h
    · cases h; exact ⟨hlow, hhigh⟩
    · rename_i hstopGap
      split at h
      · cases h; exact ⟨hlow, hhigh⟩
      · rename_i htargetGap
        split at h
        · rename_i hstop
          cases h
          have hbelow : position.stopPrice < bar.openPrice :=
            not_le.mp fun hle => hstopGap ⟨hstop.1, hle⟩
          exact ⟨hstop.2, hbelow.le.trans hhigh⟩
        · split at h
          · rename_i htarget
            cases h
            have habove : bar.openPrice < position.targetPrice :=
              not_le.mp fun hle => htargetGap ⟨htarget.1, hle⟩
            exact ⟨hlow.trans habove.le, htarget.2⟩
          · cases h
  · split at h
    · -- A short: the other way round.
      split at h
      · cases h; exact ⟨hlow, hhigh⟩
      · rename_i hstopGap
        split at h
        · cases h; exact ⟨hlow, hhigh⟩
        · rename_i htargetGap
          split at h
          · rename_i hstop
            cases h
            have habove : bar.openPrice < position.stopPrice :=
              not_le.mp fun hle => hstopGap ⟨hstop.1, hle⟩
            exact ⟨hlow.trans habove.le, hstop.2⟩
          · split at h
            · rename_i htarget
              cases h
              have hbelow : position.targetPrice < bar.openPrice :=
                not_le.mp fun hle => htargetGap ⟨htarget.1, hle⟩
              exact ⟨htarget.2, hbelow.le.trans hhigh⟩
            · cases h
    · cases h

/-- **Forced exits without a gap.** When the bar does not lie beyond the
liquidation price, the exit it forces is at a price it traded. -/
theorem forcedExit_tradedIn {executor : PositionExecutor} {position : SimulatedPosition}
    {bar : Bar} {price : ℚ} {reason : ExitReason}
    (hgap : ¬ LiquidationGap position bar)
    (h : executor.forcedExit position bar.openPrice bar.high bar.low
      = some (price, reason)) : TradedIn bar price := by
  unfold PositionExecutor.forcedExit at h
  split at h
  · rename_i liq hliq
    cases h
    obtain ⟨rfl, hlong | hshort⟩ := checkLiquidation_eq_some hliq
    · exact ⟨hlong.2, not_lt.mp fun hlt => hgap (.inl ⟨hlong.1, hlt⟩)⟩
    · exact ⟨not_lt.mp fun hlt => hgap (.inr ⟨hshort.1, hlt⟩), hshort.2⟩
  · exact resolve_tradedIn h

/-- A leveraged position whose liquidation price the bar reaches is
liquidated at that price, whatever its stop and target. -/
theorem forcedExit_liquidation {executor : PositionExecutor}
    (hlev : 1 < executor.config.leverageMultiplier) {position : SimulatedPosition}
    {openPrice high low : ℚ}
    (hreach : (0 < position.size ∧ low ≤ position.liquidationPrice) ∨
      (position.size < 0 ∧ position.liquidationPrice ≤ high)) :
    executor.forcedExit position openPrice high low
      = some (position.liquidationPrice, .liquidation) := by
  have hspot : ¬ (executor.config.leverage.isSpot = true ∨ position.size = 0) := by
    rw [LeverageConfig.isSpot_iff, ExecutionConfig.leverage_multiplier]
    rintro (hle | hzero)
    · exact absurd hlev (not_lt.mpr hle)
    · rcases hreach with h | h
      · exact absurd h.1 (by rw [hzero]; exact lt_irrefl 0)
      · exact absurd h.1 (by rw [hzero]; exact lt_irrefl 0)
  have hliq : PositionCloser.checkLiquidation executor.config position high low
      = some position.liquidationPrice := by
    unfold PositionCloser.checkLiquidation
    rw [if_neg hspot]
    rcases hreach with h | h
    · rw [if_pos h]
    · rw [if_neg fun hc => absurd hc.1 (not_lt.mpr h.1.le), if_pos h]
  unfold PositionExecutor.forcedExit
  rw [hliq]

/-- On a bar beyond the liquidation price a leveraged position is liquidated
at a price the bar did not trade. -/
theorem forcedExit_of_gap {executor : PositionExecutor}
    (hlev : 1 < executor.config.leverageMultiplier) {position : SimulatedPosition}
    {bar : Bar} (hgap : LiquidationGap position bar) :
    executor.forcedExit position bar.openPrice bar.high bar.low
        = some (position.liquidationPrice, .liquidation) ∧
      ¬ TradedIn bar position.liquidationPrice := by
  rcases hgap with ⟨hlong, hlt⟩ | ⟨hshort, hlt⟩
  · refine ⟨forcedExit_liquidation hlev (.inl ⟨hlong, ?_⟩), fun ht => ?_⟩
    · exact (bar.low_le_high.trans hlt.le)
    · exact absurd ht.2 (not_le.mpr hlt)
  · refine ⟨forcedExit_liquidation hlev (.inr ⟨hshort, ?_⟩), fun ht => ?_⟩
    · exact (hlt.le.trans bar.low_le_high)
    · exact absurd ht.1 (not_le.mpr hlt)

/-! ## §2 The exit log -/

/-- Between two books the log grew by exits at prices the bar traded. -/
def Logs (bar : Bar) (books books' : Books) : Prop :=
  ∃ lines, books'.exitLog = books.exitLog ++ lines ∧
    ∀ line ∈ lines, TradedIn bar line.exitPrice

theorem Logs.of_eq {bar : Bar} {books books' : Books}
    (h : books'.exitLog = books.exitLog) : Logs bar books books' :=
  Grows.of_eq h

theorem Logs.trans {bar : Bar} {books books' books'' : Books}
    (h : Logs bar books books') (h' : Logs bar books' books'') :
    Logs bar books books'' :=
  Grows.trans h h'

theorem Logs.exit {bar : Bar} (executor : PositionExecutor) (books : Books) {price : ℚ}
    (hprice : TradedIn bar price) (date : String) (reason : ExitReason) :
    Logs bar books (executor.exitPosition books price date reason) :=
  Grows.one (P := fun line : ExitLine => TradedIn bar line.exitPrice) hprice

/-- The log only grows. -/
theorem bookStep_log {executor : PositionExecutor} {books books' : Books}
    (h : BookStep executor books books') : books.exitLog <+: books'.exitLog := by
  cases h with
  | exit price date reason hopen => exact List.prefix_append _ _
  | enter entry size hsize rawPrice fillPrice date hflat hstop => exact List.prefix_rfl
  | fund =>
      unfold PositionExecutor.applyFunding
      cases books.margin with
      | none => exact List.prefix_rfl
      | some account => exact List.prefix_rfl
  | sync =>
      unfold PositionExecutor.syncMarginEquity
      cases books.margin with
      | none => exact List.prefix_rfl
      | some account => exact List.prefix_rfl
  | keep state hsame => exact List.prefix_rfl

theorem bookSteps_log {executor : PositionExecutor} {books books' : Books}
    (h : BookSteps executor books books') : books.exitLog <+: books'.exitLog :=
  BookSteps.invariant (J := fun b => books.exitLog <+: b.exitLog)
    (fun _ _ hstep hpre => hpre.trans (bookStep_log hstep)) h List.prefix_rfl

theorem enter_log {executor : PositionExecutor} {books books' : Books}
    {entry : PendingEntry} {price : ℚ} {date : String}
    (h : executor.enter books entry price date = .ok books') :
    books'.exitLog = books.exitLog := by
  obtain ⟨state, -, rfl | ⟨size, hsize, -, -, -, rfl⟩⟩ := enter_cases h
  · rfl
  · rfl

theorem executePending_logs {executor : PositionExecutor} {bar : Bar}
    {books books' : Books}
    (h : executePending executor books bar.openPrice bar.date = .ok books') :
    Logs bar books books' := by
  have hexit : Logs bar books
      (executePendingExit executor books bar.openPrice bar.date) := by
    unfold executePendingExit
    split
    · exact (Logs.exit executor books (tradedIn_open bar) bar.date
        .signalExitNextOpen).trans (Logs.of_eq rfl)
    · exact Logs.of_eq rfl
  generalize hafter : executePendingExit executor books bar.openPrice bar.date = after at hexit
  obtain rfl | ⟨entry, -, -, henter⟩ := executePending_cases hafter h
  · exact hexit
  · have hlog := enter_log henter
    exact hexit.trans (Logs.of_eq hlog)

theorem checkExitConditions_logs {executor : PositionExecutor} {books : Books} {bar : Bar}
    (hgap : ¬ LiquidationGap books.state.position bar) :
    Logs bar books
      (executor.checkExitConditions books bar.openPrice bar.high bar.low bar.date) := by
  have hgap' : ¬ LiquidationGap books.state.position.hold bar := hgap
  unfold PositionExecutor.checkExitConditions
  simp only
  split
  · exact Logs.of_eq rfl
  · rename_i price reason hforced
    obtain ⟨lines, hlog, hlines⟩ := Logs.exit executor
      { books with state := { books.state with position := books.state.position.hold } }
      (forcedExit_tradedIn hgap' hforced) bar.date reason
    exact ⟨lines, hlog, hlines⟩

variable {σ : Type} (settings : RunSettings σ)

/-- **Every phase but a gapped liquidation** writes exits at traded prices. -/
theorem runPhase_logs (hlev : 0 < settings.executor.config.leverageMultiplier)
    (bar : Bar) (loop : Loop σ) (phase : Phase)
    (hgap : phase = .checkExitConditions →
      ¬ LiquidationGap loop.books.state.position bar) :
    Ensures (runPhase settings bar loop phase)
      (fun loop' => Logs bar loop.books loop'.books) := by
  obtain ⟨loop', hloop', -⟩ := runPhase_steps settings hlev bar loop phase
  refine ⟨loop', hloop', ?_⟩
  cases phase with
  | executePending =>
      simp only [runPhase] at hloop'
      cases hbooks : executePending settings.executor loop.books bar.openPrice bar.date with
      | error e => rw [hbooks] at hloop'; cases hloop'
      | ok books =>
          rw [hbooks] at hloop'
          cases hloop'
          exact executePending_logs hbooks
  | checkExitConditions =>
      cases hloop'
      exact checkExitConditions_logs (hgap rfl)
  | checkMarginCall =>
      cases hloop'
      simp only
      unfold PositionExecutor.checkMarginCall
      split
      · exact Logs.of_eq rfl
      · split
        · exact Logs.exit _ _ (tradedIn_close bar) _ _
        · exact Logs.of_eq rfl
  | applyFunding =>
      cases hloop'
      simp only
      unfold PositionExecutor.applyFunding
      cases loop.books.margin with
      | none => exact Logs.of_eq rfl
      | some account => exact Logs.of_eq rfl
  | processSignal =>
      cases hloop'
      unfold processSignal
      simp only
      split
      · exact Logs.of_eq rfl
      · exact Logs.of_eq rfl
  | trackEquity => cases hloop'; exact Logs.of_eq rfl
  | syncMarginEquity =>
      cases hloop'
      simp only
      unfold PositionExecutor.syncMarginEquity
      cases loop.books.margin with
      | none => exact Logs.of_eq rfl
      | some account => exact Logs.of_eq rfl

/-! ## §3 Whole runs -/

/-- The exits logged between two books. -/
def newExits (books books' : Books) : List ExitLine :=
  books'.exitLog.drop books.exitLog.length

theorem newExits_append {books books' : Books} {lines : List ExitLine}
    (h : books'.exitLog = books.exitLog ++ lines) : newExits books books' = lines := by
  unfold newExits
  rw [h, List.drop_left]

/-- Every exit of the run is at a raw price in the range of the bar on which
the position is closed: the bar of its iteration, the last bar for the
closing liquidation. -/
def FillsTraded (memory : σ) (initialCash : ℚ) (bars : List Bar) : Prop :=
  (∀ k bar before after, bars[k]? = some bar →
    afterBars settings memory initialCash bars k = .ok before →
    afterBars settings memory initialCash bars (k + 1) = .ok after →
    ∀ line ∈ newExits before.books after.books, TradedIn bar line.exitPrice) ∧
  ∀ bar loop books, bars.getLast? = some bar →
    afterBars settings memory initialCash bars bars.length = .ok loop →
    runLoop settings memory initialCash bars = .ok books →
    ∀ line ∈ newExits loop.books books, TradedIn bar line.exitPrice

/-- No tradable bar lies wholly beyond the liquidation price of the position
that is open when the bar's exits are checked. -/
def NoLiquidationGap (memory : σ) (initialCash : ℚ) (bars : List Bar) : Prop :=
  ∀ k bar loop, bars[k]? = some bar → settings.firstTradableIndex ≤ k →
    duringBar settings memory initialCash bars k bar 1 = .ok loop →
    ¬ LiquidationGap loop.books.state.position bar

variable {settings}

/-- An iteration without a gap logs exits at traded prices. -/
theorem iteration_logs (hlev : 0 < settings.executor.config.leverageMultiplier)
    {before after : Loop σ} {bar : Bar} {k : ℕ}
    (hgap : settings.firstTradableIndex ≤ k → ∀ loop,
      runPhase settings bar (beginBar bar before) .executePending = .ok loop →
      ¬ LiquidationGap loop.books.state.position bar)
    (h : iteration settings before (bar, k) = .ok after) :
    Logs bar before.books after.books := by
  by_cases hk : settings.firstTradableIndex ≤ k
  · obtain ⟨pending, exited, hpending, hexited, hrest⟩ := iteration_split hk h
    have hfirst : Logs bar before.books pending.books :=
      (runPhase_logs settings hlev bar (beginBar bar before) .executePending
        (fun hc => nomatch hc)).of_eq_ok hpending
    have hsecond : Logs bar pending.books exited.books :=
      (runPhase_logs settings hlev bar pending .checkExitConditions
        (fun _ => hgap hk pending hpending)).of_eq_ok hexited
    -- The exit check is behind us: the other phases never meet a gap.
    have hothers : Ensures ((Phase.all.drop 2).foldlM (runPhase settings bar) exited)
        (fun loop => Logs bar exited.books loop.books) := by
      refine Ensures.foldlM (fun loop phase hmem hlogs => ?_) (Logs.of_eq rfl)
      refine (runPhase_logs settings hlev bar loop phase ?_).mono
        (fun _ hlogs' => hlogs.trans hlogs')
      intro hcheck
      subst hcheck
      exact absurd hmem (by decide)
    exact (hfirst.trans hsecond).trans (hothers.of_eq_ok hrest)
  · unfold iteration at h
    simp only at h
    rw [if_pos (not_le.mp hk)] at h
    cases h
    exact Logs.of_eq rfl

/-- An iteration with a gap logs an exit at a price the bar did not trade. -/
theorem iteration_gap (hlev : 1 < settings.executor.config.leverageMultiplier)
    {before after pending : Loop σ} {bar : Bar} {k : ℕ}
    (hk : settings.firstTradableIndex ≤ k)
    (hpending : runPhase settings bar (beginBar bar before) .executePending = .ok pending)
    (hgap : LiquidationGap pending.books.state.position bar)
    (h : iteration settings before (bar, k) = .ok after) :
    ∃ line ∈ newExits before.books after.books, ¬ TradedIn bar line.exitPrice := by
  have hpos : 0 < settings.executor.config.leverageMultiplier := zero_lt_one.trans hlev
  obtain ⟨pending', exited, hpending', hexited, hrest⟩ := iteration_split hk h
  obtain rfl : pending = pending' := Except.ok.inj (hpending.symm.trans hpending')
  have hhold : LiquidationGap pending.books.state.position.hold bar := hgap
  obtain ⟨hforced, hprice⟩ := forcedExit_of_gap hlev hhold
  -- The log: what was there before, the liquidation, what came after.
  have hbefore : before.books.exitLog <+: pending.books.exitLog :=
    bookSteps_log ((runPhase_steps settings hpos bar (beginBar bar before)
      .executePending).of_eq_ok hpending)
  have hliquidated : ∃ line, exited.books.exitLog = pending.books.exitLog ++ [line] ∧
      line.exitPrice = pending.books.state.position.liquidationPrice := by
    cases hexited
    unfold PositionExecutor.checkExitConditions
    simp only [hforced]
    exact ⟨_, rfl, rfl⟩
  have hafter : exited.books.exitLog <+: after.books.exitLog := by
    have hsteps : Ensures ((Phase.all.drop 2).foldlM (runPhase settings bar) exited)
        (fun loop => exited.books.exitLog <+: loop.books.exitLog) := by
      refine Ensures.foldlM (fun loop phase _ hpre => ?_) List.prefix_rfl
      exact (runPhase_steps settings hpos bar loop phase).mono
        (fun _ hsteps => hpre.trans (bookSteps_log hsteps))
    exact hsteps.of_eq_ok hrest
  obtain ⟨xs, hxs⟩ := hbefore
  obtain ⟨line, hline, hlinePrice⟩ := hliquidated
  obtain ⟨ys, hys⟩ := hafter
  refine ⟨line, ?_, by rw [hlinePrice]; exact hprice⟩
  have hlog : after.books.exitLog = before.books.exitLog ++ (xs ++ ([line] ++ ys)) := by
    rw [← hys, hline, ← hxs]
    simp only [List.append_assoc]
  rw [newExits_append hlog]
  exact List.mem_append_right _ (List.mem_append_left _ (List.mem_singleton.mpr rfl))

/-- No phase changes the close and the date that the loop remembers. -/
theorem runPhase_final (bar : Bar) (loop : Loop σ) (phase : Phase) :
    Yields (runPhase settings bar loop phase) (fun loop' =>
      loop'.finalClose = loop.finalClose ∧ loop'.finalDate = loop.finalDate) := by
  cases phase with
  | executePending =>
      exact Yields.bind (P := fun _ => True) (fun _ _ => trivial)
        (fun _ _ => Yields.pure ⟨rfl, rfl⟩)
  | processSignal =>
      refine Yields.pure ?_
      unfold processSignal
      simp only
      split
      · exact ⟨rfl, rfl⟩
      · exact ⟨rfl, rfl⟩
  | checkExitConditions => exact Yields.pure ⟨rfl, rfl⟩
  | checkMarginCall => exact Yields.pure ⟨rfl, rfl⟩
  | applyFunding => exact Yields.pure ⟨rfl, rfl⟩
  | trackEquity => exact Yields.pure ⟨rfl, rfl⟩
  | syncMarginEquity => exact Yields.pure ⟨rfl, rfl⟩

/-- The close and the date the loop remembers are those of its last bar. -/
theorem iteration_final {k : ℕ} {bar : Bar} {before after : Loop σ}
    (h : iteration settings before (bar, k) = .ok after) :
    after.finalClose = bar.close ∧ after.finalDate = bar.date := by
  unfold iteration at h
  simp only at h
  split at h
  · cases h; exact ⟨rfl, rfl⟩
  · refine Yields.foldlM (I := fun loop : Loop σ =>
      loop.finalClose = bar.close ∧ loop.finalDate = bar.date) ?_ ⟨rfl, rfl⟩ after h
    intro loop phase _ hfinal
    exact (runPhase_final bar loop phase).mono
      (fun loop' hsame => ⟨hsame.1.trans hfinal.1, hsame.2.trans hfinal.2⟩)

/-- What the loop of a whole run remembers is its last bar. -/
theorem afterBars_final {memory : σ} {initialCash : ℚ} {bars : List Bar} {bar : Bar}
    {loop : Loop σ} (hbar : bars.getLast? = some bar)
    (hloop : afterBars settings memory initialCash bars bars.length = .ok loop) :
    loop.finalClose = bar.close ∧ loop.finalDate = bar.date := by
  rw [List.getLast?_eq_getElem?] at hbar
  have hlength : bars.length = bars.length - 1 + 1 := by
    have hlt := (List.getElem?_eq_some_iff.mp hbar).1
    omega
  rw [hlength, afterBars_succ settings memory initialCash hbar, bind_eq_ok] at hloop
  obtain ⟨before, -, hlast⟩ := hloop
  exact iteration_final hlast

theorem liquidateOpen_logs (executor : PositionExecutor) (books : Books) {bar : Bar}
    {finalClose : ℚ} (hclose : TradedIn bar finalClose) (finalDate : String) :
    Logs bar books (executor.liquidateOpen books finalClose finalDate) := by
  unfold PositionExecutor.liquidateOpen
  split
  · exact Logs.of_eq rfl
  · have hexit := Logs.exit executor books hclose finalDate .endOfBacktest
    simp only
    split
    · exact hexit
    · exact hexit.trans (Logs.of_eq rfl)

/-- The closing liquidation is at the close of the last bar. -/
theorem runLoop_logs {memory : σ} {initialCash : ℚ} {bars : List Bar} {bar : Bar}
    {loop : Loop σ} {books : Books} (hbar : bars.getLast? = some bar)
    (hloop : afterBars settings memory initialCash bars bars.length = .ok loop)
    (hbooks : runLoop settings memory initialCash bars = .ok books) :
    Logs bar loop.books books := by
  obtain rfl := books_of_runLoop hloop hbooks
  refine liquidateOpen_logs _ _ ?_ _
  rw [(afterBars_final hbar hloop).1]
  exact tradedIn_close bar

/-- A gap on a tradable bar makes a fill the bar did not trade. -/
theorem not_fillsTraded_of_gap {memory : σ} {initialCash : ℚ} {bars : List Bar}
    (hlev : 1 < settings.executor.config.leverageMultiplier) {k : ℕ} {bar : Bar}
    (hbar : bars[k]? = some bar) (hk : settings.firstTradableIndex ≤ k)
    (hgap : Ensures (duringBar settings memory initialCash bars k bar 1)
      (fun loop => LiquidationGap loop.books.state.position bar)) :
    ¬ FillsTraded settings memory initialCash bars := by
  intro hfills
  have hpos : 0 < settings.executor.config.leverageMultiplier := zero_lt_one.trans hlev
  obtain ⟨pending, hpending, hgap⟩ := hgap
  obtain ⟨before, hbefore⟩ := afterBars_returns hpos memory initialCash bars k
  obtain ⟨after, hafter⟩ := afterBars_returns hpos memory initialCash bars (k + 1)
  have hiter := hafter
  rw [afterBars_succ settings memory initialCash hbar, hbefore] at hiter
  rw [duringBar_one hbefore] at hpending
  obtain ⟨line, hline, hprice⟩ := iteration_gap hlev hk hpending hgap hiter
  exact hprice (hfills.1 k bar before after hbar hbefore hafter line hline)

/-- **Exits are filled at traded prices exactly when no bar gaps past the
liquidation price.** For every leveraged run, whatever the strategy does:
every raw exit price lies in the range of the bar on which the position is
closed if and only if no tradable bar lies wholly beyond the liquidation
price of the position open when its exits are checked. -/
theorem fillsTraded_iff_noLiquidationGap (settings : RunSettings σ) (memory : σ)
    (initialCash : ℚ) (bars : List Bar)
    (hlev : 1 < settings.executor.config.leverageMultiplier) :
    FillsTraded settings memory initialCash bars
      ↔ NoLiquidationGap settings memory initialCash bars := by
  have hpos : 0 < settings.executor.config.leverageMultiplier := zero_lt_one.trans hlev
  constructor
  · intro hfills k bar pending hbar hk hpending hgap
    exact not_fillsTraded_of_gap hlev hbar hk ⟨pending, hpending, hgap⟩ hfills
  · intro hnogap
    refine ⟨?_, ?_⟩
    · intro k bar before after hbar hbefore hafter
      have hiter := hafter
      rw [afterBars_succ settings memory initialCash hbar, hbefore] at hiter
      obtain ⟨lines, hlog, hlines⟩ := iteration_logs hpos (fun hk pending hpending =>
        hnogap k bar pending hbar hk ((duringBar_one hbefore).trans hpending)) hiter
      rw [newExits_append hlog]
      exact hlines
    · intro bar loop books hbar hloop hbooks
      obtain ⟨lines, hlog, hlines⟩ := runLoop_logs hbar hloop hbooks
      rw [newExits_append hlog]
      exact hlines

/-- The equivalence on a leveraged run over quiet bars. -/
theorem fillsTraded_iff_quiet :
    FillsTraded unfundedSettings [some buyTen] 1000 quietBars
      ↔ NoLiquidationGap unfundedSettings [some buyTen] 1000 quietBars :=
  fillsTraded_iff_noLiquidationGap unfundedSettings [some buyTen] 1000 quietBars
    (by decide +kernel)

/-- A bar that gaps from 100 down to 40. -/
def crashBar : Bar where
  openPrice := 40
  high := 45
  low := 38
  close := 40
  date := "2024-01-03"
  low_pos := by norm_num
  low_le_open := by norm_num
  open_le_high := by norm_num
  low_le_close := by norm_num
  close_le_high := by norm_num

/-- A long of ten, bought at 100 with three times leverage, is liquidated at
67.17 on a bar that never traded above 45. -/
theorem crash_not_fillsTraded :
    ¬ FillsTraded unfundedSettings [some buyTen] 1000
      [quietBar "2024-01-01", quietBar "2024-01-02", crashBar] :=
  not_fillsTraded_of_gap (k := 2) (by decide +kernel) rfl (Nat.zero_le 2)
    (Ensures.of_run (by decide +kernel))

end Finbar.Backtest
