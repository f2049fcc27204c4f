/-
Finbar.Backtest.RunTheorems — what a run can do to the books.

`BookStep` lists the moves: an exit of an open position, an entry into a
flat book, one bar's funding, a synchronisation of the margin account, and
housekeeping that touches no account. `runPhase_steps` shows that every
phase of an iteration is a sequence of moves, so a property of the books
that each move keeps holds after every iteration and inside every iteration
(`ensures_afterBars`, `ensures_duringBar`). With a positive leverage
multiplier no phase raises.

No `sorry`, no `axiom`.
-/
import Finbar.Backtest.Runner
import Finbar.Simulation.EntryTheorems
import Mathlib.Logic.Relation
import Mathlib.Tactic.NormNum

namespace Finbar.Backtest

open Lib.Python Lib.Run Finbar.Simulation Relation

/-! ## §1 Moves -/

/-- Two simulation states with the same accounts: cash, totals, trades and
position agree, the position up to a counted bar. -/
structure SameAccounts (s s' : SimulationState) : Prop where
  initialCash : s'.initialCash = s.initialCash
  cash : s'.cash = s.cash
  trades : s'.trades = s.trades
  totalFunding : s'.totalFunding = s.totalFunding
  usedMargin : s'.usedMargin = s.usedMargin
  position : s'.position = s.position ∨ s'.position = s.position.hold

/-- One move of the books. -/
inductive BookStep (executor : PositionExecutor) : Books → Books → Prop where
  /-- `exit_position` on an open position. -/
  | exit (books : Books) (price : ℚ) (date : String) (reason : ExitReason)
      (hopen : books.state.position.size ≠ 0) :
      BookStep executor books (executor.exitPosition books price date reason)
  /-- `PositionOpener.open` on a flat book, for an entry whose stop passed. -/
  | enter (books : Books) (entry : PendingEntry) (size : ℚ) (hsize : 0 < size)
      (rawPrice fillPrice : ℚ) (date : String)
      (hflat : books.state.position.size = 0)
      (hstop : PositionOpener.stopValid executor.config entry fillPrice = true) :
      BookStep executor books
        (PositionOpener.openedBooks executor.config books entry size hsize rawPrice
          fillPrice date (size * fillPrice / executor.config.leverageMultiplier))
  /-- `apply_funding`. -/
  | fund (books : Books) : BookStep executor books (executor.applyFunding books)
  /-- `sync_margin_equity`. -/
  | sync (books : Books) :
      BookStep executor books (PositionExecutor.syncMarginEquity books)
  /-- Anything that leaves the accounts alone. -/
  | keep (books : Books) (state : SimulationState)
      (h : SameAccounts books.state state) :
      BookStep executor books { books with state := state }

/-- Any number of moves. -/
abbrev BookSteps (executor : PositionExecutor) : Books → Books → Prop :=
  ReflTransGen (BookStep executor)

/-- A move with what is known of its prices: an entry is filled from a positive
price, a liquidation at the liquidation price of the position. -/
inductive PricedStep (executor : PositionExecutor) : Books → Books → Prop where
  | exit (books : Books) (price : ℚ) (date : String) (reason : ExitReason)
      (hopen : books.state.position.size ≠ 0)
      (hliquidation : reason = .liquidation → price = books.state.position.liquidationPrice) :
      PricedStep executor books (executor.exitPosition books price date reason)
  | enter (books : Books) (entry : PendingEntry) (size : ℚ) (hsize : 0 < size)
      (rawPrice : ℚ) (date : String) (hflat : books.state.position.size = 0)
      (hprice : 0 < rawPrice)
      (hstop : PositionOpener.stopValid executor.config entry
        (executor.entryFill entry rawPrice) = true) :
      PricedStep executor books
        (PositionOpener.openedBooks executor.config books entry size hsize rawPrice
          (executor.entryFill entry rawPrice) date
          (size * executor.entryFill entry rawPrice / executor.config.leverageMultiplier))
  | fund (books : Books) : PricedStep executor books (executor.applyFunding books)
  | sync (books : Books) :
      PricedStep executor books (PositionExecutor.syncMarginEquity books)
  | keep (books : Books) (state : SimulationState)
      (h : SameAccounts books.state state) :
      PricedStep executor books { books with state := state }

theorem PricedStep.bookStep {executor : PositionExecutor} {books books' : Books}
    (h : PricedStep executor books books') : BookStep executor books books' := by
  cases h with
  | exit price date reason hopen hliquidation => exact .exit _ price date reason hopen
  | enter entry size hsize rawPrice date hflat hprice hstop =>
      exact .enter _ entry size hsize rawPrice _ date hflat hstop
  | fund => exact .fund _
  | sync => exact .sync _
  | keep state h => exact .keep _ state h

abbrev PricedSteps (executor : PositionExecutor) : Books → Books → Prop :=
  ReflTransGen (PricedStep executor)

theorem PricedSteps.bookSteps {executor : PositionExecutor} {books books' : Books}
    (h : PricedSteps executor books books') : BookSteps executor books books' :=
  ReflTransGen.mono (fun _ _ => PricedStep.bookStep) _ _ h

theorem sameAccounts_refl (s : SimulationState) : SameAccounts s s :=
  ⟨rfl, rfl, rfl, rfl, rfl, .inl rfl⟩

/-- Appending diagnostics leaves the accounts alone. -/
theorem sameAccounts_of_diagnostics {s s' : SimulationState}
    (h : PositionSizer.SameButDiagnostics s s') : SameAccounts s s' := by
  rw [h]
  exact ⟨rfl, rfl, rfl, rfl, rfl, .inl rfl⟩

/-! ## §2 Each phase is a sequence of moves -/

section Phases

variable (executor : PositionExecutor)

theorem executePendingExit_steps (books : Books) (price : ℚ) (date : String) :
    PricedSteps executor books (executePendingExit executor books price date) := by
  unfold executePendingExit
  split
  · rename_i h
    exact .tail (.single (.exit books price date .signalExitNextOpen h.2 fun hc => nomatch hc))
      (.keep _ _ ⟨rfl, rfl, rfl, rfl, rfl, .inl rfl⟩)
  · exact .refl

/-- Entering from a flat book appends diagnostics and opens at most one
position. -/
theorem enter_steps {books books' : Books} {entry : PendingEntry} {price : ℚ}
    {date : String} (hprice : 0 < price) (hflat : books.state.position.size = 0)
    (h : executor.enter books entry price date = .ok books') :
    PricedSteps executor books books' := by
  obtain ⟨state, hframe, hcases⟩ := enter_cases h
  have hkeep := sameAccounts_of_diagnostics hframe
  rcases hcases with rfl | ⟨size, hsize, hstop, -, -, rfl⟩
  · exact .single (.keep books state hkeep)
  · have hflat' : state.position.size = 0 := by
      rw [hframe]
      exact hflat
    -- Rebasing keeps the direction, and so the fill.
    have hfill : executor.entryFill
        (executor.rebaseRiskPrices entry (executor.entryFill entry price)) price
        = executor.entryFill entry price := by
      rw [rebaseRiskPrices_frame]
      rfl
    refine .tail (.single (.keep books state hkeep)) ?_
    have hstep := @PricedStep.enter executor { books with state := state }
      (executor.rebaseRiskPrices entry (executor.entryFill entry price)) size hsize price date
      hflat' hprice (by rwa [hfill])
    rwa [hfill] at hstep

/-- With a positive leverage multiplier `enter` does not raise. -/
theorem enter_returns (hlev : 0 < executor.config.leverageMultiplier) (books : Books)
    (entry : PendingEntry) (price : ℚ) (date : String) :
    ∃ books', executor.enter books entry price date = .ok books' := by
  unfold PositionExecutor.enter
  simp only
  split
  · exact ⟨_, rfl⟩
  · split
    · exact ⟨_, rfl⟩
    · exact ⟨_, PositionOpener.open_eq_ok hlev ..⟩

/-- What executing the pending orders does: the exit, and then the entry if the
book is flat. -/
theorem executePending_cases {executor : PositionExecutor} {books books' after : Books}
    {price : ℚ} {date : String} (hafter : executePendingExit executor books price date = after)
    (h : executePending executor books price date = .ok books') :
    books' = after ∨
      ∃ entry, after.state.pendingEntry = some entry ∧ after.state.position.size = 0 ∧
        executor.enter { after with state := { after.state with pendingEntry := none } } entry
          price date = .ok books' := by
  unfold executePending at h
  simp only [hafter] at h
  split at h
  · exact .inl (Except.ok.inj h).symm
  · rename_i entry hentry
    split at h
    · exact .inl (Except.ok.inj h).symm
    · rename_i hflat
      exact .inr ⟨entry, hentry, not_not.mp hflat, h⟩

theorem executePending_steps {books books' : Books} {price : ℚ} {date : String}
    (hprice : 0 < price) (h : executePending executor books price date = .ok books') :
    PricedSteps executor books books' := by
  have hexit := executePendingExit_steps executor books price date
  obtain rfl | ⟨entry, -, hflat, henter⟩ := executePending_cases rfl h
  · exact hexit
  · refine hexit.trans (.head (.keep _ _ ?_) (enter_steps executor hprice ?_ henter))
    · exact ⟨rfl, rfl, rfl, rfl, rfl, .inl rfl⟩
    · exact hflat

theorem executePending_returns (hlev : 0 < executor.config.leverageMultiplier)
    (books : Books) (price : ℚ) (date : String) :
    ∃ books', executePending executor books price date = .ok books' := by
  unfold executePending
  simp only
  split
  · exact ⟨_, rfl⟩
  · split
    · exact ⟨_, rfl⟩
    · exact enter_returns executor hlev _ _ price date

/-- A liquidation is at the liquidation price, which the bar reached. -/
theorem checkLiquidation_eq_some {config : ExecutionConfig}
    {position : SimulatedPosition} {high low liq : ℚ}
    (h : PositionCloser.checkLiquidation config position high low = some liq) :
    liq = position.liquidationPrice ∧
      ((0 < position.size ∧ low ≤ position.liquidationPrice) ∨
        (position.size < 0 ∧ position.liquidationPrice ≤ high)) := by
  unfold PositionCloser.checkLiquidation at h
  split at h
  · cases h
  · split at h
    · rename_i hlong
      cases h
      exact ⟨rfl, .inl hlong⟩
    · split at h
      · rename_i hshort
        cases h
        exact ⟨rfl, .inr hshort⟩
      · cases h

/-- Stops and targets do not liquidate. -/
theorem resolve_ne_liquidation {position : SimulatedPosition} {openPrice high low : ℚ}
    {fill : ℚ × ExitReason}
    (h : IntrabarExitResolver.resolve position openPrice high low = some fill) :
    fill.2 ≠ .liquidation := by
  unfold IntrabarExitResolver.resolve IntrabarExitResolver.resolveLong
    IntrabarExitResolver.resolveShort at h
  split_ifs at h <;> cases h <;> exact fun hc => nomatch hc

/-- A forced liquidation is at the liquidation price. -/
theorem forcedExit_liquidationPrice {position : SimulatedPosition} {openPrice high low price : ℚ}
    (h : executor.forcedExit position openPrice high low = some (price, .liquidation)) :
    price = position.liquidationPrice := by
  unfold PositionExecutor.forcedExit at h
  split at h
  · rename_i liq hliq
    obtain rfl := (Prod.mk.inj (Option.some.inj h)).1
    exact (checkLiquidation_eq_some hliq).1
  · exact absurd rfl (resolve_ne_liquidation h)

/-- A bar forces an exit on an open position only. -/
theorem forcedExit_open {position : SimulatedPosition} {openPrice high low : ℚ}
    {fill : ℚ × ExitReason}
    (h : executor.forcedExit position openPrice high low = some fill) :
    position.size ≠ 0 := by
  intro hflat
  have hliq : PositionCloser.checkLiquidation executor.config position high low = none := by
    unfold PositionCloser.checkLiquidation
    rw [if_pos (.inr hflat)]
  have hresolve : IntrabarExitResolver.resolve position openPrice high low = none := by
    unfold IntrabarExitResolver.resolve
    rw [hflat, if_neg (lt_irrefl 0), if_neg (lt_irrefl 0)]
  unfold PositionExecutor.forcedExit at h
  rw [hliq] at h
  simp only [hresolve] at h
  cases h

theorem checkExitConditions_steps (books : Books) (openPrice high low : ℚ)
    (date : String) :
    PricedSteps executor books
      (executor.checkExitConditions books openPrice high low date) := by
  have hhold : PricedStep executor books
      { books with
        state := { books.state with position := books.state.position.hold } } :=
    .keep books _ ⟨rfl, rfl, rfl, rfl, rfl, .inr rfl⟩
  unfold PositionExecutor.checkExitConditions
  simp only
  split
  · exact .single hhold
  · rename_i exitPrice reason hfill
    refine .tail (.single hhold) (.exit _ _ _ _ (forcedExit_open executor hfill) ?_)
    rintro rfl
    exact forcedExit_liquidationPrice executor hfill

theorem checkMarginCall_open {config : ExecutionConfig} {position : SimulatedPosition}
    {close : ℚ}
    (h : MarginAccountManager.checkMarginCall config position close = true) :
    position.size ≠ 0 := by
  intro hflat
  unfold MarginAccountManager.checkMarginCall at h
  rw [if_pos (.inl hflat)] at h
  cases h

theorem checkMarginCall_steps (books : Books) (close : ℚ) :
    PricedSteps executor books (executor.checkMarginCall books close) := by
  unfold PositionExecutor.checkMarginCall
  split
  · exact .refl
  · split
    · rename_i h
      exact .single (.exit _ _ _ _ (checkMarginCall_open h) fun hc => nomatch hc)
    · exact .refl

theorem queueSignal_sameAccounts (state : SimulationState) (signal : SignalResult)
    (close riskPerTrade : ℚ) :
    SameAccounts state (queueSignal state signal close riskPerTrade) := by
  unfold queueSignal
  split
  · exact ⟨rfl, rfl, rfl, rfl, rfl, .inl rfl⟩
  · split
    · split
      · exact ⟨rfl, rfl, rfl, rfl, rfl, .inl rfl⟩
      · exact sameAccounts_refl state
    · exact sameAccounts_refl state

variable {σ : Type} (settings : RunSettings σ)

theorem processSignal_steps (bar : Bar) (loop : Loop σ) :
    PricedSteps settings.executor loop.books (processSignal settings bar loop).books := by
  unfold processSignal
  generalize settings.strategy.onBar loop.memory bar loop.books.state.position = answer
  obtain ⟨memory, signal⟩ := answer
  cases signal with
  | none => exact .refl
  | some signal => exact .single (.keep _ _ (queueSignal_sameAccounts _ signal _ _))

theorem trackEquity_sameAccounts (state : SimulationState) (close : ℚ) (date : String) :
    SameAccounts state (trackEquity state close date) :=
  ⟨rfl, rfl, rfl, rfl, rfl, .inl rfl⟩

/-- **Every phase is a sequence of moves.** -/
theorem runPhase_pricedSteps {bar : Bar} {loop loop' : Loop σ} {phase : Phase}
    (h : runPhase settings bar loop phase = .ok loop') :
    PricedSteps settings.executor loop.books loop'.books := by
  cases phase with
  | executePending =>
      obtain ⟨books, hbooks, hpure⟩ := bind_eq_ok.mp h
      obtain rfl := Except.ok.inj hpure
      exact executePending_steps settings.executor bar.open_pos hbooks
  | checkExitConditions =>
      obtain rfl := Except.ok.inj h
      exact checkExitConditions_steps ..
  | checkMarginCall =>
      obtain rfl := Except.ok.inj h
      exact checkMarginCall_steps ..
  | applyFunding =>
      obtain rfl := Except.ok.inj h
      exact .single (.fund loop.books)
  | processSignal =>
      obtain rfl := Except.ok.inj h
      exact processSignal_steps settings bar loop
  | trackEquity =>
      obtain rfl := Except.ok.inj h
      exact .single (.keep _ _ (trackEquity_sameAccounts ..))
  | syncMarginEquity =>
      obtain rfl := Except.ok.inj h
      exact .single (.sync loop.books)

theorem runPhase_steps_of_ok {bar : Bar} {loop loop' : Loop σ} {phase : Phase}
    (h : runPhase settings bar loop phase = .ok loop') :
    BookSteps settings.executor loop.books loop'.books :=
  (runPhase_pricedSteps settings h).bookSteps

/-- So is the closing liquidation. -/
theorem liquidateOpen_steps (books : Books) (finalClose : ℚ) (finalDate : String) :
    PricedSteps executor books (executor.liquidateOpen books finalClose finalDate) := by
  unfold PositionExecutor.liquidateOpen
  split
  · exact .refl
  · rename_i hopen
    have hexit : PricedStep executor books
        (executor.exitPosition books finalClose finalDate .endOfBacktest) :=
      .exit books finalClose finalDate _ hopen fun hc => nomatch hc
    simp only
    split
    · exact .single hexit
    · exact .tail (.single hexit) (.keep _ _ ⟨rfl, rfl, rfl, rfl, rfl, .inl rfl⟩)

/-- With a positive leverage multiplier no phase raises. -/
theorem runPhase_returns (hlev : 0 < settings.executor.config.leverageMultiplier)
    (bar : Bar) (loop : Loop σ) (phase : Phase) :
    ∃ loop', runPhase settings bar loop phase = .ok loop' := by
  cases phase with
  | executePending =>
      obtain ⟨books, hbooks⟩ := executePending_returns settings.executor hlev loop.books
        bar.openPrice bar.date
      exact ⟨_, bind_eq_ok.mpr ⟨books, hbooks, rfl⟩⟩
  | checkExitConditions => exact ⟨_, rfl⟩
  | checkMarginCall => exact ⟨_, rfl⟩
  | applyFunding => exact ⟨_, rfl⟩
  | processSignal => exact ⟨_, rfl⟩
  | trackEquity => exact ⟨_, rfl⟩
  | syncMarginEquity => exact ⟨_, rfl⟩

theorem runPhase_steps (hlev : 0 < settings.executor.config.leverageMultiplier)
    (bar : Bar) (loop : Loop σ) (phase : Phase) :
    Ensures (runPhase settings bar loop phase)
      (fun loop' => BookSteps settings.executor loop.books loop'.books) := by
  obtain ⟨loop', h⟩ := runPhase_returns settings hlev bar loop phase
  exact ⟨loop', h, runPhase_steps_of_ok settings h⟩

end Phases

/-! ## §3 Invariants of whole runs -/

/-- A property that every move keeps is kept by any number of moves. -/
theorem BookSteps.invariant {executor : PositionExecutor} {J : Books → Prop}
    (hstep : ∀ books books', BookStep executor books books' → J books → J books')
    {books books' : Books} (h : BookSteps executor books books') (hJ : J books) :
    J books' := by
  induction h with
  | refl => exact hJ
  | tail _ hlast ih => exact hstep _ _ hlast ih

theorem PricedSteps.invariant {executor : PositionExecutor} {J : Books → Prop}
    (hstep : ∀ books books', PricedStep executor books books' → J books → J books')
    {books books' : Books} (h : PricedSteps executor books books') (hJ : J books) :
    J books' := by
  induction h with
  | refl => exact hJ
  | tail _ hlast ih => exact hstep _ _ hlast ih

section Runs

variable {σ : Type} {settings : RunSettings σ} {I : Loop σ → Prop}

/-- A property of the loop that the head of an iteration, a warmup bar and
every phase keep holds after every iteration. -/
theorem ensures_iteration (hbegin : ∀ bar loop, I loop → I (beginBar bar loop))
    (hwarmup : ∀ bar loop, I loop → I (updateWarmupState settings bar loop))
    (hphase : ∀ bar loop phase, I loop → Ensures (runPhase settings bar loop phase) I)
    (loop : Loop σ) (barAt : Bar × ℕ) (h : I loop) :
    Ensures (iteration settings loop barAt) I := by
  unfold iteration
  simp only
  split
  · exact Ensures.pure (hwarmup _ _ (hbegin _ _ h))
  · exact Ensures.foldlM (fun loop phase _ => hphase barAt.1 loop phase) (hbegin _ _ h)

/-- A property of the books that every move keeps holds after every
iteration. -/
theorem ensures_afterBars {J : Books → Prop}
    (hlev : 0 < settings.executor.config.leverageMultiplier)
    (hstep : ∀ books books', BookStep settings.executor books books' →
      J books → J books')
    {initialCash : ℚ} (hinit : J (settings.executor.setupFullMargin initialCash))
    (memory : σ) (bars : List Bar) (k : ℕ) :
    Ensures (afterBars settings memory initialCash bars k) (fun loop => J loop.books) := by
  have hphase : ∀ bar (loop : Loop σ) phase, J loop.books →
      Ensures (runPhase settings bar loop phase) (fun loop' => J loop'.books) := by
    intro bar loop phase hJ
    refine (runPhase_steps settings hlev bar loop phase).mono ?_
    exact fun loop' hsteps => BookSteps.invariant hstep hsteps hJ
  exact Ensures.foldlM_take
    (fun loop barAt _ => ensures_iteration (I := fun loop : Loop σ => J loop.books)
      (fun _ _ h => h) (fun _ _ h => h) hphase loop barAt) hinit k

/-- … and after any number of phases of an iteration. -/
theorem ensures_duringBar {J : Books → Prop}
    (hlev : 0 < settings.executor.config.leverageMultiplier)
    (hstep : ∀ books books', BookStep settings.executor books books' →
      J books → J books')
    {initialCash : ℚ} (hinit : J (settings.executor.setupFullMargin initialCash))
    (memory : σ) (bars : List Bar) (k : ℕ) (bar : Bar) (j : ℕ) :
    Ensures (duringBar settings memory initialCash bars k bar j)
      (fun loop => J loop.books) := by
  refine Ensures.bind (ensures_afterBars hlev hstep hinit memory bars k) ?_
  intro loop hJ
  have hJ' : J (beginBar bar loop).books := hJ
  refine Ensures.foldlM_take (I := fun loop : Loop σ => J loop.books) ?_ hJ' j
  intro loop phase _ hJ
  refine (runPhase_steps settings hlev bar loop phase).mono ?_
  exact fun loop' hsteps => BookSteps.invariant hstep hsteps hJ

/-- With a positive leverage multiplier every prefix of a run returns. -/
theorem afterBars_returns (hlev : 0 < settings.executor.config.leverageMultiplier)
    (memory : σ) (initialCash : ℚ) (bars : List Bar) (k : ℕ) :
    ∃ loop, afterBars settings memory initialCash bars k = .ok loop := by
  obtain ⟨loop, hloop, -⟩ := ensures_afterBars (J := fun _ => True) hlev
    (fun _ _ _ h => h) trivial memory bars k
  exact ⟨loop, hloop⟩

/-- A property of the books that every priced move keeps, in a run that may
raise. -/
theorem yields_iteration {J : Books → Prop}
    (hstep : ∀ books books', PricedStep settings.executor books books' →
      J books → J books') {loop : Loop σ} (barAt : Bar × ℕ) (h : J loop.books) :
    Yields (iteration settings loop barAt) (fun loop => J loop.books) := by
  unfold iteration
  simp only
  split
  · exact Yields.pure h
  · refine Yields.foldlM (I := fun loop : Loop σ => J loop.books) ?_ h
    intro loop phase _ hJ loop' hloop'
    exact PricedSteps.invariant hstep (runPhase_pricedSteps settings hloop') hJ

theorem yields_afterBars {J : Books → Prop}
    (hstep : ∀ books books', PricedStep settings.executor books books' →
      J books → J books')
    {initialCash : ℚ} (hinit : J (settings.executor.setupFullMargin initialCash))
    (memory : σ) (bars : List Bar) (k : ℕ) :
    Yields (afterBars settings memory initialCash bars k) (fun loop => J loop.books) :=
  Yields.foldlM (fun _ barAt _ h => yields_iteration hstep barAt h) hinit

theorem yields_duringBar {J : Books → Prop}
    (hstep : ∀ books books', PricedStep settings.executor books books' →
      J books → J books')
    {initialCash : ℚ} (hinit : J (settings.executor.setupFullMargin initialCash))
    (memory : σ) (bars : List Bar) (k : ℕ) (bar : Bar) (j : ℕ) :
    Yields (duringBar settings memory initialCash bars k bar j)
      (fun loop => J loop.books) := by
  refine Yields.bind (yields_afterBars hstep hinit memory bars k) fun loop hJ => ?_
  refine Yields.foldlM (I := fun loop : Loop σ => J loop.books) ?_ hJ
  intro loop phase _ hJ loop' hloop'
  exact PricedSteps.invariant hstep (runPhase_pricedSteps settings hloop') hJ

theorem yields_runLoop {J : Books → Prop}
    (hstep : ∀ books books', PricedStep settings.executor books books' →
      J books → J books')
    {initialCash : ℚ} (hinit : J (settings.executor.setupFullMargin initialCash))
    (memory : σ) (bars : List Bar) :
    Yields (runLoop settings memory initialCash bars) J := by
  refine Yields.bind (yields_afterBars hstep hinit memory bars _) fun loop hJ => ?_
  exact Yields.pure (PricedSteps.invariant hstep (liquidateOpen_steps ..) hJ)

/-- A run ends with the closing liquidation of the books after its bars. -/
theorem runLoop_eq_ok_iff {memory : σ} {initialCash : ℚ} {bars : List Bar} {books : Books} :
    runLoop settings memory initialCash bars = .ok books ↔
      ∃ loop, afterBars settings memory initialCash bars bars.length = .ok loop ∧
        books = settings.executor.liquidateOpen loop.books loop.finalClose loop.finalDate := by
  unfold runLoop
  rw [bind_eq_ok]
  exact exists_congr fun loop => and_congr_right fun _ =>
    ⟨fun h => (Except.ok.inj h).symm, fun h => congrArg Except.ok h.symm⟩

/-- The books of a run whose loop is given. -/
theorem books_of_runLoop {memory : σ} {initialCash : ℚ} {bars : List Bar} {loop : Loop σ}
    {books : Books} (hloop : afterBars settings memory initialCash bars bars.length = .ok loop)
    (h : runLoop settings memory initialCash bars = .ok books) :
    books = settings.executor.liquidateOpen loop.books loop.finalClose loop.finalDate := by
  obtain ⟨loop', hloop', hbooks⟩ := runLoop_eq_ok_iff.mp h
  obtain rfl := Except.ok.inj (hloop.symm.trans hloop')
  exact hbooks

/-- The loop after `k + 1` iterations is one iteration from the loop after
`k`. -/
theorem afterBars_succ (settings : RunSettings σ) (memory : σ) (initialCash : ℚ)
    {bars : List Bar} {k : ℕ} {bar : Bar} (hbar : bars[k]? = some bar) :
    afterBars settings memory initialCash bars (k + 1)
      = afterBars settings memory initialCash bars k
          >>= fun loop => iteration settings loop (bar, k) := by
  have hzip : bars.zipIdx[k]? = some (bar, k) := by
    rw [List.getElem?_zipIdx, hbar, Nat.zero_add]
    rfl
  exact foldlM_take_succ (iteration settings) hzip _

/-- A tradable iteration that returns, cut after its exit check. -/
theorem iteration_split {loop after : Loop σ} {bar : Bar} {k : ℕ}
    (hk : settings.firstTradableIndex ≤ k)
    (h : iteration settings loop (bar, k) = .ok after) :
    ∃ pending exited,
      runPhase settings bar (beginBar bar loop) .executePending = .ok pending ∧
      runPhase settings bar pending .checkExitConditions = .ok exited ∧
      (Phase.all.drop 2).foldlM (runPhase settings bar) exited = .ok after := by
  unfold iteration at h
  simp only at h
  rw [if_neg (not_lt.mpr hk)] at h
  have hsplit : Phase.all = .executePending :: .checkExitConditions :: Phase.all.drop 2 :=
    rfl
  rw [hsplit, List.foldlM_cons, bind_eq_ok] at h
  obtain ⟨pending, hpending, h⟩ := h
  rw [List.foldlM_cons, bind_eq_ok] at h
  obtain ⟨exited, hexited, h⟩ := h
  exact ⟨pending, exited, hpending, hexited, h⟩

/-- The loop when iteration `k` has executed what was pending. -/
theorem duringBar_one {memory : σ} {initialCash : ℚ} {bars : List Bar} {k : ℕ} {bar : Bar}
    {loop : Loop σ} (hloop : afterBars settings memory initialCash bars k = .ok loop) :
    duringBar settings memory initialCash bars k bar 1
      = runPhase settings bar (beginBar bar loop) .executePending := by
  unfold duringBar
  rw [hloop]
  exact bind_pure (runPhase settings bar (beginBar bar loop) .executePending)

end Runs

/-! ## §4 A scripted strategy

The strategy that answers with a given sequence of signals, whatever it is
shown, and the data of a small run. -/

/-- The strategy that replays a script of signals, one per bar. -/
def replay : TradingStrategy (List (Option SignalResult)) where
  onReset script := script
  onBar script _ _ := (script.tail, script.head?.join)

/-- A signal to buy ten. -/
def buyTen : SignalResult :=
  { action := .buy, direction := .enter .long, positionSize := 10 }

/-- A signal to sell ten short. -/
def sellTen : SignalResult :=
  { action := .sell, direction := .enter .short, positionSize := 10 }

/-- A signal to leave the position. -/
def leave : SignalResult :=
  { action := .sell, direction := .exit }

/-- A run at three times leverage in full margin mode with funding. -/
def leveragedSettings : RunSettings (List (Option SignalResult)) where
  strategy := replay
  riskPerTrade := 2 / 100
  executor :=
    { config := { leverageMultiplier := 3, marginMode := .full, enableFunding := true }
      fromisoformat := fun _ => none }

/-- A run at three times leverage without funding. -/
def unfundedSettings : RunSettings (List (Option SignalResult)) where
  strategy := replay
  riskPerTrade := 2 / 100
  executor := { config := { leverageMultiplier := 3 }, fromisoformat := fun _ => none }

/-- A bar that opens and closes at 100. -/
def quietBar (date : String) : Bar where
  openPrice := 100
  high := 101
  low := 99
  close := 100
  date := date
  low_pos := by norm_num
  low_le_open := by norm_num
  open_le_high := by norm_num
  low_le_close := by norm_num
  close_le_high := by norm_num

/-- Three quiet bars. -/
def quietBars : List Bar :=
  [quietBar "2024-01-01", quietBar "2024-01-02", quietBar "2024-01-03"]

end Finbar.Backtest
