/-
Finbar.Backtest.MarginModeTheorems — without funding, full margin mode is
simplified mode with a second copy of the cash.

Only `setup_full_margin` reads the margin mode; afterwards the modes differ
in whether the books carry a margin account. `forgetMargin` drops it. A
phase of the full run, seen through `forgetMargin`, is the same phase of the
simplified run, provided the account mirrors the cash and the margin call
stays quiet; it does, because `check_exit_conditions` has already taken any
position whose liquidation price the bar reached, and a bar's close lies in
its range.

No `sorry`, no `axiom`.
-/
import Finbar.Backtest.CashTheorems

namespace Finbar.Backtest

open Lib.Python Lib.Run Finbar.Simulation

variable {σ : Type}

/-! ## §1 The two modes -/

/-- An executor in a given margin mode. -/
def withMode (executor : PositionExecutor) (mode : MarginMode) : PositionExecutor :=
  { executor with config := { executor.config with marginMode := mode } }

/-- The same run in a given margin mode. -/
def RunSettings.withMarginMode (settings : RunSettings σ) (mode : MarginMode) :
    RunSettings σ :=
  { settings with executor := withMode settings.executor mode }

/-- The loop without its margin account. -/
def forgetMargin (loop : Loop σ) : Loop σ :=
  { loop with books := { loop.books with margin := none } }

theorem enter_withMode (executor : PositionExecutor) (mode : MarginMode) :
    (withMode executor mode).enter = executor.enter := rfl

theorem executePending_withMode (executor : PositionExecutor) (mode : MarginMode) :
    executePending (withMode executor mode) = executePending executor := by
  funext books price date
  unfold executePending
  rw [enter_withMode]
  rfl

/-- No phase reads the margin mode. -/
theorem runPhase_withMarginMode (settings : RunSettings σ) (mode : MarginMode) :
    runPhase (settings.withMarginMode mode) = runPhase settings := by
  funext bar loop phase
  cases phase with
  | executePending =>
      simp only [runPhase, RunSettings.withMarginMode, executePending_withMode]
  | checkExitConditions => rfl
  | checkMarginCall => rfl
  | applyFunding => rfl
  | processSignal => rfl
  | trackEquity => rfl
  | syncMarginEquity => rfl

/-- An iteration does not read the margin mode. -/
theorem iteration_withMarginMode (settings : RunSettings σ) (mode : MarginMode) :
    iteration (settings.withMarginMode mode) = iteration settings := by
  funext loop barAt
  unfold iteration
  rw [runPhase_withMarginMode]
  rfl

/-! ## §2 The margin call stays quiet -/

/-- No margin call at `close`. -/
def QuietAt (config : ExecutionConfig) (close : ℚ) (books : Books) : Prop :=
  MarginAccountManager.checkMarginCall config books.state.position close = false

/-- A position that the bar's range did not liquidate is not called at a
price inside the range. -/
theorem checkMarginCall_of_not_liquidated {config : ExecutionConfig}
    {position : SimulatedPosition} {high low close : ℚ} (hlow : low ≤ close)
    (hhigh : close ≤ high)
    (h : PositionCloser.checkLiquidation config position high low = none) :
    MarginAccountManager.checkMarginCall config position close = false := by
  unfold PositionCloser.checkLiquidation at h
  unfold MarginAccountManager.checkMarginCall
  split at h
  · rename_i hspot
    rw [LeverageConfig.isSpot_iff, ExecutionConfig.leverage_multiplier] at hspot
    rw [if_pos hspot.symm]
  · split at h
    · cases h
    · rename_i hlong
      split at h
      · cases h
      · rename_i hshort
        split
        · rfl
        · split
          · rfl
          · have hlong' : ¬ (0 < position.size ∧ close ≤ position.liquidationPrice) :=
              fun hc => hlong ⟨hc.1, hlow.trans hc.2⟩
            have hshort' : ¬ (position.size < 0 ∧ position.liquidationPrice ≤ close) :=
              fun hc => hshort ⟨hc.1, hc.2.trans hhigh⟩
            simp only [← Bool.decide_and, ← Bool.decide_or, decide_eq_false_iff_not]
            rintro ⟨-, hc | hc⟩
            · exact hlong' hc
            · exact hshort' hc

theorem checkMarginCall_flat (config : ExecutionConfig) (close : ℚ) :
    MarginAccountManager.checkMarginCall config .flat close = false := by
  unfold MarginAccountManager.checkMarginCall
  rw [if_pos (.inl rfl)]

/-- **After `check_exit_conditions` no margin call fires** at a price inside
the bar's range. -/
theorem checkExitConditions_quiet (executor : PositionExecutor) (books : Books)
    {openPrice high low close : ℚ} (hlow : low ≤ close) (hhigh : close ≤ high)
    (date : String) :
    QuietAt executor.config close
      (executor.checkExitConditions books openPrice high low date) := by
  unfold QuietAt PositionExecutor.checkExitConditions
  simp only
  split
  · rename_i hforced
    unfold PositionExecutor.forcedExit at hforced
    split at hforced
    · cases hforced
    · rename_i hliq
      exact checkMarginCall_of_not_liquidated hlow hhigh hliq
  · exact checkMarginCall_flat executor.config close

/-! ## §3 Phase by phase -/

/-- Funding that is switched off leaves mirrored books alone. -/
theorem applyFunding_disabled {executor : PositionExecutor}
    (hfunding : executor.config.enableFunding = false) {books : Books}
    (hm : Mirrored books) : executor.applyFunding books = books := by
  have hsync := syncMarginEquity_of_mirrored hm
  unfold PositionExecutor.applyFunding
  cases hmargin : books.margin with
  | none => rfl
  | some account =>
      have hpaid : MarginAccountManager.applyFunding executor.config account
          books.state.position = (account, 0) := by
        unfold MarginAccountManager.applyFunding
        rw [if_pos (.inl hfunding)]
      simp only [hpaid, ne_eq, not_true_eq_false, if_false]
      rw [← hmargin]
      exact hsync

theorem exitPosition_forget (executor : PositionExecutor) (books : Books) (price : ℚ)
    (date : String) (reason : ExitReason) :
    executor.exitPosition { books with margin := none } price date reason
      = { executor.exitPosition books price date reason with margin := none } := rfl

theorem executePendingExit_forget (executor : PositionExecutor) (books : Books)
    (price : ℚ) (date : String) :
    executePendingExit executor { books with margin := none } price date
      = { executePendingExit executor books price date with margin := none } := by
  by_cases h : books.state.pendingExit.isSome ∧ books.state.position.size ≠ 0
  · have hleft : executePendingExit executor { books with margin := none } price date = _ :=
      if_pos h
    have hright : executePendingExit executor books price date = _ := if_pos h
    rw [hleft, hright]
    rfl
  · have hleft : executePendingExit executor { books with margin := none } price date = _ :=
      if_neg h
    have hright : executePendingExit executor books price date = _ := if_neg h
    rw [hleft, hright]

/-- Opening a position does the same to the books whether or not they carry
a margin account. -/
theorem open_forget (config : ExecutionConfig) (books : Books) (entry : PendingEntry)
    (size : ℚ) (hsize : 0 < size) (rawPrice fillPrice : ℚ) (date : String) :
    PositionOpener.open config { books with margin := none } entry size hsize rawPrice
        fillPrice date
      = (PositionOpener.open config books entry size hsize rawPrice fillPrice date).map
          fun books => { books with margin := none } := by
  unfold PositionOpener.open
  cases config.leverage.marginRequired (size * fillPrice) with
  | error e => rfl
  | ok margin => rfl

theorem enter_forget (executor : PositionExecutor) (books : Books) (entry : PendingEntry)
    (price : ℚ) (date : String) :
    executor.enter { books with margin := none } entry price date
      = (executor.enter books entry price date).map
          fun books => { books with margin := none } := by
  unfold PositionExecutor.enter
  simp only
  split
  · rfl
  · generalize PositionSizer.resolve executor.config books.state _ _ _ date = sized
    obtain ⟨state, size⟩ := sized
    simp only
    split
    · rfl
    · exact open_forget executor.config { books with state := state } _ _ _ _ _ _

theorem executePending_forget (executor : PositionExecutor) (books : Books) (price : ℚ)
    (date : String) :
    executePending executor { books with margin := none } price date
      = (executePending executor books price date).map
          fun books => { books with margin := none } := by
  unfold executePending
  rw [executePendingExit_forget]
  generalize executePendingExit executor books price date = after
  obtain ⟨state, margin, log⟩ := after
  simp only
  cases state.pendingEntry with
  | none => rfl
  | some entry =>
      by_cases hopen : state.position.size ≠ 0
      · simp only [if_pos hopen]
        rfl
      · simp only [if_neg hopen]
        exact enter_forget executor
          { state := { state with pendingEntry := none }, margin := margin, exitLog := log }
          entry price date

theorem checkExitConditions_forget (executor : PositionExecutor) (books : Books)
    (openPrice high low : ℚ) (date : String) :
    executor.checkExitConditions { books with margin := none } openPrice high low date
      = { executor.checkExitConditions books openPrice high low date with
          margin := none } := by
  unfold PositionExecutor.checkExitConditions
  simp only
  split
  · rfl
  · rfl

theorem processSignal_forget (settings : RunSettings σ) (bar : Bar) (loop : Loop σ) :
    processSignal settings bar (forgetMargin loop)
      = forgetMargin (processSignal settings bar loop) := by
  unfold processSignal forgetMargin
  simp only
  split
  · rfl
  · rfl

/-- Quiet books are left alone by the margin call. -/
theorem checkMarginCall_quiet {executor : PositionExecutor} {books : Books} {close : ℚ}
    (hquiet : QuietAt executor.config close books) :
    executor.checkMarginCall books close = books := by
  unfold PositionExecutor.checkMarginCall
  split
  · rfl
  · rw [if_neg (by rw [hquiet]; exact Bool.false_ne_true)]

variable (settings : RunSettings σ)

/-- **One phase, with and without the margin account.** On mirrored books on
which no margin call fires, and with funding off, a phase commutes with
dropping the account. -/
theorem runPhase_forget (hfunding : settings.executor.config.enableFunding = false)
    (bar : Bar) (loop : Loop σ) (phase : Phase) (hm : Mirrored loop.books)
    (hquiet : phase = .checkMarginCall →
      QuietAt settings.executor.config bar.close loop.books) :
    runPhase settings bar (forgetMargin loop) phase
      = (runPhase settings bar loop phase).map forgetMargin := by
  cases phase with
  | executePending =>
      have h := executePending_forget settings.executor loop.books bar.openPrice bar.date
      simp only [runPhase, forgetMargin, h]
      cases executePending settings.executor loop.books bar.openPrice bar.date <;> rfl
  | checkExitConditions =>
      have h := checkExitConditions_forget settings.executor loop.books bar.openPrice
        bar.high bar.low bar.date
      simp only [runPhase, forgetMargin, h]
      rfl
  | checkMarginCall =>
      have h := checkMarginCall_quiet (hquiet rfl)
      simp only [runPhase, h]
      rfl
  | applyFunding =>
      have h := applyFunding_disabled hfunding hm
      simp only [runPhase, h]
      rfl
  | processSignal =>
      simp only [runPhase, processSignal_forget]
      rfl
  | trackEquity => rfl
  | syncMarginEquity =>
      have h := syncMarginEquity_of_mirrored hm
      simp only [runPhase, h]
      rfl

/-! ## §4 The simulation -/

/-- A loop of the full run and the loop of the simplified run it stands
for. -/
def SameRun (full simplified : Loop σ) : Prop :=
  Mirrored full.books ∧ simplified = forgetMargin full

/-- A phase keeps the two runs the same, and takes the quietness of the
books along. -/
theorem runPhase_lockstep (hlev : 0 < settings.executor.config.leverageMultiplier)
    (hfunding : settings.executor.config.enableFunding = false) (bar : Bar)
    {full simplified : Loop σ} (phase : Phase) (h : SameRun full simplified)
    (hquiet : phase = .checkMarginCall →
      QuietAt settings.executor.config bar.close full.books) :
    Lockstep (runPhase settings bar full phase) (runPhase settings bar simplified phase)
      (fun full' simplified' => SameRun full' simplified' ∧
        runPhase settings bar full phase = .ok full') := by
  obtain ⟨hm, rfl⟩ := h
  obtain ⟨full', hfull', hsteps⟩ := runPhase_steps settings hlev bar full phase
  have hm' : Mirrored full'.books :=
    BookSteps.invariant (fun _ _ hstep hm => (bookStep_ledger hstep hm).1) hsteps hm
  refine ⟨full', forgetMargin full', hfull', ?_, ⟨hm', rfl⟩, hfull'⟩
  rw [runPhase_forget settings hfunding bar full phase hm hquiet, hfull']
  rfl

/-- The phases other than the margin call need no quietness. -/
theorem runPhases_lockstep (hlev : 0 < settings.executor.config.leverageMultiplier)
    (hfunding : settings.executor.config.enableFunding = false) (bar : Bar)
    {full simplified : Loop σ} (phases : List Phase)
    (hphases : Phase.checkMarginCall ∉ phases) (h : SameRun full simplified) :
    Lockstep (phases.foldlM (runPhase settings bar) full)
      (phases.foldlM (runPhase settings bar) simplified) SameRun := by
  refine Lockstep.foldlM (fun s t phase hmem hst => ?_) h
  refine (runPhase_lockstep settings hlev hfunding bar phase hst ?_).mono
    (fun _ _ hr => hr.1)
  intro hcall
  exact absurd (hcall ▸ hmem) hphases

theorem tradableBar_lockstep (hlev : 0 < settings.executor.config.leverageMultiplier)
    (hfunding : settings.executor.config.enableFunding = false) (bar : Bar)
    {full simplified : Loop σ} (h : SameRun full simplified) :
    Lockstep (Phase.all.foldlM (runPhase settings bar) full)
      (Phase.all.foldlM (runPhase settings bar) simplified) SameRun := by
  have hsplit : Phase.all = [.executePending] ++ (.checkExitConditions ::
      .checkMarginCall :: [.applyFunding, .processSignal, .trackEquity,
        .syncMarginEquity]) := rfl
  rw [hsplit, List.foldlM_append, List.foldlM_append]
  refine Lockstep.bind
    (runPhases_lockstep settings hlev hfunding bar _ (by decide) h) ?_
  intro full simplified h
  rw [List.foldlM_cons, List.foldlM_cons]
  refine Lockstep.bind
    (runPhase_lockstep settings hlev hfunding bar _ h (fun hc => nomatch hc)) ?_
  rintro full' simplified' ⟨h', hrun⟩
  -- The exits have been taken: the margin call is quiet at the bar's close.
  have hquiet : QuietAt settings.executor.config bar.close full'.books := by
    simp only [runPhase, Except.ok.injEq] at hrun
    rw [← hrun]
    exact checkExitConditions_quiet settings.executor full.books bar.low_le_close
      bar.close_le_high bar.date
  rw [List.foldlM_cons, List.foldlM_cons]
  refine Lockstep.bind
    (runPhase_lockstep settings hlev hfunding bar _ h' (fun _ => hquiet)) ?_
  intro full'' simplified'' h''
  exact runPhases_lockstep settings hlev hfunding bar _ (by decide) h''.1

theorem iteration_lockstep (hlev : 0 < settings.executor.config.leverageMultiplier)
    (hfunding : settings.executor.config.enableFunding = false) (barAt : Bar × ℕ)
    {full simplified : Loop σ} (h : SameRun full simplified) :
    Lockstep (iteration settings full barAt) (iteration settings simplified barAt)
      SameRun := by
  obtain ⟨hm, rfl⟩ := h
  unfold iteration
  simp only
  split
  · exact Lockstep.pure ⟨hm, rfl⟩
  · exact tradableBar_lockstep settings hlev hfunding barAt.1 ⟨hm, rfl⟩

theorem afterBars_lockstep (hlev : 0 < settings.executor.config.leverageMultiplier)
    (hfunding : settings.executor.config.enableFunding = false) (memory : σ)
    (initialCash : ℚ) (bars : List Bar) (k : ℕ) :
    Lockstep (afterBars (settings.withMarginMode .full) memory initialCash bars k)
      (afterBars (settings.withMarginMode .simplified) memory initialCash bars k)
      SameRun := by
  unfold afterBars
  rw [iteration_withMarginMode, iteration_withMarginMode]
  refine Lockstep.foldlM
    (fun _ _ barAt _ hst => iteration_lockstep settings hlev hfunding barAt hst) ?_
  refine ⟨?_, rfl⟩
  exact (setupFullMargin_accounted (settings.withMarginMode .full).executor
    initialCash).mirrored

theorem liquidateOpen_forget (executor : PositionExecutor) (books : Books)
    (finalClose : ℚ) (finalDate : String) :
    executor.liquidateOpen { books with margin := none } finalClose finalDate
      = { executor.liquidateOpen books finalClose finalDate with margin := none } := by
  unfold PositionExecutor.liquidateOpen
  simp only
  split
  · rfl
  · rw [exitPosition_forget]
    dsimp only
    split
    · rfl
    · rfl

/-- No move opens or drops the margin account. -/
theorem bookStep_isSome_margin {executor : PositionExecutor} {books books' : Books}
    (h : BookStep executor books books') : books'.margin.isSome = books.margin.isSome := by
  cases h with
  | exit price date reason hopen => exact Option.isSome_map
  | enter entry size hsize rawPrice fillPrice date hflat hstop => exact Option.isSome_map
  | fund =>
      unfold PositionExecutor.applyFunding
      cases hmargin : books.margin with
      | none => exact congrArg Option.isSome hmargin
      | some account => rfl
  | sync =>
      unfold PositionExecutor.syncMarginEquity
      cases hmargin : books.margin with
      | none => exact congrArg Option.isSome hmargin
      | some account => rfl
  | keep state hsame => rfl

/-- The full run's account exists and mirrors the state's cash, at every
point of every iteration. -/
theorem duringBar_mirrored (hlev : 0 < settings.executor.config.leverageMultiplier)
    (memory : σ) (initialCash : ℚ) (bars : List Bar) (k : ℕ) (bar : Bar) (j : ℕ) :
    Ensures (duringBar (settings.withMarginMode .full) memory initialCash bars k bar j)
      (fun loop => Mirrored loop.books ∧ loop.books.margin.isSome = true) := by
  refine ensures_duringBar (J := fun books => Mirrored books ∧ books.margin.isSome = true)
    (show 0 < (settings.withMarginMode .full).executor.config.leverageMultiplier from hlev)
    ?_ ?_ memory bars k bar j
  · intro books books' hstep h
    exact ⟨(bookStep_ledger hstep h.1).1, (bookStep_isSome_margin hstep).trans h.2⟩
  · exact ⟨(setupFullMargin_accounted _ initialCash).mirrored, rfl⟩

/-- **Full margin mode without funding is simplified mode.** With a positive
leverage multiplier and funding off, whatever the strategy does: after every
iteration and at the end the two runs have the same simulation state (cash,
trades, equity curve, diagnostics and every other field); and after every
phase of every iteration of the full run the margin account's cash is the
state's, so the synchronisation changes nothing. -/
theorem full_margin_eq_simplified (memory : σ) (initialCash : ℚ) (bars : List Bar)
    (hlev : 0 < settings.executor.config.leverageMultiplier)
    (hfunding : settings.executor.config.enableFunding = false) :
    (∀ k, ∃ full simplified,
      afterBars (settings.withMarginMode .full) memory initialCash bars k = .ok full ∧
      afterBars (settings.withMarginMode .simplified) memory initialCash bars k
        = .ok simplified ∧
      full.books.state = simplified.books.state ∧ full.memory = simplified.memory) ∧
    (∃ full simplified,
      runLoop (settings.withMarginMode .full) memory initialCash bars = .ok full ∧
      runLoop (settings.withMarginMode .simplified) memory initialCash bars
        = .ok simplified ∧
      full.state = simplified.state ∧ full.exitLog = simplified.exitLog) ∧
    ∀ k bar j, ∃ loop account,
      duringBar (settings.withMarginMode .full) memory initialCash bars k bar j = .ok loop ∧
      loop.books.margin = some account ∧ account.cash = loop.books.state.cash ∧
      PositionExecutor.syncMarginEquity loop.books = loop.books := by
  refine ⟨fun k => ?_, ?_, fun k bar j => ?_⟩
  · obtain ⟨full, simplified, hfull, hsimplified, -, rfl⟩ :=
      afterBars_lockstep settings hlev hfunding memory initialCash bars k
    exact ⟨full, _, hfull, hsimplified, rfl, rfl⟩
  · obtain ⟨full, simplified, hfull, hsimplified, -, rfl⟩ :=
      afterBars_lockstep settings hlev hfunding memory initialCash bars bars.length
    refine ⟨settings.executor.liquidateOpen full.books full.finalClose full.finalDate,
      settings.executor.liquidateOpen (forgetMargin full).books full.finalClose
        full.finalDate, ?_, ?_, ?_⟩
    · exact runLoop_eq_ok_iff.mpr ⟨full, hfull, rfl⟩
    · exact runLoop_eq_ok_iff.mpr ⟨forgetMargin full, hsimplified, rfl⟩
    · rw [forgetMargin, liquidateOpen_forget]
      exact ⟨rfl, rfl⟩
  · obtain ⟨loop, hloop, hm, hsome⟩ :=
      duringBar_mirrored settings hlev memory initialCash bars k bar j
    obtain ⟨account, haccount⟩ := Option.isSome_iff_exists.mp hsome
    exact ⟨loop, account, hloop, haccount, hm account haccount,
      syncMarginEquity_of_mirrored hm⟩

/-- The two modes on a leveraged run without funding. -/
theorem full_margin_eq_simplified_leveraged :
    (∀ k, ∃ full simplified,
      afterBars (unfundedSettings.withMarginMode .full) [some buyTen] 1000 quietBars k
        = .ok full ∧
      afterBars (unfundedSettings.withMarginMode .simplified) [some buyTen] 1000 quietBars k
        = .ok simplified ∧
      full.books.state = simplified.books.state ∧ full.memory = simplified.memory) ∧
    (∃ full simplified,
      runLoop (unfundedSettings.withMarginMode .full) [some buyTen] 1000 quietBars
        = .ok full ∧
      runLoop (unfundedSettings.withMarginMode .simplified) [some buyTen] 1000 quietBars
        = .ok simplified ∧
      full.state = simplified.state ∧ full.exitLog = simplified.exitLog) ∧
    ∀ k bar j, ∃ loop account,
      duringBar (unfundedSettings.withMarginMode .full) [some buyTen] 1000 quietBars k bar j
        = .ok loop ∧
      loop.books.margin = some account ∧ account.cash = loop.books.state.cash ∧
      PositionExecutor.syncMarginEquity loop.books = loop.books :=
  full_margin_eq_simplified unfundedSettings [some buyTen] 1000 quietBars
    (by decide +kernel) rfl

end Finbar.Backtest
