/-
Finbar.Backtest.CashTheorems — the cash of a run is accounted for.

The books are read as a `Lib.Ledger` (`ledgerOf`): realised is the sum of
the closed trades' net PnL, paid the funding, the open flow what entering
the open position moved. Every move of the books is a sequence of ledger
movements (`bookStep_ledger`), so the accounting identity of the ledger
holds after every iteration. In full margin mode the account's cash mirrors
the state's (`Mirrored`); without it the synchronisation hooks would not be
ledger movements.

No `sorry`, no `axiom`.
-/
import Finbar.Backtest.RunTheorems
import Finbar.Backtest.Metrics
import Finbar.Lib.Ledger
import Mathlib.Tactic.Linarith

namespace Finbar.Backtest

open Lib Lib.Python Lib.Run Finbar.Simulation Relation

/-! ## §1 The books as a ledger -/

/-- What entering the open position moved in cash. -/
def entryFlow (position : SimulatedPosition) : ℚ :=
  match position.direction with
  | none => 0
  | some .long => -(position.size * position.entryPrice + position.entryCommission)
  | some .short => |position.size| * position.entryPrice - position.entryCommission

@[simp] theorem entryFlow_flat : entryFlow .flat = 0 := rfl

@[simp] theorem entryFlow_hold (position : SimulatedPosition) :
    entryFlow position.hold = entryFlow position := rfl

/-- A position of size zero moved nothing. -/
theorem entryFlow_of_size_zero {position : SimulatedPosition} (h : position.size = 0) :
    entryFlow position = 0 := by
  have haligned := position.aligned
  unfold entryFlow
  cases hd : position.direction with
  | none => rfl
  | some side =>
      rw [hd, h] at haligned
      cases side with
      | long => exact absurd haligned (lt_irrefl 0)
      | short => exact absurd haligned (lt_irrefl 0)

/-- The sum of the unrounded net PnL of the closed trades. -/
def realisedPnl (state : SimulationState) : ℚ :=
  (state.trades.map TradeRecord.netPnl).sum

/-- The ledger that a simulation state represents. -/
def ledgerOf (state : SimulationState) : Ledger ℚ :=
  { initial := state.initialCash
    cash := state.cash
    realised := realisedPnl state
    paid := state.totalFunding
    openFlow := entryFlow state.position }

/-- In full margin mode the account's cash is the state's cash. -/
def Mirrored (books : Books) : Prop :=
  ∀ account, books.margin = some account → account.cash = books.state.cash

theorem ledgerOf_sameAccounts {s s' : SimulationState} (h : SameAccounts s s') :
    ledgerOf s' = ledgerOf s := by
  have hflow : entryFlow s'.position = entryFlow s.position := by
    rcases h.position with hp | hp
    · rw [hp]
    · rw [hp, entryFlow_hold]
  unfold ledgerOf realisedPnl
  rw [h.initialCash, h.cash, h.trades, h.totalFunding, hflow]

/-! ## §2 An exit settles the open position -/

/-- A long pays no borrow. -/
theorem borrowCost_long (config : ExecutionConfig) (fromisoformat : String → Option DateTime)
    (absSize entryPrice : ℚ) (entryDate exitDate : String) :
    PositionCloser.borrowCost config fromisoformat absSize entryPrice (some .long) entryDate
      exitDate = 0 := by
  unfold PositionCloser.borrowCost
  rw [if_pos (.inl (by decide))]

/-- The net PnL of a closed trade is what the position moved at entry and
what it moves at exit. -/
theorem netPnl_eq_flows (config : ExecutionConfig)
    (fromisoformat : String → Option DateTime) (position : SimulatedPosition)
    (exitPrice : ℚ) (date : String) (reason : ExitReason)
    (hopen : position.size ≠ 0) :
    let trade :=
      PositionCloser.buildTrade config fromisoformat position exitPrice date reason
    trade.netPnl = entryFlow position
      + PositionCloser.cashSettlement position.size
          (|position.size| * PositionCloser.exitFill config position exitPrice)
          trade.exitCommission trade.borrowCost := by
  have haligned := position.aligned
  simp only [PositionCloser.buildTrade, PositionCloser.calcPnl,
    PositionCloser.cashSettlement, entryFlow]
  cases hd : position.direction with
  | none => rw [hd] at haligned; exact absurd haligned hopen
  | some side =>
      rw [hd] at haligned
      cases side with
      | long =>
          have hlong : 0 < position.size := haligned
          rw [if_pos hlong, if_pos hlong, borrowCost_long, abs_of_pos hlong]
          ring
      | short =>
          have hshort : ¬ 0 < position.size := not_lt.mpr (le_of_lt haligned)
          rw [if_neg hshort, if_neg hshort]
          ring

/-- Closing the open position is one settlement of the ledger. -/
theorem ledgerOf_exitPosition (executor : PositionExecutor) (books : Books) (price : ℚ)
    (date : String) (reason : ExitReason) (hopen : books.state.position.size ≠ 0) :
    ∃ receipt, ledgerOf (executor.exitPosition books price date reason).state
      = (ledgerOf books.state).apply (.settle receipt) := by
  have hpnl := netPnl_eq_flows executor.config executor.fromisoformat books.state.position
    price date reason hopen
  let position := books.state.position
  let trade := PositionCloser.buildTrade executor.config executor.fromisoformat position
    price date reason
  refine ⟨PositionCloser.cashSettlement position.size
    (|position.size| * PositionCloser.exitFill executor.config position price)
    trade.exitCommission trade.borrowCost, ?_⟩
  unfold PositionExecutor.exitPosition PositionCloser.close ledgerOf realisedPnl
  simp only [Ledger.apply, List.map_append, List.map_cons, List.map_nil, List.sum_append,
    List.sum_cons, List.sum_nil, add_zero, entryFlow_flat]
  rw [hpnl]

/-- Closing leaves the account with the state's cash. -/
theorem mirrored_exitPosition (executor : PositionExecutor) (books : Books) (price : ℚ)
    (date : String) (reason : ExitReason) :
    Mirrored (executor.exitPosition books price date reason) := by
  intro account h
  unfold PositionExecutor.exitPosition PositionCloser.close at h ⊢
  simp only [Option.map_eq_some_iff] at h ⊢
  obtain ⟨before, -, rfl⟩ := h
  rfl

/-! ## §3 An entry opens the flow -/

theorem entryFlow_openedPosition (config : ExecutionConfig) (entry : PendingEntry)
    {size : ℚ} (hsize : 0 < size) (rawPrice fillPrice : ℚ) (date : String) :
    entryFlow (PositionOpener.openedPosition config entry size hsize rawPrice fillPrice date)
      = PositionOpener.entryCashFlow entry.direction (size * fillPrice)
          (commission (size * fillPrice) config.commissionPct) := by
  simp only [entryFlow, PositionOpener.openedPosition, PositionOpener.entryCashFlow]
  cases entry.direction with
  | long => rfl
  | short =>
      simp only [PositionOpener.signedSize]
      rw [abs_neg, abs_of_pos hsize]

/-- Opening a position from a flat book is one entry of the ledger. -/
theorem ledgerOf_openedBooks (config : ExecutionConfig) (books : Books)
    (entry : PendingEntry) {size : ℚ} (hsize : 0 < size) (rawPrice fillPrice : ℚ)
    (date : String) (margin : ℚ) (hflat : books.state.position.size = 0) :
    ledgerOf (PositionOpener.openedBooks config books entry size hsize rawPrice fillPrice
        date margin).state
      = (ledgerOf books.state).apply (.enter
          (PositionOpener.entryCashFlow entry.direction (size * fillPrice)
            (commission (size * fillPrice) config.commissionPct))) := by
  unfold PositionOpener.openedBooks ledgerOf realisedPnl
  simp only [Ledger.apply]
  rw [entryFlow_openedPosition, entryFlow_of_size_zero hflat, zero_add]

/-- Both branches of the manager's `isclose` test leave the account with the
state's cash, when the account had the cash from before the entry. -/
theorem lockEntryMargin_cash (config : ExecutionConfig) {account : MarginAccount}
    {stateCash cost fee : ℚ} (h : account.cash - (cost + fee) = stateCash) :
    (MarginAccountManager.lockEntryMargin config account stateCash cost fee).cash
      = stateCash := by
  simp only [MarginAccountManager.lockEntryMargin]
  split
  · exact h
  · rfl

theorem creditEntryShort_cash {account : MarginAccount} {stateCash cost fee : ℚ}
    (h : account.cash + (cost - fee) = stateCash) :
    (MarginAccountManager.creditEntryShort account stateCash cost fee).cash
      = stateCash := by
  simp only [MarginAccountManager.creditEntryShort]
  split
  · exact h
  · rfl

theorem mirrorEntry_cash (config : ExecutionConfig) (side : Side) {account : MarginAccount}
    {stateCash : ℚ} (h : account.cash = stateCash) (cost fee : ℚ) :
    (PositionOpener.mirrorEntry config side account
        (stateCash + PositionOpener.entryCashFlow side cost fee) cost fee).cash
      = stateCash + PositionOpener.entryCashFlow side cost fee := by
  cases side with
  | long => exact lockEntryMargin_cash config (by rw [h]; exact sub_eq_add_neg _ _)
  | short => exact creditEntryShort_cash (by rw [h]; rfl)

theorem mirrored_openedBooks (config : ExecutionConfig) {books : Books}
    (hm : Mirrored books) (entry : PendingEntry) {size : ℚ} (hsize : 0 < size)
    (rawPrice fillPrice : ℚ) (date : String) (margin : ℚ) :
    Mirrored (PositionOpener.openedBooks config books entry size hsize rawPrice fillPrice
      date margin) := by
  intro account h
  unfold PositionOpener.openedBooks at h ⊢
  simp only [Option.map_eq_some_iff] at h ⊢
  obtain ⟨before, hbefore, rfl⟩ := h
  exact mirrorEntry_cash config entry.direction (hm before hbefore) _ _

/-! ## §4 Funding and synchronisation -/

/-- A mirrored account synchronises to the cash the state already has. -/
theorem syncMarginEquity_of_mirrored {books : Books} (hm : Mirrored books) :
    PositionExecutor.syncMarginEquity books = books := by
  unfold PositionExecutor.syncMarginEquity
  cases hmargin : books.margin with
  | none => rfl
  | some account =>
      have hcash : account.equity = books.state.cash := hm account hmargin
      obtain ⟨state, margin, log⟩ := books
      simp only at hcash hmargin ⊢
      rw [hcash, hmargin]

/-- The manager's funding takes the payment it reports from the account. -/
theorem managerFunding_cash (config : ExecutionConfig) (account : MarginAccount)
    (position : SimulatedPosition) :
    (MarginAccountManager.applyFunding config account position).1.cash
      = account.cash - (MarginAccountManager.applyFunding config account position).2 := by
  unfold MarginAccountManager.applyFunding
  split
  · simp only [sub_zero]
  · simp only
    split
    · simp only [sub_zero]
    · rfl

/-- Funding is one charge of the ledger, and leaves the account mirrored. -/
theorem ledgerOf_applyFunding (executor : PositionExecutor) {books : Books}
    (hm : Mirrored books) :
    Mirrored (executor.applyFunding books) ∧
      (ledgerOf books.state).Reaches (ledgerOf (executor.applyFunding books).state) := by
  unfold PositionExecutor.applyFunding
  cases hmargin : books.margin with
  | none => exact ⟨hm, Ledger.Reaches.refl _⟩
  | some account =>
      have hcash : account.cash = books.state.cash := hm account hmargin
      have hpaid := managerFunding_cash executor.config account books.state.position
      simp only
      generalize MarginAccountManager.applyFunding executor.config account
        books.state.position = funded at hpaid ⊢
      obtain ⟨account', payment⟩ := funded
      simp only at hpaid
      refine ⟨?_, ⟨[.charge payment], ?_⟩⟩
      · intro account'' h
        simp only [PositionExecutor.syncMarginEquity, Option.some.injEq] at h
        subst h
        rfl
      · simp only [PositionExecutor.syncMarginEquity, MarginAccount.equity, hpaid, hcash,
          Ledger.run_cons, Ledger.run_nil, Ledger.apply]
        by_cases hzero : payment = 0
        · simp [ledgerOf, realisedPnl, hzero]
        · simp [ledgerOf, realisedPnl, hzero]

/-! ## §5 Every move is a ledger movement -/

/-- The state's accounts agree with the margin account and with a ledger
that started at `initialCash`. -/
structure Accounted (initialCash : ℚ) (books : Books) : Prop where
  mirrored : Mirrored books
  reached : (Ledger.start initialCash).Reaches (ledgerOf books.state)

/-- **Every move of the books moves the ledger.** -/
theorem bookStep_ledger {executor : PositionExecutor} {books books' : Books}
    (h : BookStep executor books books') (hm : Mirrored books) :
    Mirrored books' ∧ (ledgerOf books.state).Reaches (ledgerOf books'.state) := by
  cases h with
  | exit price date reason hopen =>
      obtain ⟨receipt, hreceipt⟩ :=
        ledgerOf_exitPosition executor books price date reason hopen
      refine ⟨mirrored_exitPosition executor books price date reason, ?_⟩
      rw [hreceipt]
      exact Ledger.Reaches.single _ _
  | enter entry size hsize rawPrice fillPrice date hflat hstop =>
      refine ⟨mirrored_openedBooks _ hm entry hsize rawPrice fillPrice date _, ?_⟩
      rw [ledgerOf_openedBooks _ books entry hsize rawPrice fillPrice date _ hflat]
      exact Ledger.Reaches.single _ _
  | fund => exact ledgerOf_applyFunding executor hm
  | sync =>
      rw [syncMarginEquity_of_mirrored hm]
      exact ⟨hm, Ledger.Reaches.refl _⟩
  | keep state hsame =>
      refine ⟨fun account haccount => ?_, ?_⟩
      · rw [hm account haccount]
        exact hsame.cash.symm
      · rw [ledgerOf_sameAccounts hsame]
        exact Ledger.Reaches.refl _

theorem bookStep_accounted {executor : PositionExecutor} {initialCash : ℚ}
    (books books' : Books) (h : BookStep executor books books')
    (ha : Accounted initialCash books) : Accounted initialCash books' := by
  obtain ⟨hm, hreach⟩ := bookStep_ledger h ha.mirrored
  exact ⟨hm, ha.reached.trans hreach⟩

theorem setupFullMargin_accounted (executor : PositionExecutor) (initialCash : ℚ) :
    Accounted initialCash (executor.setupFullMargin initialCash) := by
  refine ⟨?_, Ledger.Reaches.refl _⟩
  intro account h
  unfold PositionExecutor.setupFullMargin at h ⊢
  cases hmode : executor.config.marginMode with
  | full =>
      simp only [hmode, Option.some.injEq] at h
      subst h
      rfl
  | simplified => simp only [hmode] at h; cases h

/-- The identity, read off the ledger of accounted books. -/
theorem Accounted.cash_eq {initialCash : ℚ} {books : Books}
    (ha : Accounted initialCash books) :
    books.state.cash = initialCash + realisedPnl books.state - books.state.totalFunding
      + entryFlow books.state.position :=
  ha.reached.cash_eq

/-! ## §6 The equity curve ends on the cash -/

/-- The last equity value of flat books is their cash, and books with an
open position have an equity point. -/
structure EquityMarked (initialCash : ℚ) (books : Books) : Prop where
  flat : books.state.position.size = 0 → finalValue books.state initialCash = books.state.cash
  opened : books.state.position.size ≠ 0 → books.state.equityCurve ≠ []

theorem portfolioValue_flat {state : SimulationState} (h : state.position.size = 0)
    (close : ℚ) : portfolioValue state close = state.cash := by
  unfold portfolioValue
  rw [h, if_neg (lt_irrefl 0), if_neg (lt_irrefl 0)]

/-- Tracking equity makes the portfolio value the final value. -/
theorem finalValue_trackEquity (state : SimulationState) (close : ℚ) (date : String)
    (initialCash : ℚ) :
    finalValue (trackEquity state close date) initialCash = portfolioValue state close := by
  unfold finalValue trackEquity
  simp only [List.map_append, List.map_cons, List.map_nil, List.getLast?_concat,
    Option.getD_some]

theorem trackEquity_marked (initialCash : ℚ) (books : Books) (close : ℚ) (date : String) :
    EquityMarked initialCash
      { books with state := trackEquity books.state close date } := by
  constructor
  · intro hflat
    rw [finalValue_trackEquity]
    exact portfolioValue_flat hflat close
  · intro _
    unfold trackEquity
    exact List.concat_ne_nil _ _

variable {σ : Type} (settings : RunSettings σ)

/-- One iteration keeps the accounts and ends with the equity marked. -/
theorem iteration_marked {initialCash : ℚ} {loop : Loop σ} (barAt : Bar × ℕ)
    (ha : Accounted initialCash loop.books) (hmark : EquityMarked initialCash loop.books) :
    Yields (iteration settings loop barAt) (fun loop' =>
      Accounted initialCash loop'.books ∧ EquityMarked initialCash loop'.books) := by
  unfold iteration
  simp only
  split
  · exact Yields.pure ⟨ha, hmark⟩
  · -- The first five phases keep the accounts; the last two mark the equity.
    have hsplit : Phase.all = Phase.all.take 5 ++ [.trackEquity, .syncMarginEquity] := rfl
    rw [hsplit, List.foldlM_append]
    refine Yields.bind (P := fun loop' : Loop σ => Accounted initialCash loop'.books)
      (Yields.foldlM ?_ ha) ?_
    · intro loop' phase _ ha' loop'' hloop''
      exact BookSteps.invariant bookStep_accounted (runPhase_steps_of_ok settings hloop'') ha'
    · intro loop' ha'
      simp only [List.foldlM_cons, List.foldlM_nil, runPhase, bind_pure]
      have htrack : BookStep settings.executor loop'.books _ :=
        .keep _ _ (trackEquity_sameAccounts loop'.books.state barAt.1.close barAt.1.date)
      have htracked := bookStep_accounted _ _ htrack ha'
      refine Yields.pure ?_
      simp only
      rw [syncMarginEquity_of_mirrored htracked.mirrored]
      exact ⟨htracked, trackEquity_marked initialCash _ _ _⟩

theorem afterBars_marked (memory : σ) (initialCash : ℚ) (bars : List Bar) (k : ℕ) :
    Yields (afterBars settings memory initialCash bars k) (fun loop =>
      Accounted initialCash loop.books ∧ EquityMarked initialCash loop.books) := by
  refine Yields.foldlM (fun loop barAt _ h => ?_) ?_
  · exact iteration_marked settings barAt h.1 h.2
  · refine ⟨setupFullMargin_accounted settings.executor initialCash, ?_, ?_⟩
    · exact fun _ => rfl
    · exact fun h => absurd rfl h

/-- Closing what is open at the end of the data keeps the accounts and marks
the last equity point with the cash. -/
theorem liquidateOpen_marked (executor : PositionExecutor) {initialCash : ℚ}
    {books : Books} (ha : Accounted initialCash books)
    (hmark : EquityMarked initialCash books) (finalClose : ℚ) (finalDate : String) :
    let books' := executor.liquidateOpen books finalClose finalDate
    Accounted initialCash books' ∧ books'.state.position.size = 0 ∧
      finalValue books'.state initialCash = books'.state.cash := by
  unfold PositionExecutor.liquidateOpen
  simp only
  split
  · rename_i hflat
    exact ⟨ha, hflat, hmark.flat hflat⟩
  · rename_i hopen
    have hclosed : Accounted initialCash
        (executor.exitPosition books finalClose finalDate .endOfBacktest) :=
      bookStep_accounted _ _ (.exit books finalClose finalDate _ hopen) ha
    have hflat : (executor.exitPosition books finalClose finalDate
        .endOfBacktest).state.position.size = 0 := rfl
    split
    · rename_i hempty
      rw [List.getLast?_eq_none_iff] at hempty
      exact absurd hempty (hmark.opened hopen)
    · refine ⟨⟨hclosed.mirrored, hclosed.reached⟩, hflat, ?_⟩
      · simp only [finalValue, List.map_append, List.map_cons, List.map_nil,
          List.getLast?_concat, Option.getD_some]
        exact portfolioValue_flat hflat finalClose

/-- **The books at the end of a run** are flat and accounted for, and the
final value is their cash. -/
theorem runLoop_marked {memory : σ} {initialCash : ℚ} {bars : List Bar} {books : Books}
    (h : runLoop settings memory initialCash bars = .ok books) :
    Accounted initialCash books ∧ books.state.position.size = 0 ∧
      finalValue books.state initialCash = books.state.cash := by
  obtain ⟨loop, hloop, hpure⟩ := bind_eq_ok.mp h
  obtain rfl := Except.ok.inj hpure
  obtain ⟨ha, hmark⟩ := afterBars_marked settings memory initialCash bars _ loop hloop
  exact liquidateOpen_marked settings.executor ha hmark loop.finalClose loop.finalDate

/-- What is realised at the end of a run is what equity has gained, and the
funding. -/
theorem finalValue_eq {memory : σ} {initialCash : ℚ} {bars : List Bar} {books : Books}
    (h : runLoop settings memory initialCash bars = .ok books) :
    finalValue books.state initialCash
      = initialCash + realisedPnl books.state - books.state.totalFunding := by
  obtain ⟨ha, hflat, hfinal⟩ := runLoop_marked settings h
  have hcash := ha.cash_eq
  rw [entryFlow_of_size_zero hflat, add_zero] at hcash
  exact hfinal.trans hcash

/-! ## §7 The accounting identity of a run -/

/-- **Cash is accounted for.** With a positive leverage multiplier, in either
margin mode and with or without funding, whatever the strategy does: after
every iteration of `_run_loop` the cash is the initial cash plus the net PnL
of the closed trades, less the funding paid, plus what entering the open
position moved; and after `liquidate_open` the final equity is the initial
cash plus the net PnL of all trades, less the funding. -/
theorem run_cash_identity (memory : σ) (initialCash : ℚ) (bars : List Bar)
    (hlev : 0 < settings.executor.config.leverageMultiplier) :
    (∀ k, ∃ loop, afterBars settings memory initialCash bars k = .ok loop ∧
      loop.books.state.cash = initialCash + realisedPnl loop.books.state
        - loop.books.state.totalFunding + entryFlow loop.books.state.position) ∧
    ∃ books, runLoop settings memory initialCash bars = .ok books ∧
      books.state.position.size = 0 ∧
      finalValue books.state initialCash
        = initialCash + realisedPnl books.state - books.state.totalFunding := by
  constructor
  · intro k
    obtain ⟨loop, hloop⟩ := afterBars_returns hlev memory initialCash bars k
    obtain ⟨ha, -⟩ := afterBars_marked settings memory initialCash bars k loop hloop
    exact ⟨loop, hloop, ha.cash_eq⟩
  · obtain ⟨loop, hloop⟩ := afterBars_returns hlev memory initialCash bars bars.length
    have hrun : runLoop settings memory initialCash bars
        = .ok (settings.executor.liquidateOpen loop.books loop.finalClose loop.finalDate) :=
      bind_eq_ok.mpr ⟨loop, hloop, rfl⟩
    exact ⟨_, hrun, (runLoop_marked settings hrun).2.1, finalValue_eq settings hrun⟩

/-- The identity on a leveraged run in full margin mode with funding: a long
of ten held for two bars. -/
theorem run_cash_identity_leveraged :
    (∀ k, ∃ loop, afterBars leveragedSettings [some buyTen] 1000 quietBars k = .ok loop ∧
      loop.books.state.cash = 1000 + realisedPnl loop.books.state
        - loop.books.state.totalFunding + entryFlow loop.books.state.position) ∧
    ∃ books, runLoop leveragedSettings [some buyTen] 1000 quietBars = .ok books ∧
      books.state.position.size = 0 ∧
      finalValue books.state 1000
        = 1000 + realisedPnl books.state - books.state.totalFunding :=
  run_cash_identity leveragedSettings [some buyTen] 1000 quietBars (by decide +kernel)

end Finbar.Backtest
