/-
Finbar.Backtest.PendingTheorems — the life of a pending order.

A signal queues an order, the next bar's open consumes it. Between two bars
a pending exit goes with an open position and a pending entry with a flat
one (`OrdersMatch`); from the open of a bar until the strategy is asked
again nothing is pending (`NoOrders`), whatever stops, liquidation and
margin calls have done to the position in between. The warmup bars queue
nothing, so the first entry is on the bar after the first tradable one.

The results speak of every run that has not raised; a leverage multiplier
that is not positive makes the entry raise.

No `sorry`, no `axiom`.
-/
import Finbar.Backtest.RunTheorems

namespace Finbar.Backtest

open Lib.Python Lib.Run Finbar.Simulation

/-! ## §1 Orders and the position -/

/-- Nothing is pending. -/
structure NoOrders (state : SimulationState) : Prop where
  entry : state.pendingEntry = none
  exit : state.pendingExit = none

/-- A pending exit goes with an open position, a pending entry with a flat
one. -/
structure OrdersMatch (state : SimulationState) : Prop where
  exit_open : state.pendingExit.isSome = true → state.position.size ≠ 0
  entry_flat : state.pendingEntry.isSome = true → state.position.size = 0

/-- The two orders are never pending together. -/
theorem OrdersMatch.not_both {state : SimulationState} (h : OrdersMatch state) :
    ¬ (state.pendingExit.isSome = true ∧ state.pendingEntry.isSome = true) :=
  fun hboth => h.exit_open hboth.1 (h.entry_flat hboth.2)

theorem NoOrders.ordersMatch {state : SimulationState} (h : NoOrders state) :
    OrdersMatch state where
  exit_open hsome := by rw [h.exit] at hsome; cases hsome
  entry_flat hsome := by rw [h.entry] at hsome; cases hsome

/-- Two simulation states with the same pending orders. -/
structure SameOrders (s s' : SimulationState) : Prop where
  entry : s'.pendingEntry = s.pendingEntry
  exit : s'.pendingExit = s.pendingExit

theorem SameOrders.refl (s : SimulationState) : SameOrders s s := ⟨rfl, rfl⟩

theorem SameOrders.noOrders {s s' : SimulationState} (h : SameOrders s s')
    (hs : NoOrders s) : NoOrders s' :=
  ⟨h.entry.trans hs.entry, h.exit.trans hs.exit⟩

/-- Orders go on matching a position that did not change size. -/
theorem SameOrders.ordersMatch {s s' : SimulationState} (h : SameOrders s s')
    (hsize : s'.position.size = s.position.size) (hs : OrdersMatch s) :
    OrdersMatch s' where
  exit_open hsome := by rw [hsize]; exact hs.exit_open (h.exit ▸ hsome)
  entry_flat hsome := by rw [hsize]; exact hs.entry_flat (h.entry ▸ hsome)

/-! ## §2 What becomes of an order at the open -/

/-- The position is the one an entry order opens at the open of a bar. -/
structure OpenedAt (executor : PositionExecutor) (entry : PendingEntry) (bar : Bar)
    (before after : SimulationState) : Prop where
  isOpen : after.position.size ≠ 0
  direction : after.position.direction = some entry.direction
  entryPrice : after.position.entryPrice = executor.entryFill entry bar.openPrice
  entryDate : after.position.entryDate = bar.date
  trades : after.trades = before.trades

/-- An entry order opens a position at the bar's open, or leaves the
accounts as they were; it touches no pending order. -/
theorem enter_outcome (executor : PositionExecutor) (books : Books)
    (entry : PendingEntry) (bar : Bar) :
    Yields (executor.enter books entry bar.openPrice bar.date) (fun books' =>
      SameOrders books.state books'.state ∧
        (OpenedAt executor entry bar books.state books'.state ∨
          SameAccounts books.state books'.state)) := by
  intro books' h
  obtain ⟨state, hframe, rfl | ⟨size, hsize, -, -, -, rfl⟩⟩ := enter_cases h
  · rw [hframe]
    exact ⟨⟨rfl, rfl⟩, .inr (sameAccounts_of_diagnostics rfl)⟩
  · have horders : SameOrders books.state state := by
      rw [hframe]
      exact ⟨rfl, rfl⟩
    have htrades : state.trades = books.state.trades := by rw [hframe]
    refine ⟨⟨horders.entry, horders.exit⟩, .inl ⟨?_, ?_, rfl, rfl, htrades⟩⟩
    · exact signedSize_ne_zero _ hsize
    · have hdirection := congrArg PendingEntry.direction
        (rebaseRiskPrices_frame executor entry (executor.entryFill entry bar.openPrice))
      exact congrArg some hdirection

/-- **What the open of a bar makes of the orders pending before it.**
Afterwards nothing is pending; a pending exit has closed the position at the
open; a pending entry has opened a position at the open or has been
discarded. -/
structure ConsumedAt (executor : PositionExecutor) (bar : Bar) (before after : Books) :
    Prop where
  noOrders : NoOrders after.state
  exit : before.state.pendingExit.isSome = true →
    after = { executor.exitPosition before bar.openPrice bar.date .signalExitNextOpen with
      state :=
        { (executor.exitPosition before bar.openPrice bar.date .signalExitNextOpen).state
          with pendingExit := none } }
  entry : ∀ entry, before.state.pendingEntry = some entry →
    OpenedAt executor entry bar before.state after.state ∨
      SameAccounts before.state after.state

theorem executePendingExit_of_none (executor : PositionExecutor) {books : Books}
    (h : books.state.pendingExit = none) (price : ℚ) (date : String) :
    executePendingExit executor books price date = books := by
  unfold executePendingExit
  rw [h, if_neg (fun hc => nomatch hc.1)]

theorem executePending_of_no_entry (executor : PositionExecutor) {books : Books}
    {price : ℚ} {date : String}
    (h : (executePendingExit executor books price date).state.pendingEntry = none) :
    executePending executor books price date
      = .ok (executePendingExit executor books price date) := by
  unfold executePending
  simp only [h]

/-- With nothing pending the open does nothing. -/
theorem executePending_of_noOrders (executor : PositionExecutor) {books : Books}
    (h : NoOrders books.state) (price : ℚ) (date : String) :
    executePending executor books price date = .ok books := by
  have hexit := executePendingExit_of_none executor h.exit price date
  have hentry : (executePendingExit executor books price date).state.pendingEntry = none := by
    rw [hexit]
    exact h.entry
  rw [executePending_of_no_entry executor hentry, hexit]

/-- **The open consumes what is pending.** -/
theorem executePending_consumes (executor : PositionExecutor) (books : Books) (bar : Bar)
    (h : OrdersMatch books.state) :
    Yields (executePending executor books bar.openPrice bar.date)
      (ConsumedAt executor bar books) := by
  intro books' hbooks'
  cases hexit : books.state.pendingExit with
  | some exit =>
      -- The position is open, so the exit is taken and no entry is pending.
      have hopen : books.state.position.size ≠ 0 := h.exit_open (by rw [hexit]; rfl)
      have hentry : books.state.pendingEntry = none := by
        cases hentry : books.state.pendingEntry with
        | none => rfl
        | some entry => exact absurd (h.entry_flat (by rw [hentry]; rfl)) hopen
      have htaken : executePendingExit executor books bar.openPrice bar.date
          = { executor.exitPosition books bar.openPrice bar.date .signalExitNextOpen with
              state :=
                { (executor.exitPosition books bar.openPrice bar.date
                    .signalExitNextOpen).state with pendingExit := none } } := by
        unfold executePendingExit
        rw [if_pos ⟨by rw [hexit]; rfl, hopen⟩]
      rw [executePending_of_no_entry executor (by rw [htaken]; exact hentry), htaken]
        at hbooks'
      obtain rfl := Except.ok.inj hbooks'
      refine ⟨⟨hentry, rfl⟩, fun _ => rfl, ?_⟩
      intro entry hsome
      rw [hentry] at hsome
      cases hsome
  | none =>
      unfold executePending at hbooks'
      rw [executePendingExit_of_none executor hexit] at hbooks'
      simp only at hbooks'
      cases hentry : books.state.pendingEntry with
      | none =>
          rw [hentry] at hbooks'
          cases hbooks'
          refine ⟨⟨hentry, hexit⟩, fun hsome => ?_, fun entry hsome => ?_⟩
          · rw [hexit] at hsome
            cases hsome
          · rw [hentry] at hsome
            cases hsome
      | some entry =>
          have hflat : books.state.position.size = 0 := h.entry_flat (by rw [hentry]; rfl)
          rw [hentry] at hbooks'
          simp only at hbooks'
          rw [if_neg (not_not.mpr hflat)] at hbooks'
          obtain ⟨hsame, houtcome⟩ := enter_outcome executor _ entry bar books' hbooks'
          refine ⟨⟨hsame.entry, hsame.exit.trans hexit⟩, fun hsome => ?_, ?_⟩
          · rw [hexit] at hsome
            cases hsome
          · intro entry' hentry'
            obtain rfl : entry = entry' := Option.some.inj (hentry.symm.trans hentry')
            rcases houtcome with hopened | hkept
            · exact .inl ⟨hopened.isOpen, hopened.direction, hopened.entryPrice,
                hopened.entryDate, hopened.trades⟩
            · exact .inr ⟨hkept.initialCash, hkept.cash, hkept.trades, hkept.totalFunding,
                hkept.usedMargin, hkept.position⟩

/-! ## §3 Phase by phase -/

section Phases

variable {σ : Type} (settings : RunSettings σ)

theorem checkExitConditions_sameOrders (executor : PositionExecutor) (books : Books)
    (openPrice high low : ℚ) (date : String) :
    SameOrders books.state
      (executor.checkExitConditions books openPrice high low date).state := by
  unfold PositionExecutor.checkExitConditions
  simp only
  split
  · exact ⟨rfl, rfl⟩
  · exact ⟨rfl, rfl⟩

theorem checkMarginCall_sameOrders (executor : PositionExecutor) (books : Books)
    (close : ℚ) : SameOrders books.state (executor.checkMarginCall books close).state := by
  unfold PositionExecutor.checkMarginCall
  split
  · exact .refl _
  · split
    · exact ⟨rfl, rfl⟩
    · exact .refl _

/-- Synchronising the margin account touches neither orders nor position. -/
theorem syncMarginEquity_frame (books : Books) :
    SameOrders books.state (PositionExecutor.syncMarginEquity books).state ∧
      (PositionExecutor.syncMarginEquity books).state.position = books.state.position ∧
      (PositionExecutor.syncMarginEquity books).state.trades = books.state.trades := by
  unfold PositionExecutor.syncMarginEquity
  split
  · exact ⟨.refl _, rfl, rfl⟩
  · exact ⟨⟨rfl, rfl⟩, rfl, rfl⟩

/-- Nor does funding. -/
theorem applyFunding_frame (executor : PositionExecutor) (books : Books) :
    SameOrders books.state (executor.applyFunding books).state ∧
      (executor.applyFunding books).state.position = books.state.position ∧
      (executor.applyFunding books).state.trades = books.state.trades := by
  unfold PositionExecutor.applyFunding
  split
  · exact ⟨.refl _, rfl, rfl⟩
  · simp only
    split
    · exact ⟨⟨rfl, rfl⟩, rfl, rfl⟩
    · exact ⟨⟨rfl, rfl⟩, rfl, rfl⟩

/-- A signal queued when nothing is pending matches the position. -/
theorem queueSignal_ordersMatch {state : SimulationState} (h : NoOrders state)
    (signal : SignalResult) (close riskPerTrade : ℚ) :
    OrdersMatch (queueSignal state signal close riskPerTrade) := by
  unfold queueSignal
  split
  · rename_i hexit
    refine ⟨fun _ => hexit.2.2, fun hsome => ?_⟩
    rw [show _ = none from h.entry] at hsome
    cases hsome
  · split
    · split
      · rename_i henter
        refine ⟨fun hsome => ?_, fun _ => henter.1⟩
        rw [show _ = none from h.exit] at hsome
        cases hsome
      · exact h.ordersMatch
    · exact h.ordersMatch

theorem processSignal_ordersMatch (bar : Bar) {loop : Loop σ}
    (h : NoOrders loop.books.state) :
    OrdersMatch (processSignal settings bar loop).books.state := by
  unfold processSignal
  generalize settings.strategy.onBar loop.memory bar loop.books.state.position = answer
  obtain ⟨memory, signal⟩ := answer
  cases signal with
  | none => exact h.ordersMatch
  | some signal => exact queueSignal_ordersMatch h signal _ _

/-- Queueing a signal moves neither position nor trades. -/
theorem processSignal_frame (bar : Bar) (loop : Loop σ) :
    (processSignal settings bar loop).books.state.position = loop.books.state.position ∧
      (processSignal settings bar loop).books.state.trades = loop.books.state.trades := by
  unfold processSignal queueSignal
  simp only
  split
  · exact ⟨rfl, rfl⟩
  · simp only
    split
    · exact ⟨rfl, rfl⟩
    · split
      · split
        · exact ⟨rfl, rfl⟩
        · exact ⟨rfl, rfl⟩
      · exact ⟨rfl, rfl⟩

/-- The phases between the open and the strategy's answer. -/
def Phase.intrabar : List Phase := [.checkExitConditions, .checkMarginCall, .applyFunding]

/-- They leave the pending orders alone. -/
theorem runPhase_intrabar (bar : Bar) (loop : Loop σ) {phase : Phase}
    (hphase : phase ∈ Phase.intrabar) :
    Yields (runPhase settings bar loop phase)
      (fun loop' => SameOrders loop.books.state loop'.books.state) := by
  cases phase with
  | checkExitConditions => exact Yields.pure (checkExitConditions_sameOrders ..)
  | checkMarginCall => exact Yields.pure (checkMarginCall_sameOrders ..)
  | applyFunding => exact Yields.pure (applyFunding_frame ..).1
  | executePending => exact absurd hphase (by decide)
  | processSignal => exact absurd hphase (by decide)
  | trackEquity => exact absurd hphase (by decide)
  | syncMarginEquity => exact absurd hphase (by decide)

theorem runPhase_executePending (bar : Bar) (loop : Loop σ)
    (h : OrdersMatch loop.books.state) :
    Yields (runPhase settings bar loop .executePending)
      (fun loop' => ConsumedAt settings.executor bar loop.books loop'.books) :=
  Yields.bind (executePending_consumes settings.executor loop.books bar h)
    (fun _ hbooks => Yields.pure hbooks)

/-- From the open to the strategy's answer nothing is pending. -/
theorem openToSignal_noOrders (bar : Bar) {loop : Loop σ} (h : OrdersMatch loop.books.state)
    (n : ℕ) :
    Yields ((.executePending :: Phase.intrabar.take n).foldlM (runPhase settings bar) loop)
      (fun loop' => NoOrders loop'.books.state) := by
  rw [List.foldlM_cons]
  refine Yields.bind (runPhase_executePending settings bar loop h) ?_
  intro opened hopened
  refine Yields.foldlM (I := fun loop : Loop σ => NoOrders loop.books.state) ?_
    hopened.noOrders
  intro loop phase hmem hnone
  refine (runPhase_intrabar settings bar loop (List.mem_of_mem_take hmem)).mono ?_
  exact fun loop' hsame => hsame.noOrders hnone

/-- **A tradable iteration** keeps the orders matching the position. -/
theorem tradableBar_ordersMatch (bar : Bar) {loop : Loop σ}
    (h : OrdersMatch loop.books.state) :
    Yields (Phase.all.foldlM (runPhase settings bar) loop)
      (fun loop' => OrdersMatch loop'.books.state) := by
  have hsplit : Phase.all = (.executePending :: Phase.intrabar.take 3)
      ++ [.processSignal, .trackEquity, .syncMarginEquity] := rfl
  rw [hsplit, List.foldlM_append]
  refine Yields.bind (openToSignal_noOrders settings bar h 3) ?_
  intro quiet hquiet
  rw [List.foldlM_cons]
  refine Yields.bind (P := fun loop : Loop σ => OrdersMatch loop.books.state)
    (Yields.pure (processSignal_ordersMatch settings bar hquiet)) ?_
  intro queued hqueued
  rw [List.foldlM_cons]
  refine Yields.bind (P := fun loop : Loop σ => OrdersMatch loop.books.state)
    (Yields.pure ⟨hqueued.exit_open, hqueued.entry_flat⟩) ?_
  intro tracked htracked
  obtain ⟨hsame, hposition, -⟩ := syncMarginEquity_frame tracked.books
  rw [List.foldlM_cons]
  exact Yields.bind (P := fun loop : Loop σ => OrdersMatch loop.books.state)
    (Yields.pure (hsame.ordersMatch (by rw [hposition]) htracked))
    (fun _ hsynced => Yields.pure hsynced)

/-- No phase but the first opens a position. -/
theorem runPhase_flat (bar : Bar) (loop : Loop σ) {phase : Phase}
    (hphase : phase ≠ .executePending) (hflat : loop.books.state.position.size = 0) :
    Yields (runPhase settings bar loop phase) (fun loop' =>
      loop'.books.state.position.size = 0 ∧
        loop'.books.state.trades = loop.books.state.trades) := by
  cases phase with
  | executePending => exact absurd rfl hphase
  | checkExitConditions =>
      refine Yields.pure ?_
      have hnone : settings.executor.forcedExit loop.books.state.position.hold bar.openPrice
          bar.high bar.low = none := by
        cases hforced : settings.executor.forcedExit loop.books.state.position.hold
            bar.openPrice bar.high bar.low with
        | none => rfl
        | some fill => exact absurd hflat (forcedExit_open settings.executor hforced)
      unfold PositionExecutor.checkExitConditions
      simp only [hnone]
      exact ⟨hflat, trivial⟩
  | checkMarginCall =>
      refine Yields.pure ?_
      have hquiet : ¬ MarginAccountManager.checkMarginCall settings.executor.config
          loop.books.state.position bar.close = true :=
        fun hcall => checkMarginCall_open hcall hflat
      unfold PositionExecutor.checkMarginCall
      split
      · exact ⟨hflat, rfl⟩
      · rw [if_neg hquiet]
        exact ⟨hflat, rfl⟩
  | applyFunding =>
      refine Yields.pure ?_
      obtain ⟨-, hposition, htrades⟩ := applyFunding_frame settings.executor loop.books
      exact ⟨by rw [hposition]; exact hflat, htrades⟩
  | processSignal =>
      refine Yields.pure ?_
      obtain ⟨hposition, htrades⟩ := processSignal_frame settings bar loop
      exact ⟨by rw [hposition]; exact hflat, htrades⟩
  | trackEquity => exact Yields.pure ⟨hflat, rfl⟩
  | syncMarginEquity =>
      refine Yields.pure ?_
      obtain ⟨-, hposition, htrades⟩ := syncMarginEquity_frame loop.books
      exact ⟨by rw [hposition]; exact hflat, htrades⟩

/-- Nothing has been traded: the book is flat and no trade is recorded. -/
def Untraded (state : SimulationState) : Prop :=
  state.position.size = 0 ∧ state.trades = []

/-- A bar that opens with nothing pending on an untraded book leaves it
untraded, after any number of its phases. -/
theorem phases_untraded (bar : Bar) {loop : Loop σ} (hnone : NoOrders loop.books.state)
    (h : Untraded loop.books.state) (j : ℕ) :
    Yields ((Phase.all.take j).foldlM (runPhase settings bar) loop)
      (fun loop' => Untraded loop'.books.state) := by
  have hsplit : Phase.all = .executePending :: Phase.all.tail := rfl
  cases j with
  | zero => exact Yields.pure h
  | succ j =>
      rw [hsplit, List.take_succ_cons, List.foldlM_cons]
      refine Yields.bind (P := fun loop : Loop σ => Untraded loop.books.state) ?_ ?_
      · rw [runPhase, executePending_of_noOrders settings.executor hnone]
        exact Yields.pure h
      · intro opened hopened
        refine Yields.foldlM (I := fun loop : Loop σ => Untraded loop.books.state) ?_ hopened
        intro loop phase hmem huntraded
        have hphase : phase ≠ .executePending := by
          intro heq
          subst heq
          exact absurd (List.mem_of_mem_take hmem) (by decide)
        refine (runPhase_flat settings bar loop hphase huntraded.1).mono ?_
        exact fun loop' hloop' => ⟨hloop'.1, hloop'.2.trans huntraded.2⟩

end Phases

/-! ## §4 Whole runs -/

section Runs

variable {σ : Type} (settings : RunSettings σ)

/-- What holds between two bars, after `k` of them: orders match the
position; and until the first tradable bar has been processed nothing has
been traded, the warmup bars queueing nothing at all. -/
structure BetweenBars (k : ℕ) (loop : Loop σ) : Prop where
  ordersMatch : OrdersMatch loop.books.state
  warmup : k ≤ settings.firstTradableIndex → NoOrders loop.books.state
  untraded : k ≤ settings.firstTradableIndex + 1 → Untraded loop.books.state

theorem beginLoop_betweenBars (memory : σ) (initialCash : ℚ) :
    BetweenBars settings 0 (beginLoop settings memory initialCash) where
  ordersMatch := NoOrders.ordersMatch ⟨rfl, rfl⟩
  warmup _ := ⟨rfl, rfl⟩
  untraded _ := ⟨rfl, rfl⟩

/-- One bar, warmup or tradable. -/
theorem iteration_betweenBars {k : ℕ} {loop : Loop σ} (bar : Bar)
    (h : BetweenBars settings k loop) :
    Yields (iteration settings loop (bar, k)) (BetweenBars settings (k + 1)) := by
  unfold iteration
  simp only
  split
  · rename_i hwarmup
    refine Yields.pure ⟨h.ordersMatch, fun _ => h.warmup hwarmup.le, fun _ => ?_⟩
    exact h.untraded (Nat.le_succ_of_le hwarmup.le)
  · rename_i htradable
    have hmatch : OrdersMatch (beginBar bar loop).books.state := h.ordersMatch
    intro after hafter
    refine ⟨tradableBar_ordersMatch settings bar hmatch after hafter, fun hk => ?_,
      fun hk => ?_⟩
    · exact absurd (Nat.lt_of_succ_le hk) htradable
    · have hfirst : k ≤ settings.firstTradableIndex := Nat.le_of_succ_le_succ hk
      have hnone : NoOrders (beginBar bar loop).books.state := h.warmup hfirst
      have huntraded : Untraded (beginBar bar loop).books.state :=
        h.untraded (Nat.le_succ_of_le hfirst)
      exact phases_untraded settings bar hnone huntraded 7 after hafter

/-- **The invariant between bars.** -/
theorem afterBars_betweenBars (memory : σ) (initialCash : ℚ) (bars : List Bar) (k : ℕ) :
    Yields (afterBars settings memory initialCash bars k)
      (fun loop => BetweenBars settings (min k bars.length) loop) := by
  have hzip : bars.zipIdx.length = bars.length := List.length_zipIdx
  refine Yields.foldlM_take (I := fun k => BetweenBars settings (min k bars.length))
    ?_ ?_ ?_ k
  · rw [Nat.zero_min]
    exact beginLoop_betweenBars settings memory initialCash
  · rintro k loop ⟨bar, index⟩ hbar h
    have hk : k < bars.length := by
      have := (List.getElem?_eq_some_iff.mp hbar).1
      omega
    obtain rfl : index = k := by
      rw [List.getElem?_zipIdx] at hbar
      cases hget : bars[k]? with
      | none => rw [hget] at hbar; cases hbar
      | some b =>
          rw [hget, Nat.zero_add] at hbar
          exact (Prod.mk.inj (Option.some.inj hbar)).2.symm
    rw [Nat.min_eq_left hk.le] at h
    rw [Nat.min_eq_left hk]
    exact iteration_betweenBars settings bar h
  · intro k loop hk h
    rw [hzip] at hk
    rw [Nat.min_eq_right hk] at h
    rw [Nat.min_eq_right (Nat.le_succ_of_le hk)]
    exact h

/-- The closing liquidation consumes no order: a book with a pending entry
is left as it is, and a position with a pending exit is closed because the
data ends. -/
theorem liquidateOpen_orders (executor : PositionExecutor) (books : Books)
    (h : OrdersMatch books.state) (finalClose : ℚ) (finalDate : String) :
    SameOrders books.state (executor.liquidateOpen books finalClose finalDate).state ∧
      (books.state.pendingEntry.isSome = true →
        executor.liquidateOpen books finalClose finalDate = books) ∧
      (books.state.pendingExit.isSome = true → ∃ trade : TradeRecord,
        (executor.liquidateOpen books finalClose finalDate).state.trades
            = books.state.trades ++ [trade] ∧
          trade.exitReason = .endOfBacktest) := by
  unfold PositionExecutor.liquidateOpen
  by_cases hflat : books.state.position.size = 0
  · rw [if_pos hflat]
    refine ⟨.refl _, fun _ => rfl, fun hsome => ?_⟩
    exact absurd hflat (h.exit_open hsome)
  · rw [if_neg hflat]
    refine ⟨?_, fun hsome => absurd (h.entry_flat hsome) hflat, fun _ => ?_⟩
    · simp only
      split
      · exact ⟨rfl, rfl⟩
      · exact ⟨rfl, rfl⟩
    · simp only
      split
      · exact ⟨_, rfl, rfl⟩
      · exact ⟨_, rfl, rfl⟩

/-- The loop inside a bar comes from the loop before it. -/
theorem duringBar_eq_ok {memory : σ} {initialCash : ℚ} {bars : List Bar} {k : ℕ} {bar : Bar}
    {j : ℕ} {during : Loop σ}
    (h : duringBar settings memory initialCash bars k bar j = .ok during) :
    ∃ loop, afterBars settings memory initialCash bars k = .ok loop ∧
      (Phase.all.take j).foldlM (runPhase settings bar) (beginBar bar loop) = .ok during := by
  unfold duringBar at h
  exact bind_eq_ok.mp h

/-- **Pending orders of a run**, for every strategy and every configuration,
in every state that the run reaches.

1. Between two bars a pending exit goes with an open position, a pending
   entry with a flat one, and never both are pending.
2. What is pending before a bar was queued after the first tradable bar or
   later, and the bar's open consumes it: an exit closes the position there,
   an entry opens one there or is discarded.
3. From the open of a bar until the strategy is asked nothing is pending, so
   no order outlives the bar after the one that emitted it.
4. What is pending at the end is never executed.
5. Up to and including the first tradable bar nothing is traded, so the
   first entry is on a later bar. -/
theorem pending_orders (memory : σ) (initialCash : ℚ) (bars : List Bar) :
    (∀ k loop, afterBars settings memory initialCash bars k = .ok loop →
      OrdersMatch loop.books.state ∧
        ¬ (loop.books.state.pendingExit.isSome = true ∧
          loop.books.state.pendingEntry.isSome = true)) ∧
    (∀ k bar loop, bars[k]? = some bar →
      afterBars settings memory initialCash bars k = .ok loop →
      ¬ NoOrders loop.books.state →
      settings.firstTradableIndex < k ∧
        ∀ opened, duringBar settings memory initialCash bars k bar 1 = .ok opened →
          ConsumedAt settings.executor bar loop.books opened.books) ∧
    (∀ k bar j loop, bars[k]? = some bar → 1 ≤ j → j ≤ 4 →
      duringBar settings memory initialCash bars k bar j = .ok loop →
      NoOrders loop.books.state) ∧
    (∀ loop books, afterBars settings memory initialCash bars bars.length = .ok loop →
      runLoop settings memory initialCash bars = .ok books →
      SameOrders loop.books.state books.state ∧
        (loop.books.state.pendingEntry.isSome = true → books = loop.books) ∧
        (loop.books.state.pendingExit.isSome = true → ∃ trade : TradeRecord,
          books.state.trades = loop.books.state.trades ++ [trade] ∧
            trade.exitReason = .endOfBacktest)) ∧
    (∀ k loop, k ≤ settings.firstTradableIndex + 1 →
      afterBars settings memory initialCash bars k = .ok loop →
      Untraded loop.books.state) ∧
    ∀ k bar j loop, bars[k]? = some bar → k ≤ settings.firstTradableIndex →
      duringBar settings memory initialCash bars k bar j = .ok loop →
      Untraded loop.books.state := by
  have hbetween : ∀ k loop, afterBars settings memory initialCash bars k = .ok loop →
      BetweenBars settings (min k bars.length) loop :=
    fun k => afterBars_betweenBars settings memory initialCash bars k
  refine ⟨fun k loop hloop => ?_, fun k bar loop hbar hloop hpending => ?_,
    fun k bar j loop hbar hj hj' hloop => ?_, fun loop books hloop hbooks => ?_,
    fun k loop hk hloop => ?_, fun k bar j during hbar hk hduring => ?_⟩
  · have hmatch := (hbetween k loop hloop).ordersMatch
    exact ⟨hmatch, hmatch.not_both⟩
  · have h := hbetween k loop hloop
    have hk : min k bars.length = k :=
      Nat.min_eq_left (List.getElem?_eq_some_iff.mp hbar).1.le
    rw [hk] at h
    refine ⟨?_, fun opened hopened => ?_⟩
    · by_contra hwarmup
      exact hpending (h.warmup (not_lt.mp hwarmup))
    · rw [duringBar_one hloop] at hopened
      exact runPhase_executePending settings bar (beginBar bar loop) h.ordersMatch opened
        hopened
  · obtain ⟨before, hbefore, hrun⟩ := duringBar_eq_ok settings hloop
    obtain ⟨n, rfl⟩ : ∃ n, j = n + 1 := ⟨j - 1, by omega⟩
    have hphases : Phase.all.take (n + 1) = .executePending :: Phase.intrabar.take n := by
      have hn : n ≤ Phase.intrabar.length := Nat.le_of_succ_le_succ hj'
      have hsplit : Phase.all = .executePending :: (Phase.intrabar
          ++ [.processSignal, .trackEquity, .syncMarginEquity]) := rfl
      rw [hsplit, List.take_succ_cons, List.take_append_of_le_length hn]
    rw [hphases] at hrun
    have hmatch : OrdersMatch (beginBar bar before).books.state :=
      (hbetween k before hbefore).ordersMatch
    exact openToSignal_noOrders settings bar hmatch n loop hrun
  · obtain rfl := books_of_runLoop hloop hbooks
    exact liquidateOpen_orders settings.executor loop.books
      (hbetween _ loop hloop).ordersMatch _ _
  · exact (hbetween k loop hloop).untraded ((Nat.min_le_left _ _).trans hk)
  · obtain ⟨before, hbefore, hrun⟩ := duringBar_eq_ok settings hduring
    have h := hbetween k before hbefore
    have hmin : min k bars.length ≤ settings.firstTradableIndex :=
      (Nat.min_le_left _ _).trans hk
    have hnone : NoOrders (beginBar bar before).books.state := h.warmup hmin
    have huntraded : Untraded (beginBar bar before).books.state :=
      h.untraded (Nat.le_succ_of_le hmin)
    exact phases_untraded settings bar hnone huntraded j during hrun

/-- The order that the first bar of a run emits, consumed at the open of the
second. -/
theorem pending_orders_buyTen :
    ∃ loop opened : Loop (List (Option SignalResult)),
      afterBars unfundedSettings [some buyTen] 1000 quietBars 1 = .ok loop ∧
      duringBar unfundedSettings [some buyTen] 1000 quietBars 1 (quietBar "2024-01-02") 1
        = .ok opened ∧
      loop.books.state.pendingEntry.isSome = true ∧
      ConsumedAt unfundedSettings.executor (quietBar "2024-01-02") loop.books
        opened.books := by
  obtain ⟨loop, hloop, hentry⟩ : Ensures
      (afterBars unfundedSettings [some buyTen] 1000 quietBars 1)
      (fun loop => loop.books.state.pendingEntry.isSome = true) :=
    Ensures.of_run (by decide +kernel)
  obtain ⟨opened, hopened, -⟩ : Ensures
      (duringBar unfundedSettings [some buyTen] 1000 quietBars 1 (quietBar "2024-01-02") 1)
      (fun _ => True) :=
    Ensures.of_run (by decide +kernel)
  have hpending : ¬ NoOrders loop.books.state := by
    intro hnone
    rw [hnone.entry] at hentry
    cases hentry
  have h := (pending_orders unfundedSettings [some buyTen] 1000 quietBars).2.1 1
    (quietBar "2024-01-02") loop rfl hloop hpending
  exact ⟨loop, opened, hloop, hopened, hentry, h.2 opened hopened⟩

end Runs

end Finbar.Backtest
