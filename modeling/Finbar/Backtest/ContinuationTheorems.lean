/-
Finbar.Backtest.ContinuationTheorems — a longer history does not revise a backtest.

What a run has recorded it keeps: every phase of every iteration only appends trades,
equity points and diagnostics (`Appends`). So a run over a history and the run over a
continuation of it differ in what the closing liquidation did: it closed the open
position, which the longer run may hold on to, and it rewrote the last equity point
(`run_continuation`). Nothing else of the shorter run is revised, whatever comes later.

No `sorry`, no `axiom`.
-/
import Finbar.Backtest.Engine
import Finbar.Backtest.RunTheorems

namespace Finbar.Backtest

open Lib.Python Lib.Run Finbar.Simulation

/-! ## §1 What is recorded stays -/

/-- Trades, equity points and diagnostics are appended at most. -/
structure Appends (s s' : SimulationState) : Prop where
  trades : s.trades <+: s'.trades
  equityCurve : s.equityCurve <+: s'.equityCurve
  diagnostics : s.diagnostics <+: s'.diagnostics

theorem Appends.refl (s : SimulationState) : Appends s s :=
  ⟨List.prefix_rfl, List.prefix_rfl, List.prefix_rfl⟩

theorem Appends.trans {s s' s'' : SimulationState} (h : Appends s s') (h' : Appends s' s'') :
    Appends s s'' :=
  ⟨h.trades.trans h'.trades, h.equityCurve.trans h'.equityCurve,
    h.diagnostics.trans h'.diagnostics⟩

/-- The records are the same. -/
theorem Appends.of_eq {s s' : SimulationState} (htrades : s'.trades = s.trades)
    (hcurve : s'.equityCurve = s.equityCurve) (hdiagnostics : s'.diagnostics = s.diagnostics) :
    Appends s s' :=
  ⟨htrades ▸ List.prefix_rfl, hcurve ▸ List.prefix_rfl, hdiagnostics ▸ List.prefix_rfl⟩

theorem appends_addDiagnostic (s : SimulationState) (severity code : String) (message : Message)
    (date : String) (metadata : List (String × ℚ)) :
    Appends s (s.addDiagnostic severity code message date metadata) :=
  ⟨List.prefix_rfl, List.prefix_rfl, List.prefix_append _ _⟩

section Phases

variable {executor : PositionExecutor}

theorem appends_exitPosition (books : Books) (price : ℚ) (date : String) (reason : ExitReason) :
    Appends books.state (executor.exitPosition books price date reason).state :=
  ⟨List.prefix_append _ _, List.prefix_rfl, List.prefix_rfl⟩

theorem appends_rawSize (config : ExecutionConfig) (state : SimulationState)
    (entry : PendingEntry) (portfolioValue entryPrice : ℚ) (date : String) :
    Appends state (PositionSizer.rawSize config state entry portfolioValue entryPrice date).1 := by
  unfold PositionSizer.rawSize
  split_ifs
  · exact Appends.refl state
  · simp only
    split_ifs
    · exact Appends.refl state
    · exact appends_addDiagnostic state ..
  · exact Appends.refl state

theorem appends_applyAffordabilityCap (config : ExecutionConfig) (state : SimulationState)
    (entry : PendingEntry) (size price : ℚ) (date : String) :
    Appends state (PositionSizer.applyAffordabilityCap config state entry size price date).1 := by
  unfold PositionSizer.applyAffordabilityCap
  simp only
  split_ifs
  all_goals first | exact Appends.refl state | exact appends_addDiagnostic state ..

theorem appends_resolve (config : ExecutionConfig) (state : SimulationState)
    (entry : PendingEntry) (entryPrice portfolioValue : ℚ) (date : String) :
    Appends state
      (PositionSizer.resolve config state entry entryPrice portfolioValue date).1 := by
  have hraw := appends_rawSize config state entry portfolioValue entryPrice date
  unfold PositionSizer.resolve
  simp only
  split_ifs
  · exact hraw
  · exact hraw.trans (appends_applyAffordabilityCap config _ entry _ entryPrice date)

theorem appends_open {config : ExecutionConfig} {books books' : Books} {entry : PendingEntry}
    {size : ℚ} {hsize : 0 < size} {rawPrice fillPrice : ℚ} {date : String}
    (h : PositionOpener.open config books entry size hsize rawPrice fillPrice date
      = .ok books') : Appends books.state books'.state := by
  obtain ⟨margin, -, hpure⟩ := bind_eq_ok.mp h
  obtain rfl := Except.ok.inj hpure
  exact Appends.of_eq rfl rfl rfl

theorem appends_enter {books books' : Books} {entry : PendingEntry} {price : ℚ} {date : String}
    (h : executor.enter books entry price date = .ok books') :
    Appends books.state books'.state := by
  unfold PositionExecutor.enter at h
  simp only at h
  split at h
  · obtain rfl := Except.ok.inj h
    exact Appends.refl _
  · have hsized := appends_resolve executor.config books.state
      (executor.rebaseRiskPrices entry (executor.entryFill entry price))
      (executor.entryFill entry price)
      (portfolioValue books.state (executor.entryFill entry price)) date
    split at h
    · obtain rfl := Except.ok.inj h
      exact hsized.trans (appends_addDiagnostic _ ..)
    · exact hsized.trans (appends_open h)

theorem appends_executePendingExit (books : Books) (price : ℚ) (date : String) :
    Appends books.state (executePendingExit executor books price date).state := by
  unfold executePendingExit
  split
  · exact (appends_exitPosition books price date .signalExitNextOpen).trans
      (Appends.of_eq rfl rfl rfl)
  · exact Appends.refl _

theorem appends_executePending {books books' : Books} {price : ℚ} {date : String}
    (h : executePending executor books price date = .ok books') :
    Appends books.state books'.state := by
  have hexit : Appends books.state (executePendingExit executor books price date).state :=
    appends_executePendingExit books price date
  unfold executePending at h
  generalize executePendingExit executor books price date = exited at h hexit
  simp only at h
  split at h
  · obtain rfl := Except.ok.inj h
    exact hexit
  · split at h
    · obtain rfl := Except.ok.inj h
      exact hexit
    · have hcleared : Appends exited.state { exited.state with pendingEntry := none } :=
        Appends.of_eq rfl rfl rfl
      have henter := appends_enter h
      exact hexit.trans (hcleared.trans henter)

theorem appends_checkExitConditions (books : Books) (openPrice high low : ℚ) (date : String) :
    Appends books.state (executor.checkExitConditions books openPrice high low date).state := by
  unfold PositionExecutor.checkExitConditions
  have hheld : Appends books.state { books.state with position := books.state.position.hold } :=
    Appends.of_eq rfl rfl rfl
  simp only
  split
  · exact hheld
  · exact hheld.trans (appends_exitPosition ⟨_, _, _⟩ ..)

theorem appends_checkMarginCall (books : Books) (close : ℚ) :
    Appends books.state (executor.checkMarginCall books close).state := by
  unfold PositionExecutor.checkMarginCall
  split
  · exact Appends.refl _
  · split
    · exact appends_exitPosition books ..
    · exact Appends.refl _

theorem appends_syncMarginEquity (books : Books) :
    Appends books.state (PositionExecutor.syncMarginEquity books).state := by
  unfold PositionExecutor.syncMarginEquity
  split
  · exact Appends.refl _
  · exact Appends.of_eq rfl rfl rfl

theorem appends_applyFunding (books : Books) :
    Appends books.state (executor.applyFunding books).state := by
  unfold PositionExecutor.applyFunding
  split
  · exact Appends.refl _
  · next account _ =>
      generalize MarginAccountManager.applyFunding executor.config account
        books.state.position = funded
      have hpaid : Appends books.state (if funded.2 ≠ 0 then
          { books.state with totalFunding := books.state.totalFunding + funded.2 }
        else books.state) := by
        split
        · exact Appends.of_eq rfl rfl rfl
        · exact Appends.refl _
      obtain ⟨account', payment⟩ := funded
      exact hpaid.trans (appends_syncMarginEquity ⟨_, _, _⟩)

theorem appends_queueSignal (state : SimulationState) (signal : SignalResult)
    (close riskPerTrade : ℚ) : Appends state (queueSignal state signal close riskPerTrade) := by
  unfold queueSignal
  split
  · exact Appends.of_eq rfl rfl rfl
  · split
    · split
      · exact Appends.of_eq rfl rfl rfl
      · exact Appends.refl _
    · exact Appends.refl _

variable {σ : Type} {settings : RunSettings σ}

theorem appends_processSignal (bar : Bar) (loop : Loop σ) :
    Appends loop.books.state (processSignal settings bar loop).books.state := by
  unfold processSignal
  simp only
  split
  · exact Appends.refl _
  · exact appends_queueSignal ..

/-- **Every phase** only appends. -/
theorem appends_runPhase {bar : Bar} {loop loop' : Loop σ} {phase : Phase}
    (h : runPhase settings bar loop phase = .ok loop') :
    Appends loop.books.state loop'.books.state := by
  cases phase with
  | executePending =>
      obtain ⟨books, hbooks, hpure⟩ := bind_eq_ok.mp h
      obtain rfl := Except.ok.inj hpure
      exact appends_executePending hbooks
  | checkExitConditions =>
      obtain rfl := Except.ok.inj h
      exact appends_checkExitConditions loop.books ..
  | checkMarginCall =>
      obtain rfl := Except.ok.inj h
      exact appends_checkMarginCall loop.books bar.close
  | applyFunding =>
      obtain rfl := Except.ok.inj h
      exact appends_applyFunding loop.books
  | processSignal =>
      obtain rfl := Except.ok.inj h
      exact appends_processSignal bar loop
  | trackEquity =>
      obtain rfl := Except.ok.inj h
      exact ⟨List.prefix_rfl, List.prefix_append _ _, List.prefix_rfl⟩
  | syncMarginEquity =>
      obtain rfl := Except.ok.inj h
      exact appends_syncMarginEquity loop.books

theorem appends_iteration {loop loop' : Loop σ} {barAt : Bar × ℕ}
    (h : iteration settings loop barAt = .ok loop') :
    Appends loop.books.state loop'.books.state := by
  unfold iteration at h
  simp only at h
  split at h
  · obtain rfl := Except.ok.inj h
    exact Appends.refl _
  · have hbegin : Appends loop.books.state (beginBar barAt.1 loop).books.state := Appends.refl _
    refine Yields.foldlM (I := fun loop' : Loop σ => Appends loop.books.state loop'.books.state)
      ?_ hbegin loop' h
    intro between phase _ hbetween after hafter
    exact hbetween.trans (appends_runPhase hafter)

end Phases

/-! ## §2 Runs over a history and its continuation -/

section Runs

variable {σ : Type} {settings : RunSettings σ} {memory : σ} {initialCash : ℚ}
  {bars later : List Bar}

/-- A run over a continuation passes through the end of the history. -/
theorem afterBars_appends {loop' : Loop σ}
    (h : afterBars settings memory initialCash (bars ++ later) (bars ++ later).length
      = .ok loop') :
    ∃ loop, afterBars settings memory initialCash bars bars.length = .ok loop ∧
      Appends loop.books.state loop'.books.state := by
  have hsplit : (bars ++ later).zipIdx.take (bars ++ later).length =
      bars.zipIdx ++ later.zipIdx bars.length := by
    rw [List.take_of_length_le (by rw [List.length_zipIdx]), List.zipIdx_append, Nat.zero_add]
  unfold afterBars at h
  rw [hsplit, List.foldlM_append] at h
  obtain ⟨loop, hloop, hrest⟩ := bind_eq_ok.mp h
  refine ⟨loop, ?_, ?_⟩
  · unfold afterBars
    rw [List.take_of_length_le (by rw [List.length_zipIdx])]
    exact hloop
  · refine Yields.foldlM (I := fun loop' : Loop σ => Appends loop.books.state loop'.books.state)
      ?_ (Appends.refl _) loop' hrest
    intro between barAt _ hbetween after hafter
    exact hbetween.trans (appends_iteration hafter)

/-- What the closing liquidation leaves of the records: it may close the open position and
rewrite the last equity point. -/
structure Closes (s s' : SimulationState) : Prop where
  trades : ∃ closing, s'.trades = s.trades ++ closing ∧
    (closing = [] ∨ ∃ trade : TradeRecord, closing = [trade] ∧ trade.exitReason = .endOfBacktest)
  equityCurve : s'.equityCurve.dropLast = s.equityCurve.dropLast
  diagnostics : s'.diagnostics = s.diagnostics

theorem closes_liquidateOpen (executor : PositionExecutor) (books : Books) (close : ℚ)
    (date : String) : Closes books.state (executor.liquidateOpen books close date).state := by
  have hclosed : ∃ closing, (executor.exitPosition books close date .endOfBacktest).state.trades
      = books.state.trades ++ closing ∧ (closing = [] ∨ ∃ trade : TradeRecord,
        closing = [trade] ∧ trade.exitReason = .endOfBacktest) :=
    ⟨_, rfl, .inr ⟨_, rfl, rfl⟩⟩
  unfold PositionExecutor.liquidateOpen
  simp only
  split
  · exact ⟨⟨[], (List.append_nil _).symm, .inl rfl⟩, rfl, rfl⟩
  · split
    · exact ⟨hclosed, rfl, rfl⟩
    · exact ⟨hclosed, List.dropLast_concat, rfl⟩

theorem isPrefix_dropLast {α : Type} {l m : List α} (h : l <+: m) :
    l.dropLast <+: m.dropLast := by
  obtain ⟨rest, rfl⟩ := h
  cases rest using List.reverseRecOn with
  | nil => rw [List.append_nil]
  | append_singleton rest last =>
      rw [← List.append_assoc, List.dropLast_concat]
      exact (List.dropLast_prefix l).trans (List.prefix_append l rest)

/-- The books of the run over the history, and of the run over its continuation. -/
theorem runLoop_continuation {books' : Books}
    (h : runLoop settings memory initialCash (bars ++ later) = .ok books') :
    ∃ books, runLoop settings memory initialCash bars = .ok books ∧
      books.state.equityCurve.dropLast <+: books'.state.equityCurve ∧
      books.state.diagnostics <+: books'.state.diagnostics ∧
      ∃ trades closing, books.state.trades = trades ++ closing ∧ trades <+: books'.state.trades ∧
        (closing = [] ∨ ∃ trade : TradeRecord,
          closing = [trade] ∧ trade.exitReason = .endOfBacktest) := by
  obtain ⟨loop', hloop', rfl⟩ := runLoop_eq_ok_iff.mp h
  obtain ⟨loop, hloop, hgrows⟩ := afterBars_appends hloop'
  have hpart := closes_liquidateOpen settings.executor loop.books loop.finalClose loop.finalDate
  have hfull :=
    closes_liquidateOpen settings.executor loop'.books loop'.finalClose loop'.finalDate
  obtain ⟨closing, htrades, hclosing⟩ := hpart.trades
  obtain ⟨closing', htrades', -⟩ := hfull.trades
  refine ⟨_, runLoop_eq_ok_iff.mpr ⟨loop, hloop, rfl⟩, ?_, ?_, loop.books.state.trades, closing,
    htrades, ?_, hclosing⟩
  · rw [hpart.equityCurve]
    refine (isPrefix_dropLast hgrows.equityCurve).trans ?_
    rw [← hfull.equityCurve]
    exact List.dropLast_prefix _
  · rw [hpart.diagnostics, hfull.diagnostics]
    exact hgrows.diagnostics
  · rw [htrades']
    exact hgrows.trades.trans (List.prefix_append _ _)

end Runs

/-! ## §3 Frames -/

section Frames

variable {ι σ : Type} {columns : List String} {rows later : List (Row ι)}

/-- A mask that selects no row of the longer frame selects none of the shorter one. -/
theorem maskError_append_eq_none {template : String} {mask : Row ι → Bool}
    (h : maskError ⟨columns, rows ++ later⟩ template mask = none) :
    maskError ⟨columns, rows⟩ template mask = none :=
  maskError_eq_none.mpr fun row hrow =>
    maskError_eq_none.mp h row (List.mem_append_left later hrow)

variable [LinearOrder ι]

theorem duplicated_append_eq_nil {seen : List ι} (h : duplicated seen (rows ++ later) = []) :
    duplicated seen rows = [] := by
  induction rows generalizing seen with
  | nil => rfl
  | cons row rows ih =>
      rw [List.cons_append] at h
      unfold duplicated at h ⊢
      split at h
      · cases h
      · next hnew =>
          rw [if_neg hnew]
          exact ih h

/-- A history is as valid as its continuation. -/
theorem validateBacktestFrame_append
    (h : validateBacktestFrame ⟨columns, rows ++ later⟩ = none) :
    validateBacktestFrame ⟨columns, rows⟩ = none := by
  unfold validateBacktestFrame at h ⊢
  simp only at h ⊢
  split at h
  · cases h
  · next hcolumns =>
      rw [if_neg hcolumns]
      simp only [firstError_eq_none, validateNumericPrices, validatePriceConsistency] at h ⊢
      obtain ⟨hindex, ⟨hna, hpositive⟩, hhigh, hbody, hlow⟩ := h
      refine ⟨?_, ⟨maskError_append_eq_none hna, maskError_append_eq_none hpositive⟩,
        maskError_append_eq_none hhigh, maskError_append_eq_none hbody,
        maskError_append_eq_none hlow⟩
      unfold validateIndex at hindex ⊢
      simp only at hindex ⊢
      split at hindex
      · cases hindex
      · next hnodup =>
          rw [duplicated_append_eq_nil hnodup]
          simp only
          split at hindex
          · next hsorted =>
              rw [List.map_append] at hsorted
              rw [if_pos (List.pairwise_append.mp hsorted).1]
          · cases hindex

end Frames

/-! ## §4 A position that the shorter run has to close -/

/-- A quiet row. -/
def quietRow (index : ℕ) (date : String) : Row ℕ where
  index := index
  label := date
  date := date
  openPrice := some 100
  high := some 101
  low := some 99
  close := some 100

/-- Buy ten on the first of some quiet rows. -/
def quietRun (rows : List (Row ℕ)) : Except PyError EngineOutput :=
  BacktestRunner.run
    { floatMath := { sqrt := fun _ => 0, pow := fun _ _ => 0 }, fromisoformat := fun _ => none }
    ⟨["open", "high", "low", "close"], rows⟩ replay [some buyTen] 10000 []

/-- The engine returned a result. -/
def EngineOutput.isResult : EngineOutput → Bool
  | .result _ => true
  | .error _ => false

end Finbar.Backtest
