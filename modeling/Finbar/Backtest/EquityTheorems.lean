/-
Finbar.Backtest.EquityTheorems — the equity curve has one point for each
tradable bar.

Only `track_equity` appends to the curve and only `liquidate_open` rewrites
its last point, keeping its date. After `k` iterations the dates of the
curve are those of the bars from the first tradable index to `k`
(`afterBars_equityDates`); at the end of the run they are those of all
tradable bars (`runLoop_equityDates`).

No `sorry`, no `axiom`.
-/
import Finbar.Backtest.RunTheorems

namespace Finbar.Backtest

open Lib.Python Lib.Run Finbar.Simulation

/-- The dates of the equity curve. -/
def equityDates (books : Books) : List String :=
  books.state.equityCurve.map EquityPoint.date

variable {σ : Type} {settings : RunSettings σ}

/-! ## §1 Phases -/

/-- Two simulation states with the same equity curve, and the same peak. -/
structure SameCurve (s s' : SimulationState) : Prop where
  equityCurve : s'.equityCurve = s.equityCurve
  peakValue : s'.peakValue = s.peakValue

theorem SameCurve.refl (s : SimulationState) : SameCurve s s :=
  ⟨rfl, rfl⟩

theorem SameCurve.trans {s t u : SimulationState} (h : SameCurve s t) (h' : SameCurve t u) :
    SameCurve s u :=
  ⟨h'.equityCurve.trans h.equityCurve, h'.peakValue.trans h.peakValue⟩

theorem enter_sameCurve {executor : PositionExecutor} {books books' : Books}
    {entry : PendingEntry} {price : ℚ} {date : String}
    (h : executor.enter books entry price date = .ok books') :
    SameCurve books.state books'.state := by
  obtain ⟨state, hframe, hcases⟩ := enter_cases h
  have hsized : SameCurve books.state state := by
    rw [hframe]
    exact ⟨rfl, rfl⟩
  rcases hcases with rfl | ⟨size, hsize, -, -, -, rfl⟩
  · exact hsized
  · exact hsized.trans ⟨rfl, rfl⟩

theorem executePending_sameCurve {executor : PositionExecutor} {books books' : Books}
    {price : ℚ} {date : String}
    (h : executePending executor books price date = .ok books') :
    SameCurve books.state books'.state := by
  have hexit : SameCurve books.state (executePendingExit executor books price date).state := by
    unfold executePendingExit
    split
    · exact ⟨rfl, rfl⟩
    · exact .refl _
  obtain rfl | ⟨entry, -, -, henter⟩ := executePending_cases rfl h
  · exact hexit
  · have hentered := enter_sameCurve henter
    exact hexit.trans ⟨hentered.equityCurve, hentered.peakValue⟩

theorem queueSignal_sameCurve (state : SimulationState) (signal : SignalResult)
    (close riskPerTrade : ℚ) :
    SameCurve state (queueSignal state signal close riskPerTrade) := by
  unfold queueSignal
  split
  · exact ⟨rfl, rfl⟩
  · split
    · split
      · exact ⟨rfl, rfl⟩
      · exact .refl state
    · exact .refl state

theorem syncMarginEquity_sameCurve (books : Books) :
    SameCurve books.state (PositionExecutor.syncMarginEquity books).state := by
  unfold PositionExecutor.syncMarginEquity
  cases books.margin with
  | none => exact .refl _
  | some account => exact ⟨rfl, rfl⟩

/-- A phase other than `track_equity` leaves the equity curve alone. -/
theorem runPhase_sameCurve {bar : Bar} {loop loop' : Loop σ} {phase : Phase}
    (hphase : phase ≠ .trackEquity) (h : runPhase settings bar loop phase = .ok loop') :
    SameCurve loop.books.state loop'.books.state := by
  cases phase with
  | executePending =>
      obtain ⟨books, hbooks, hpure⟩ := bind_eq_ok.mp h
      obtain rfl := Except.ok.inj hpure
      exact executePending_sameCurve hbooks
  | checkExitConditions =>
      obtain rfl := Except.ok.inj h
      simp only [PositionExecutor.checkExitConditions]
      split
      · exact ⟨rfl, rfl⟩
      · exact ⟨rfl, rfl⟩
  | checkMarginCall =>
      obtain rfl := Except.ok.inj h
      simp only [PositionExecutor.checkMarginCall]
      split
      · exact .refl _
      · split
        · exact ⟨rfl, rfl⟩
        · exact .refl _
  | applyFunding =>
      obtain rfl := Except.ok.inj h
      simp only [PositionExecutor.applyFunding]
      cases loop.books.margin with
      | none => exact .refl _
      | some account =>
          simp only [PositionExecutor.syncMarginEquity]
          split
          · exact ⟨rfl, rfl⟩
          · exact ⟨rfl, rfl⟩
  | processSignal =>
      obtain rfl := Except.ok.inj h
      simp only [processSignal]
      split
      · exact .refl _
      · exact queueSignal_sameCurve ..
  | trackEquity => exact absurd rfl hphase
  | syncMarginEquity =>
      obtain rfl := Except.ok.inj h
      exact syncMarginEquity_sameCurve loop.books

/-- Phases other than `track_equity` leave the equity curve alone. -/
theorem runPhases_sameCurve {bar : Bar} {phases : List Phase} {loop loop' : Loop σ}
    (hphases : Phase.trackEquity ∉ phases)
    (h : phases.foldlM (runPhase settings bar) loop = .ok loop') :
    SameCurve loop.books.state loop'.books.state := by
  induction phases generalizing loop with
  | nil =>
      obtain rfl := Except.ok.inj h
      exact .refl _
  | cons phase phases ih =>
      rw [List.foldlM_cons, bind_eq_ok] at h
      obtain ⟨next, hnext, h⟩ := h
      have hne : phase ≠ .trackEquity := fun hc => hphases (hc ▸ List.mem_cons_self)
      exact (runPhase_sameCurve hne hnext).trans
        (ih (fun hmem => hphases (List.mem_cons_of_mem phase hmem)) h)

/-- A tradable iteration that returns, cut before `track_equity`. -/
theorem tradableBar_split {bar : Bar} {loop loop' : Loop σ}
    (h : Phase.all.foldlM (runPhase settings bar) loop = .ok loop') :
    ∃ signalled, (Phase.all.take 5).foldlM (runPhase settings bar) loop = .ok signalled ∧
      SameCurve loop.books.state signalled.books.state ∧
      loop' = { signalled with
        books := PositionExecutor.syncMarginEquity
          { signalled.books with
            state := trackEquity signalled.books.state bar.close bar.date } } := by
  have hsplit : Phase.all = Phase.all.take 5 ++ (.trackEquity :: [.syncMarginEquity]) := rfl
  rw [hsplit, List.foldlM_append, bind_eq_ok] at h
  obtain ⟨signalled, hsignalled, h⟩ := h
  have hbefore := runPhases_sameCurve (by decide) hsignalled
  exact ⟨signalled, hsignalled, hbefore, (Except.ok.inj h).symm⟩

/-! ## §2 Iterations -/

/-- A tradable iteration appends its bar's date. -/
theorem tradableBar_equityDates {bar : Bar} {loop loop' : Loop σ}
    (h : Phase.all.foldlM (runPhase settings bar) loop = .ok loop') :
    equityDates loop'.books = equityDates loop.books ++ [bar.date] := by
  obtain ⟨signalled, -, hbefore, rfl⟩ := tradableBar_split h
  unfold equityDates
  rw [(syncMarginEquity_sameCurve _).equityCurve]
  simp only [trackEquity, List.map_append, List.map_cons, List.map_nil]
  rw [hbefore.equityCurve]

/-- **One point for each tradable bar.** After `k` iterations the equity
curve has the dates of the bars from the first tradable index to `k`. -/
theorem afterBars_equityDates {memory : σ} {initialCash : ℚ} {bars : List Bar} {k : ℕ}
    {loop : Loop σ} (h : afterBars settings memory initialCash bars k = .ok loop) :
    equityDates loop.books
      = ((bars.take k).drop settings.firstTradableIndex).map Bar.date := by
  induction k generalizing loop with
  | zero =>
      cases h
      rw [List.take_zero, List.drop_nil]
      rfl
  | succ k ih =>
      cases hbar : bars[k]? with
      | none =>
          have hlen : bars.length ≤ k := List.getElem?_eq_none_iff.mp hbar
          have hzip : bars.zipIdx.length ≤ k := by rwa [List.length_zipIdx]
          unfold afterBars at h ih
          rw [foldlM_take_of_length_le _ (hzip.trans (Nat.le_succ k)),
            ← foldlM_take_of_length_le _ hzip] at h
          rw [List.take_of_length_le (hlen.trans (Nat.le_succ k)),
            ← List.take_of_length_le hlen]
          exact ih h
      | some bar =>
          rw [afterBars_succ settings memory initialCash hbar, bind_eq_ok] at h
          obtain ⟨before, hbefore, hiter⟩ := h
          have hdates := ih hbefore
          have hk : k < bars.length := (List.getElem?_eq_some_iff.mp hbar).1
          have htake : bars.take (k + 1) = bars.take k ++ [bar] := by
            rw [List.take_add_one, hbar]
            rfl
          have hlength : (bars.take k).length = k := List.length_take_of_le hk.le
          unfold iteration at hiter
          simp only at hiter
          split at hiter
          · rename_i hwarmup
            cases hiter
            have hnone : (bars.take (k + 1)).drop settings.firstTradableIndex = [] :=
              List.drop_eq_nil_of_le (by rw [htake, List.length_append, hlength]; exact hwarmup)
            have hnone' : (bars.take k).drop settings.firstTradableIndex = [] :=
              List.drop_eq_nil_of_le (by rw [hlength]; exact hwarmup.le)
            rw [hnone]
            rw [hnone'] at hdates
            exact hdates
          · rename_i htradable
            rw [tradableBar_equityDates hiter, htake,
              List.drop_append_of_le_length (by rw [hlength]; exact not_lt.mp htradable),
              List.map_append]
            exact congrArg (· ++ [bar.date]) hdates

/-! ## §3 The whole run -/

/-- The closing liquidation keeps the dates of the curve. -/
theorem liquidateOpen_equityDates (executor : PositionExecutor) (books : Books)
    (finalClose : ℚ) (finalDate : String) :
    equityDates (executor.liquidateOpen books finalClose finalDate) = equityDates books := by
  unfold PositionExecutor.liquidateOpen
  split
  · rfl
  · simp only
    split
    · rfl
    · rename_i last hlast
      have hcurve : books.state.equityCurve = books.state.equityCurve.dropLast ++ [last] :=
        (List.dropLast_append_getLast? last hlast).symm
      unfold equityDates
      rw [hcurve]
      simp only [PositionExecutor.exitPosition, PositionCloser.close, List.map_append,
        List.map_cons, List.map_nil]

/-- The equity curve of a run has the dates of its tradable bars. -/
theorem runLoop_equityDates {memory : σ} {initialCash : ℚ} {bars : List Bar}
    {books : Books} (h : runLoop settings memory initialCash bars = .ok books) :
    equityDates books = (bars.drop settings.firstTradableIndex).map Bar.date := by
  obtain ⟨loop, hloop, rfl⟩ := runLoop_eq_ok_iff.mp h
  rw [liquidateOpen_equityDates, afterBars_equityDates hloop, List.take_length]

end Finbar.Backtest
