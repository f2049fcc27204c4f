/-
Finbar.Backtest.StopTheorems — the protective stop of a leveraged position.

An entry may only have its stop strictly between liquidation price and entry
fill (`StopInside`), in every state of a run. The exit check looks at the
liquidation price first, then at gaps through stop and target, then at the
stop: `stop_closes_before_liquidation` says on which bars the stop is what
closes the position.

No `sorry`, no `axiom`.
-/
import Finbar.Backtest.ExitPriceTheorems

namespace Finbar.Backtest

open Lib.Python Lib.Run Finbar.Simulation

variable {σ : Type} {settings : RunSettings σ}

/-! ## §1 The stop lies inside the liquidation boundary -/

/-- The stop, if there is one, lies strictly between the liquidation price
and the entry fill. -/
def StopInside (position : SimulatedPosition) : Prop :=
  0 < position.stopPrice →
    (0 < position.size → position.liquidationPrice < position.stopPrice ∧
      position.stopPrice < position.entryPrice) ∧
    (position.size < 0 → position.entryPrice < position.stopPrice ∧
      position.stopPrice < position.liquidationPrice)

/-- `stop_valid` with leverage is exactly that the stop is inside. -/
theorem stopInside_openedPosition {config : ExecutionConfig}
    (hlev : 1 < config.leverageMultiplier) {entry : PendingEntry} {size : ℚ}
    (hsize : 0 < size) (rawPrice : ℚ) {fillPrice : ℚ} (date : String)
    (hstop : PositionOpener.stopValid config entry fillPrice = true) :
    StopInside
      (PositionOpener.openedPosition config entry size hsize rawPrice fillPrice date) := by
  intro hpos
  have hpos' : 0 < entry.stopPrice := hpos
  have hspot : config.leverage.isSpot = false := by
    rw [← Bool.not_eq_true, LeverageConfig.isSpot_iff]
    exact not_le.mpr hlev
  unfold PositionOpener.stopValid at hstop
  rw [if_neg (not_le.mpr hpos')] at hstop
  simp only [PositionOpener.openedPosition]
  cases hside : entry.direction with
  | long =>
      simp only [hside, true_and, hspot, if_true, LeverageConfig.validateStop,
        Bool.false_eq_true, if_false, reduceCtorEq, false_and] at hstop
      split at hstop
      · cases hstop
      · rename_i habove
        refine ⟨fun _ => ⟨of_decide_eq_true hstop, not_le.mp habove⟩, fun hneg => ?_⟩
        exact absurd hneg (not_lt.mpr hsize.le)
  | short =>
      simp only [hside, true_and, hspot, if_true, LeverageConfig.validateStop,
        Bool.false_eq_true, if_false, reduceCtorEq, false_and] at hstop
      split at hstop
      · cases hstop
      · rename_i hbelow
        refine ⟨fun hpos'' => ?_, fun _ => ⟨not_le.mp hbelow, of_decide_eq_true hstop⟩⟩
        exact absurd hpos'' (not_lt.mpr (neg_nonpos.mpr hsize.le))

/-- Every move keeps the stop inside. -/
theorem bookStep_stopInside {executor : PositionExecutor}
    (hlev : 1 < executor.config.leverageMultiplier) (books books' : Books)
    (h : BookStep executor books books') (hin : StopInside books.state.position) :
    StopInside books'.state.position := by
  cases h with
  | exit price date reason hopen => exact fun hpos => absurd hpos (lt_irrefl 0)
  | enter entry size hsize rawPrice fillPrice date hflat hstop =>
      exact stopInside_openedPosition hlev hsize rawPrice date hstop
  | fund =>
      unfold PositionExecutor.applyFunding
      cases books.margin with
      | none => exact hin
      | some account =>
          simp only [PositionExecutor.syncMarginEquity]
          split
          · exact hin
          · exact hin
  | sync =>
      unfold PositionExecutor.syncMarginEquity
      cases books.margin with
      | none => exact hin
      | some account => exact hin
  | keep state hsame =>
      rcases hsame.position with hp | hp
      · exact hp ▸ hin
      · simp only [hp]
        exact hin

/-! ## §2 Bars that reach a level -/

/-- The bar opens strictly on the safe side of the stop and its range
reaches the stop. -/
def ReachesStop (position : SimulatedPosition) (bar : Bar) : Prop :=
  (0 < position.size ∧ position.stopPrice < bar.openPrice ∧ bar.low ≤ position.stopPrice) ∨
    (position.size < 0 ∧ bar.openPrice < position.stopPrice ∧ position.stopPrice ≤ bar.high)

instance (position : SimulatedPosition) (bar : Bar) :
    Decidable (ReachesStop position bar) :=
  inferInstanceAs (Decidable (_ ∨ _))

/-- The bar opens at or through the target. -/
def OpensAtTarget (position : SimulatedPosition) (bar : Bar) : Prop :=
  0 < position.targetPrice ∧
    ((0 < position.size ∧ position.targetPrice ≤ bar.openPrice) ∨
      (position.size < 0 ∧ bar.openPrice ≤ position.targetPrice))

instance (position : SimulatedPosition) (bar : Bar) :
    Decidable (OpensAtTarget position bar) :=
  inferInstanceAs (Decidable (_ ∧ _))

/-- The bar's range reaches the liquidation price. -/
def ReachesLiquidation (position : SimulatedPosition) (bar : Bar) : Prop :=
  (0 < position.size ∧ bar.low ≤ position.liquidationPrice) ∨
    (position.size < 0 ∧ position.liquidationPrice ≤ bar.high)

instance (position : SimulatedPosition) (bar : Bar) :
    Decidable (ReachesLiquidation position bar) :=
  inferInstanceAs (Decidable (_ ∨ _))

/-- The exit check on the bar closes the position at a raw price, for a
reason. -/
def ClosedAt (settings : RunSettings σ) (bar : Bar) (loop : Loop σ) (price : ℚ)
    (reason : ExitReason) : Prop :=
  Ensures (runPhase settings bar loop .checkExitConditions) fun loop' =>
    loop'.books.state.position = .flat ∧
      ∃ line, newExits loop.books loop'.books = [line] ∧ line.exitPrice = price ∧
        line.exitReason = reason

/-- In every state in which the run checks a bar's exits: when the bar opens
strictly on the safe side of the open position's stop and its range reaches
the stop, the position is closed at the stop price for the reason
`stop_loss`. -/
def StopActsFirst (settings : RunSettings σ) (memory : σ) (initialCash : ℚ)
    (bars : List Bar) : Prop :=
  ∀ k bar loop, bars[k]? = some bar →
    duringBar settings memory initialCash bars k bar 1 = .ok loop →
    0 < loop.books.state.position.stopPrice →
    ReachesStop loop.books.state.position bar →
    ClosedAt settings bar loop loop.books.state.position.stopPrice .stopLoss

/-! ## §3 Which exit the check takes -/

/-- The exit that a bar forces is the exit the check takes. -/
theorem closedAt_of_forcedExit {bar : Bar} {loop : Loop σ} {price : ℚ}
    {reason : ExitReason}
    (h : settings.executor.forcedExit loop.books.state.position.hold bar.openPrice bar.high
      bar.low = some (price, reason)) : ClosedAt settings bar loop price reason := by
  refine ⟨_, rfl, ?_⟩
  unfold PositionExecutor.checkExitConditions
  simp only [h]
  exact ⟨rfl, _, newExits_append rfl, rfl, rfl⟩

/-- What the check does tells what exit the bar forced. -/
theorem forcedExit_of_closedAt {bar : Bar} {loop : Loop σ} {price price' : ℚ}
    {reason reason' : ExitReason}
    (h : settings.executor.forcedExit loop.books.state.position.hold bar.openPrice bar.high
      bar.low = some (price', reason'))
    (hclosed : ClosedAt settings bar loop price reason) : reason = reason' := by
  obtain ⟨after, hafter, -, line, hline, -, hreason⟩ := closedAt_of_forcedExit h
  obtain ⟨after', hafter', -, line', hline', -, hreason'⟩ := hclosed
  obtain rfl : after = after' := Except.ok.inj (hafter.symm.trans hafter')
  rw [hline, List.cons.injEq] at hline'
  rw [← hreason, ← hreason', hline'.1]

theorem checkLiquidation_not_reached {config : ExecutionConfig}
    {position : SimulatedPosition} {bar : Bar}
    (h : ¬ ReachesLiquidation position bar) :
    PositionCloser.checkLiquidation config position bar.high bar.low = none := by
  cases hliq : PositionCloser.checkLiquidation config position bar.high bar.low with
  | none => rfl
  | some liq => exact absurd (checkLiquidation_eq_some hliq).2 h

/-- A stop that the bar reaches from the safe side is what the resolver
takes, unless the bar opens at or through the target. -/
theorem resolve_stop {position : SimulatedPosition} {bar : Bar}
    (hpos : 0 < position.stopPrice) (hreach : ReachesStop position bar)
    (htarget : ¬ OpensAtTarget position bar) :
    IntrabarExitResolver.resolve position bar.openPrice bar.high bar.low
      = some (position.stopPrice, .stopLoss) := by
  unfold IntrabarExitResolver.resolve
  rcases hreach with ⟨hlong, hsafe, hlow⟩ | ⟨hshort, hsafe, hhigh⟩
  · have htarget' : ¬ (0 < position.targetPrice ∧ position.targetPrice ≤ bar.openPrice) :=
      fun h => htarget ⟨h.1, .inl ⟨hlong, h.2⟩⟩
    unfold IntrabarExitResolver.resolveLong
    rw [if_pos hlong, if_neg fun h => absurd hsafe (not_lt.mpr h.2), if_neg htarget',
      if_pos ⟨hpos, hlow⟩]
  · have htarget' : ¬ (0 < position.targetPrice ∧ bar.openPrice ≤ position.targetPrice) :=
      fun h => htarget ⟨h.1, .inr ⟨hshort, h.2⟩⟩
    unfold IntrabarExitResolver.resolveShort
    rw [if_neg (not_lt.mpr hshort.le), if_pos hshort,
      if_neg fun h => absurd hsafe (not_lt.mpr h.2), if_neg htarget', if_pos ⟨hpos, hhigh⟩]

/-- … and then the resolver takes the open. -/
theorem resolve_targetGap {position : SimulatedPosition} {bar : Bar}
    (hreach : ReachesStop position bar) (htarget : OpensAtTarget position bar) :
    IntrabarExitResolver.resolve position bar.openPrice bar.high bar.low
      = some (bar.openPrice, .takeProfitGap) := by
  obtain ⟨hpos, hside⟩ := htarget
  unfold IntrabarExitResolver.resolve
  rcases hreach with ⟨hlong, hsafe, -⟩ | ⟨hshort, hsafe, -⟩
  · have hthrough : position.targetPrice ≤ bar.openPrice := by
      rcases hside with h | h
      · exact h.2
      · exact absurd hlong (not_lt.mpr h.1.le)
    unfold IntrabarExitResolver.resolveLong
    rw [if_pos hlong, if_neg fun h => absurd hsafe (not_lt.mpr h.2),
      if_pos ⟨hpos, hthrough⟩]
  · have hthrough : bar.openPrice ≤ position.targetPrice := by
      rcases hside with h | h
      · exact absurd hshort (not_lt.mpr h.1.le)
      · exact h.2
    unfold IntrabarExitResolver.resolveShort
    rw [if_neg (not_lt.mpr hshort.le), if_pos hshort,
      if_neg fun h => absurd hsafe (not_lt.mpr h.2), if_pos ⟨hpos, hthrough⟩]

/-- **The protective stop of a leveraged position.** In every state in which
a leveraged run checks a bar's exits, the stop of the open position lies
strictly between liquidation price and entry fill; and on a bar that opens
strictly on its safe side, reaches it and does not reach the liquidation
price, the position is closed at the stop price for the reason `stop_loss`,
or, when the bar opens at or through the target, at the open for the reason
`take_profit_gap`. -/
theorem stop_closes_before_liquidation (settings : RunSettings σ) (memory : σ)
    (initialCash : ℚ) (bars : List Bar)
    (hlev : 1 < settings.executor.config.leverageMultiplier) (k : ℕ) (bar : Bar)
    (loop : Loop σ) (hloop : duringBar settings memory initialCash bars k bar 1 = .ok loop)
    (hstop : 0 < loop.books.state.position.stopPrice) :
    StopInside loop.books.state.position ∧
      (ReachesStop loop.books.state.position bar →
        ¬ ReachesLiquidation loop.books.state.position bar →
        (¬ OpensAtTarget loop.books.state.position bar →
          ClosedAt settings bar loop loop.books.state.position.stopPrice .stopLoss) ∧
        (OpensAtTarget loop.books.state.position bar →
          ClosedAt settings bar loop bar.openPrice .takeProfitGap)) := by
  have hinside := (ensures_duringBar (J := fun books => StopInside books.state.position)
    (zero_lt_one.trans hlev) (bookStep_stopInside hlev)
    (fun h => absurd h (lt_irrefl 0)) memory bars k bar 1).of_eq_ok hloop
  refine ⟨hinside, fun hreach hliq => ?_⟩
  have hnone : PositionCloser.checkLiquidation settings.executor.config
      loop.books.state.position.hold bar.high bar.low = none :=
    checkLiquidation_not_reached hliq
  have hforced : settings.executor.forcedExit loop.books.state.position.hold bar.openPrice
      bar.high bar.low = IntrabarExitResolver.resolve loop.books.state.position.hold
        bar.openPrice bar.high bar.low := by
    unfold PositionExecutor.forcedExit
    rw [hnone]
  constructor
  · intro htarget
    exact closedAt_of_forcedExit (hforced.trans (resolve_stop hstop hreach htarget))
  · intro htarget
    exact closedAt_of_forcedExit (hforced.trans (resolve_targetGap hreach htarget))

/-- A signal to buy ten with stop 90 and target 110. -/
def buyTenProtected : SignalResult :=
  { buyTen with stopPrice := 90, targetPrice := 110 }

/-- A bar that opens at 99 and falls to 88, through the stop at 90. -/
def stopBar : Bar where
  openPrice := 99
  high := 101
  low := 88
  close := 95
  date := "2024-01-03"
  low_pos := by norm_num
  low_le_open := by norm_num
  open_le_high := by norm_num
  low_le_close := by norm_num
  close_le_high := by norm_num

/-- The stop of the protected long of ten, on the bar that falls to 88. -/
theorem stop_closes_before_liquidation_long :
    ∃ loop, duringBar unfundedSettings [some buyTenProtected] 1000
        [quietBar "2024-01-01", quietBar "2024-01-02", stopBar] 2 stopBar 1 = .ok loop ∧
      ClosedAt unfundedSettings stopBar loop 90 .stopLoss := by
  obtain ⟨loop, hloop, hstop, hreach, hliq, htarget⟩ : Ensures
      (duringBar unfundedSettings [some buyTenProtected] 1000
        [quietBar "2024-01-01", quietBar "2024-01-02", stopBar] 2 stopBar 1)
      (fun loop => loop.books.state.position.stopPrice = 90 ∧
        ReachesStop loop.books.state.position stopBar ∧
        ¬ ReachesLiquidation loop.books.state.position stopBar ∧
        ¬ OpensAtTarget loop.books.state.position stopBar) :=
    Ensures.of_run (by decide +kernel)
  have h := stop_closes_before_liquidation unfundedSettings [some buyTenProtected] 1000
    [quietBar "2024-01-01", quietBar "2024-01-02", stopBar] (by decide +kernel) 2 stopBar
    loop hloop (by rw [hstop]; decide +kernel)
  have hclosed := (h.2 hreach hliq).1 htarget
  rw [hstop] at hclosed
  exact ⟨loop, hloop, hclosed⟩

/-! ## §4 Bars on which the stop does not act first -/

/-- An exit for another reason on a bar that reaches the stop. -/
theorem not_stopActsFirst_of_run {memory : σ} {initialCash : ℚ} {bars : List Bar} (k : ℕ)
    (bar : Bar) (price : ℚ) {reason : ExitReason} (hbar : bars[k]? = some bar)
    (hreason : reason ≠ .stopLoss)
    (h : Ensures (duringBar settings memory initialCash bars k bar 1) fun loop =>
      0 < loop.books.state.position.stopPrice ∧
        ReachesStop loop.books.state.position bar ∧
        settings.executor.forcedExit loop.books.state.position.hold bar.openPrice bar.high
          bar.low = some (price, reason)) :
    ¬ StopActsFirst settings memory initialCash bars := by
  intro hclaim
  obtain ⟨loop, hloop, hstop, hreach, hforced⟩ := h
  have hclosed := hclaim k bar loop hbar hloop hstop hreach
  exact hreason (forcedExit_of_closedAt hforced hclosed).symm

/-- A bar that opens at 112, above the target, and falls to 85. -/
def targetGapBar : Bar where
  openPrice := 112
  high := 113
  low := 85
  close := 100
  date := "2024-01-03"
  low_pos := by norm_num
  low_le_open := by norm_num
  open_le_high := by norm_num
  low_le_close := by norm_num
  close_le_high := by norm_num

/-- A bar that opens at 99 and falls to 60, through the stop at 90 and the
liquidation price at 67.17. -/
def deepBar : Bar where
  openPrice := 99
  high := 101
  low := 60
  close := 70
  date := "2024-01-03"
  low_pos := by norm_num
  low_le_open := by norm_num
  open_le_high := by norm_num
  low_le_close := by norm_num
  close_le_high := by norm_num

/-- The stop does not act first on every bar that reaches it: a bar that
opens above the target is closed at its open, and a bar that also reaches
the liquidation price is liquidated there. -/
theorem target_gap_not_stopActsFirst :
    ¬ StopActsFirst unfundedSettings [some buyTenProtected] 1000
        [quietBar "2024-01-01", quietBar "2024-01-02", targetGapBar] ∧
      ¬ StopActsFirst unfundedSettings [some buyTenProtected] 1000
        [quietBar "2024-01-01", quietBar "2024-01-02", deepBar] := by
  constructor
  · have hgap : ExitReason.takeProfitGap ≠ .stopLoss := by decide
    exact not_stopActsFirst_of_run 2 targetGapBar 112 rfl hgap
      (Ensures.of_run (by decide +kernel))
  · have hliquidated : ExitReason.liquidation ≠ .stopLoss := by decide
    exact not_stopActsFirst_of_run 2 deepBar (20150 / 300) rfl hliquidated
      (Ensures.of_run (by decide +kernel))

end Finbar.Backtest
