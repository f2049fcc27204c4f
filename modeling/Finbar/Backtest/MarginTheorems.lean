/-
Finbar.Backtest.MarginTheorems — what is known of a leveraged position.

An open position was filled at a positive price and carries the liquidation
price of its fill (`LeveragedWell`). So a liquidation loses, as long as the
maintenance margin is below the initial one (`liquidations_lose`).

The margin of a position is reserved by the opener and released by the closer,
which does nothing without leverage; the manager books it for longs only.
`Booked` says what is reserved in every state of a run, `marginReserved_iff`
when that is the margin of the open position.

No `sorry`, no `axiom`.
-/
import Finbar.Backtest.ExitPriceTheorems
import Mathlib.Algebra.Order.BigOperators.Group.List

namespace Finbar.Backtest

open Lib Lib.Python Lib.Run Finbar.Simulation

variable {σ : Type} {settings : RunSettings σ}

/-! ## §1 Fills and liquidation prices -/

/-- An open position has a positive fill, and the liquidation price of it. -/
structure LeveragedWell (config : ExecutionConfig) (position : SimulatedPosition) : Prop where
  entryPrice : position.size ≠ 0 → 0 < position.entryPrice
  liquidationPrice : ∀ side, position.direction = some side →
    position.liquidationPrice = config.leverage.liquidationPrice position.entryPrice side

theorem leveragedWell_flat (config : ExecutionConfig) : LeveragedWell config .flat :=
  ⟨fun h => absurd rfl h, fun _ h => nomatch h⟩

theorem leveragedWell_sameAccounts {config : ExecutionConfig} {s s' : SimulationState}
    (h : SameAccounts s s') (hs : LeveragedWell config s.position) :
    LeveragedWell config s'.position := by
  rcases h.position with hp | hp
  · rw [hp]
    exact hs
  · rw [hp]
    exact ⟨hs.entryPrice, hs.liquidationPrice⟩

/-- Two books that agree in what positions and margins are. -/
structure SameMargin (books books' : Books) : Prop where
  position : books'.state.position = books.state.position
  trades : books'.state.trades = books.state.trades
  usedMargin : books'.state.usedMargin = books.state.usedMargin
  exitLog : books'.exitLog = books.exitLog
  marginBook : books'.margin.map MarginAccount.marginBook
    = books.margin.map MarginAccount.marginBook

theorem syncMarginEquity_sameMargin (books : Books) :
    SameMargin books (PositionExecutor.syncMarginEquity books) := by
  unfold PositionExecutor.syncMarginEquity
  split
  · exact ⟨rfl, rfl, rfl, rfl, rfl⟩
  · exact ⟨rfl, rfl, rfl, rfl, rfl⟩

theorem managerFunding_marginBook (config : ExecutionConfig) (account : MarginAccount)
    (position : SimulatedPosition) :
    (MarginAccountManager.applyFunding config account position).1.marginBook
      = account.marginBook := by
  unfold MarginAccountManager.applyFunding
  split
  · rfl
  · simp only
    split
    · rfl
    · rfl

theorem applyFunding_sameMargin (executor : PositionExecutor) (books : Books) :
    SameMargin books (executor.applyFunding books) := by
  unfold PositionExecutor.applyFunding
  cases hmargin : books.margin with
  | none => exact ⟨rfl, rfl, rfl, rfl, rfl⟩
  | some account =>
      have hbook := managerFunding_marginBook executor.config account books.state.position
      simp only [PositionExecutor.syncMarginEquity]
      refine ⟨?_, ?_, ?_, rfl, ?_⟩
      · split
        · rfl
        · rfl
      · split
        · rfl
        · rfl
      · split
        · rfl
        · rfl
      · rw [hmargin]
        exact congrArg some hbook

/-- An entry fills at a positive price while slippage is below one. -/
theorem leveragedWell_openedPosition {executor : PositionExecutor}
    (hslippage : executor.config.slippagePct < 1) (entry : PendingEntry) {size : ℚ}
    (hsize : 0 < size) {rawPrice : ℚ} (hprice : 0 < rawPrice) (date : String) :
    LeveragedWell executor.config
      (PositionOpener.openedPosition executor.config entry size hsize rawPrice
        (executor.entryFill entry rawPrice) date) := by
  constructor
  · exact fun _ => applySlippage_pos hprice hslippage _ _
  · intro side hside
    obtain rfl : entry.direction = side := Option.some.inj hside
    rfl

/-! ## §2 A liquidation loses -/

/-- A trade that was liquidated has lost before costs. -/
def LosesIfLiquidated (trade : TradeRecord) : Prop :=
  trade.exitReason = .liquidation → trade.grossPnl < 0

/-- The liquidation price of a long is below its fill, that of a short above. -/
def LiquidatedBeyondEntry (line : ExitLine) : Prop :=
  line.exitReason = .liquidation →
    (line.direction = some .long → line.exitPrice < line.entryPrice) ∧
      (line.direction = some .short → line.entryPrice < line.exitPrice)

/-- The maintenance margin is below the initial one. -/
def MaintenanceBelowInitial (config : ExecutionConfig) : Prop :=
  config.maintenanceMarginPct < 1 / config.leverageMultiplier

theorem liquidationPrice_long_lt {config : ExecutionConfig}
    (hlev : 1 < config.leverageMultiplier) (hmargin : MaintenanceBelowInitial config)
    {entryPrice : ℚ} (hentry : 0 < entryPrice) :
    config.leverage.liquidationPrice entryPrice .long < entryPrice := by
  unfold LeverageConfig.liquidationPrice
  rw [ExecutionConfig.leverage_multiplier, if_neg (not_le.mpr hlev)]
  refine mul_lt_of_lt_one_right hentry ?_
  have hbelow : config.maintenanceMarginPct < 1 / config.leverageMultiplier := hmargin
  show 1 - 1 / config.leverageMultiplier + config.maintenanceMarginPct < 1
  linarith

theorem lt_liquidationPrice_short {config : ExecutionConfig}
    (hlev : 1 < config.leverageMultiplier) (hmargin : MaintenanceBelowInitial config)
    {entryPrice : ℚ} (hentry : 0 < entryPrice) :
    entryPrice < config.leverage.liquidationPrice entryPrice .short := by
  unfold LeverageConfig.liquidationPrice
  rw [ExecutionConfig.leverage_multiplier, if_neg (not_le.mpr hlev)]
  refine lt_mul_of_one_lt_right hentry ?_
  have hbelow : config.maintenanceMarginPct < 1 / config.leverageMultiplier := hmargin
  show 1 < 1 + 1 / config.leverageMultiplier - config.maintenanceMarginPct
  linarith

/-- The exit fill of a long is no better than the raw price, as far as that is
below a positive bound. -/
theorem exitSlippage_long_lt {price bound slippagePct : ℚ} (hslippage : slippagePct < 1)
    (hbound : 0 < bound) (h : price < bound) :
    applySlippage price (some .long) .exit slippagePct < bound := by
  unfold applySlippage
  split
  · exact h
  · rename_i hpos
    simp only [slippageSign]
    by_cases hprice : 0 ≤ price
    · nlinarith
    · nlinarith

theorem lt_exitSlippage_short {price bound slippagePct : ℚ} (hbound : 0 < bound)
    (h : bound < price) : bound < applySlippage price (some .short) .exit slippagePct := by
  unfold applySlippage
  split
  · exact h
  · rename_i hpos
    simp only [slippageSign]
    nlinarith

/-- **Closing at the liquidation price loses.** -/
theorem liquidation_loses {executor : PositionExecutor}
    (hlev : 1 < executor.config.leverageMultiplier)
    (hmargin : MaintenanceBelowInitial executor.config)
    (hslippage : executor.config.slippagePct < 1) {position : SimulatedPosition}
    (hopen : position.size ≠ 0) (hwell : LeveragedWell executor.config position) :
    ((position.direction = some .long → position.liquidationPrice < position.entryPrice) ∧
      (position.direction = some .short → position.entryPrice < position.liquidationPrice)) ∧
    PositionCloser.calcPnl position.size position.entryPrice
      (PositionCloser.exitFill executor.config position position.liquidationPrice)
      |position.size| < 0 := by
  have hentry := hwell.entryPrice hopen
  have haligned := position.aligned
  unfold PositionCloser.exitFill PositionCloser.calcPnl
  cases hd : position.direction with
  | none =>
      rw [hd] at haligned
      exact absurd haligned hopen
  | some side =>
      rw [hd] at haligned
      have hliq := hwell.liquidationPrice side hd
      cases side with
      | long =>
          have hlong : 0 < position.size := haligned
          have hbelow := liquidationPrice_long_lt hlev hmargin hentry
          rw [← hliq] at hbelow
          refine ⟨⟨fun _ => hbelow, fun h => nomatch h⟩, ?_⟩
          rw [if_pos hlong, abs_of_pos hlong]
          exact mul_neg_of_neg_of_pos
            (sub_neg_of_lt (exitSlippage_long_lt hslippage hentry hbelow)) hlong
      | short =>
          have hshort : position.size < 0 := haligned
          have habove := lt_liquidationPrice_short hlev hmargin hentry
          rw [← hliq] at habove
          refine ⟨⟨fun h => (nomatch h), fun _ => habove⟩, ?_⟩
          rw [if_neg (not_lt.mpr hshort.le)]
          exact mul_neg_of_neg_of_pos (sub_neg_of_lt (lt_exitSlippage_short hentry habove))
            (abs_pos.mpr hopen)

/-- What is known of the position and of every liquidation so far. -/
structure LiquidationsLose (config : ExecutionConfig) (books : Books) : Prop where
  position : LeveragedWell config books.state.position
  trades : ∀ trade ∈ books.state.trades, LosesIfLiquidated trade
  lines : ∀ line ∈ books.exitLog, LiquidatedBeyondEntry line

theorem pricedStep_liquidationsLose {executor : PositionExecutor}
    (hlev : 1 < executor.config.leverageMultiplier)
    (hmargin : MaintenanceBelowInitial executor.config)
    (hslippage : executor.config.slippagePct < 1) (books books' : Books)
    (h : PricedStep executor books books') (hl : LiquidationsLose executor.config books) :
    LiquidationsLose executor.config books' := by
  cases h with
  | exit price date reason hopen hliquidation =>
      obtain ⟨hbeyond, hloss⟩ := liquidation_loses hlev hmargin hslippage hopen hl.position
      refine ⟨leveragedWell_flat _, ?_, ?_⟩
      · intro trade htrade
        rcases List.mem_append.mp htrade with hold | hnew
        · exact hl.trades trade hold
        · obtain rfl := List.mem_singleton.mp hnew
          intro hreason
          obtain rfl := hliquidation hreason
          exact hloss
      · intro line hline
        rcases List.mem_append.mp hline with hold | hnew
        · exact hl.lines line hold
        · obtain rfl := List.mem_singleton.mp hnew
          intro hreason
          obtain rfl := hliquidation hreason
          exact hbeyond
  | enter entry size hsize rawPrice date hflat hprice hstop =>
      exact ⟨leveragedWell_openedPosition hslippage entry hsize hprice date, hl.trades, hl.lines⟩
  | fund =>
      have hsame := applyFunding_sameMargin executor books
      exact ⟨hsame.position ▸ hl.position, hsame.trades ▸ hl.trades, hsame.exitLog ▸ hl.lines⟩
  | sync =>
      have hsame := syncMarginEquity_sameMargin books
      exact ⟨hsame.position ▸ hl.position, hsame.trades ▸ hl.trades, hsame.exitLog ▸ hl.lines⟩
  | keep state hsame =>
      exact ⟨leveragedWell_sameAccounts hsame hl.position,
        fun trade htrade => hl.trades trade (hsame.trades ▸ htrade), hl.lines⟩

/-- A run at 300 times leverage, with the default maintenance margin. -/
def extremeSettings : RunSettings (List (Option SignalResult)) where
  strategy := replay
  riskPerTrade := 2 / 100
  executor := { config := { leverageMultiplier := 300 }, fromisoformat := fun _ => none }

/-- The entry notional of a position. -/
def notional (position : SimulatedPosition) : ℚ :=
  |position.size| * position.entryPrice

/-- The entry notional of the closed trades. -/
def closedNotional (state : SimulationState) : ℚ :=
  (state.trades.map fun trade => trade.size * trade.entryPrice).sum

/-- **What is reserved.** The notional of the open position, and without
leverage of the closed ones too; in the account, of a long only. -/
structure Booked (config : ExecutionConfig) (books : Books) : Prop where
  position : LeveragedWell config books.state.position
  trades : ∀ trade ∈ books.state.trades, 0 < trade.size * trade.entryPrice
  used : books.state.usedMargin
    = (notional books.state.position
      + if 1 < config.leverageMultiplier then 0 else closedNotional books.state)
      / config.leverageMultiplier
  book : ∀ amount ∈ books.margin.map MarginAccount.marginBook, amount
    = if 0 < books.state.position.size then
        notional books.state.position / config.leverageMultiplier
      else 0
  mode : books.margin.isSome = true ↔ config.marginMode = .full

@[simp] theorem notional_flat : notional .flat = 0 := by
  unfold notional
  exact (congrArg (· * _) abs_zero).trans (zero_mul _)

theorem notional_of_size_zero {position : SimulatedPosition} (h : position.size = 0) :
    notional position = 0 := by
  unfold notional
  rw [h, abs_zero, zero_mul]

theorem notional_pos {config : ExecutionConfig} {position : SimulatedPosition}
    (hwell : LeveragedWell config position) (hopen : position.size ≠ 0) :
    0 < notional position :=
  mul_pos (abs_pos.mpr hopen) (hwell.entryPrice hopen)

/-- What the closer releases of a position reserved in full. -/
theorem releaseMargin_eq {config : ExecutionConfig} {position : SimulatedPosition}
    (hwell : LeveragedWell config position) (hopen : position.size ≠ 0) (closed : ℚ) :
    PositionCloser.releaseMargin config
        ((notional position + if 1 < config.leverageMultiplier then 0 else closed)
          / config.leverageMultiplier)
        |position.size| position.entryPrice
      = (if 1 < config.leverageMultiplier then 0 else closed + notional position)
        / config.leverageMultiplier := by
  have hentry := hwell.entryPrice hopen
  unfold PositionCloser.releaseMargin
  by_cases hlevered : 1 < config.leverageMultiplier
  · have hspot : config.leverage.isSpot = false := by
      rw [← Bool.not_eq_true, LeverageConfig.isSpot_iff]
      exact not_le.mpr hlevered
    rw [if_pos ⟨hspot, hentry⟩, if_pos hlevered, if_pos hlevered, add_zero, notional, sub_self,
      max_self, zero_div]
  · have hspot : config.leverage.isSpot = true :=
      (LeverageConfig.isSpot_iff _).mpr (not_lt.mp hlevered)
    rw [if_neg fun h => Bool.false_ne_true (h.1.symm.trans hspot), if_neg hlevered,
      if_neg hlevered, add_comm]

/-- The account releases what it has booked. -/
theorem settleExit_marginBook {config : ExecutionConfig} {account : MarginAccount}
    {cash absSize entryPrice : ℚ} (hlev : 0 < config.leverageMultiplier)
    (hpos : 0 < absSize * entryPrice)
    (hbook : account.marginBook = absSize * entryPrice / config.leverageMultiplier ∨
      account.marginBook = 0) :
    (MarginAccountManager.settleExit config account cash absSize entryPrice).marginBook
      = 0 := by
  have hmargin : 0 < absSize * entryPrice / config.leverageMultiplier := div_pos hpos hlev
  simp only [MarginAccountManager.settleExit, MarginAccount.releaseMargin,
    MarginAccountManager.marginOf, if_pos hlev]
  rcases hbook with hbook | hbook
  · rw [hbook, min_self, min_self, sub_self]
  · rw [hbook, min_eq_right hmargin.le, min_self, sub_self]

/-- The account books the margin of a long. -/
theorem mirrorEntry_marginBook {config : ExecutionConfig} (hlev : 0 < config.leverageMultiplier)
    (side : Side) {account : MarginAccount} (hbook : account.marginBook = 0)
    (stateCash cost fee : ℚ) :
    (PositionOpener.mirrorEntry config side account stateCash cost fee).marginBook
      = match side with
        | .long => cost / config.leverageMultiplier
        | .short => 0 := by
  cases side with
  | long =>
      simp only [PositionOpener.mirrorEntry, MarginAccountManager.lockEntryMargin,
        MarginAccountManager.marginOf, if_pos hlev, hbook, zero_add]
  | short => exact hbook

theorem notional_openedPosition (config : ExecutionConfig) (entry : PendingEntry) {size : ℚ}
    (hsize : 0 < size) (rawPrice fillPrice : ℚ) (date : String) :
    notional (PositionOpener.openedPosition config entry size hsize rawPrice fillPrice date)
      = size * fillPrice := by
  unfold notional
  simp only [PositionOpener.openedPosition]
  rw [abs_signedSize _ hsize]

theorem booked_of_sameMargin {config : ExecutionConfig} {books books' : Books}
    (h : SameMargin books books') (hb : Booked config books) : Booked config books' := by
  obtain ⟨state', margin', log'⟩ := books'
  have hclosed : closedNotional state' = closedNotional books.state := by
    unfold closedNotional
    rw [h.trades]
  have hsome : margin'.isSome = books.margin.isSome := by
    have hmapped := congrArg Option.isSome h.marginBook
    simpa only [Option.isSome_map] using hmapped
  exact ⟨h.position ▸ hb.position, h.trades ▸ hb.trades,
    by rw [h.usedMargin, h.position, hclosed]; exact hb.used,
    by rw [h.marginBook, h.position]; exact hb.book, by rw [hsome]; exact hb.mode⟩

section Moves

variable {executor : PositionExecutor} {books : Books}

/-- An exit releases the margin of the position. -/
theorem exitPosition_booked (hlev : 0 < executor.config.leverageMultiplier)
    (hb : Booked executor.config books) (price : ℚ) (date : String) (reason : ExitReason)
    (hopen : books.state.position.size ≠ 0) :
    Booked executor.config (executor.exitPosition books price date reason) := by
  have hpos := notional_pos hb.position hopen
  refine ⟨leveragedWell_flat _, ?_, ?_, ?_, ?_⟩
  · intro trade htrade
    rcases List.mem_append.mp htrade with hold | hnew
    · exact hb.trades trade hold
    · obtain rfl := List.mem_singleton.mp hnew
      exact hpos
  · have hclosed : closedNotional
        (executor.exitPosition books price date reason).state
        = closedNotional books.state + notional books.state.position := by
      unfold closedNotional PositionExecutor.exitPosition PositionCloser.close
      simp only [List.map_append, List.map_cons, List.map_nil, List.sum_append,
        List.sum_cons, List.sum_nil, add_zero]
      rfl
    have hreleased := releaseMargin_eq hb.position hopen (closedNotional books.state)
    rw [← hb.used] at hreleased
    have hflat : (executor.exitPosition books price date reason).state.position = .flat := rfl
    rw [hclosed, hflat, notional_flat, zero_add]
    exact hreleased
  · intro amount hamount
    rw [Option.mem_def, Option.map_eq_some_iff] at hamount
    obtain ⟨account, haccount, rfl⟩ := hamount
    obtain ⟨before, hbefore, rfl⟩ := Option.map_eq_some_iff.mp haccount
    have hbook := hb.book before.marginBook (Option.mem_def.mpr (by rw [hbefore]; rfl))
    refine (settleExit_marginBook hlev hpos ?_).trans
      (if_neg (lt_irrefl _ : ¬ (0 : ℚ) < 0)).symm
    by_cases hlong : 0 < books.state.position.size
    · rw [if_pos hlong] at hbook
      exact .inl hbook
    · rw [if_neg hlong] at hbook
      exact .inr hbook
  · exact (by rw [← hb.mode]; exact (congrArg (· = true) Option.isSome_map).to_iff)

/-- An entry reserves the margin of its notional. -/
theorem openedBooks_booked (hlev : 0 < executor.config.leverageMultiplier)
    (hslippage : executor.config.slippagePct < 1) (hb : Booked executor.config books)
    (entry : PendingEntry) {size : ℚ} (hsize : 0 < size) {rawPrice : ℚ} (hprice : 0 < rawPrice)
    (date : String) (hflat : books.state.position.size = 0) :
    Booked executor.config
      (PositionOpener.openedBooks executor.config books entry size hsize rawPrice
        (executor.entryFill entry rawPrice) date
        (size * executor.entryFill entry rawPrice / executor.config.leverageMultiplier)) := by
  have hwell := leveragedWell_openedPosition hslippage entry hsize hprice date
  have hnotional := notional_openedPosition executor.config entry hsize rawPrice
    (executor.entryFill entry rawPrice) date
  refine ⟨hwell, hb.trades, ?_, ?_, ?_⟩
  · have hused := hb.used
    rw [notional_of_size_zero hflat, zero_add] at hused
    have hadded : books.state.usedMargin
        + size * executor.entryFill entry rawPrice / executor.config.leverageMultiplier
        = (size * executor.entryFill entry rawPrice
          + if 1 < executor.config.leverageMultiplier then 0
            else closedNotional books.state) / executor.config.leverageMultiplier := by
      rw [hused]
      ring
    exact hadded.trans (by rw [← hnotional]; rfl)
  · intro amount hamount
    rw [Option.mem_def, Option.map_eq_some_iff] at hamount
    obtain ⟨account, haccount, rfl⟩ := hamount
    obtain ⟨before, hbefore, rfl⟩ := Option.map_eq_some_iff.mp haccount
    have hbook := hb.book before.marginBook (Option.mem_def.mpr (by rw [hbefore]; rfl))
    rw [hflat, if_neg (lt_irrefl 0)] at hbook
    refine (mirrorEntry_marginBook hlev entry.direction hbook _ _ _).trans ?_
    cases hside : entry.direction with
    | long =>
        have hlong : 0 < (PositionOpener.openedPosition executor.config entry size hsize
            rawPrice (executor.entryFill entry rawPrice) date).size := by
          simp only [PositionOpener.openedPosition, hside, PositionOpener.signedSize]
          exact hsize
        exact (by rw [← hnotional]; exact (if_pos hlong).symm)
    | short =>
        have hshort : ¬ 0 < (PositionOpener.openedPosition executor.config entry size hsize
            rawPrice (executor.entryFill entry rawPrice) date).size := by
          simp only [PositionOpener.openedPosition, hside, PositionOpener.signedSize]
          exact not_lt.mpr (neg_nonpos.mpr hsize.le)
        exact (if_neg hshort).symm
  · exact (by rw [← hb.mode]; exact (congrArg (· = true) Option.isSome_map).to_iff)

/-- Nothing changes while the accounts stay. -/
theorem booked_of_sameAccounts (hb : Booked executor.config books) {state : SimulationState}
    (hsame : SameAccounts books.state state) :
    Booked executor.config { books with state := state } := by
  have hnotional : notional state.position = notional books.state.position ∧
      state.position.size = books.state.position.size := by
    rcases hsame.position with hp | hp
    · exact ⟨by rw [hp], by rw [hp]⟩
    · exact ⟨by rw [hp]; rfl, by rw [hp]; rfl⟩
  have hclosed : closedNotional state = closedNotional books.state := by
    unfold closedNotional
    rw [hsame.trades]
  refine ⟨leveragedWell_sameAccounts hsame hb.position, ?_, ?_, ?_, hb.mode⟩
  · exact fun trade htrade => hb.trades trade (hsame.trades ▸ htrade)
  · rw [hsame.usedMargin, hnotional.1, hclosed]
    exact hb.used
  · rw [hnotional.1, hnotional.2]
    exact hb.book

end Moves

/-- **A move** keeps what is reserved. -/
theorem pricedStep_booked {executor : PositionExecutor}
    (hlev : 0 < executor.config.leverageMultiplier)
    (hslippage : executor.config.slippagePct < 1) (books books' : Books)
    (h : PricedStep executor books books') (hb : Booked executor.config books) :
    Booked executor.config books' := by
  cases h with
  | exit price date reason hopen hliquidation =>
      exact exitPosition_booked hlev hb price date reason hopen
  | enter entry size hsize rawPrice date hflat hprice hstop =>
      exact openedBooks_booked hlev hslippage hb entry hsize hprice date hflat
  | fund => exact booked_of_sameMargin (applyFunding_sameMargin executor books) hb
  | sync => exact booked_of_sameMargin (syncMarginEquity_sameMargin books) hb
  | keep state hsame => exact booked_of_sameAccounts hb hsame

theorem setupFullMargin_booked (executor : PositionExecutor) (initialCash : ℚ) :
    Booked executor.config (executor.setupFullMargin initialCash) := by
  refine ⟨leveragedWell_flat _, List.forall_mem_nil _, ?_, ?_, ?_⟩
  · have hnothing : (0 + if 1 < executor.config.leverageMultiplier then (0 : ℚ) else 0)
        / executor.config.leverageMultiplier = 0 := by simp
    exact (congrArg (fun x => (x + _) / _) notional_flat).symm ▸ hnothing.symm
  · unfold PositionExecutor.setupFullMargin
    cases executor.config.marginMode with
    | full =>
        intro amount hamount
        obtain rfl := Option.some.inj hamount
        rfl
    | simplified => exact fun _ h => nomatch h
  · unfold PositionExecutor.setupFullMargin
    cases executor.config.marginMode with
    | full => simp
    | simplified => simp

/-- The margin of the open position is what the state and the account have
reserved, and nothing when it is flat. -/
structure MarginReserved (config : ExecutionConfig) (books : Books) : Prop where
  used : books.state.usedMargin
    = notional books.state.position / config.leverageMultiplier
  book : ∀ amount ∈ books.margin.map MarginAccount.marginBook,
    amount = notional books.state.position / config.leverageMultiplier

theorem closedNotional_eq_zero_iff {config : ExecutionConfig} {books : Books}
    (hb : Booked config books) : closedNotional books.state = 0 ↔ books.state.trades = [] := by
  unfold closedNotional
  constructor
  · intro h
    by_contra hne
    have hpos := List.sum_pos _ (List.forall_mem_map.mpr hb.trades)
      (by rwa [ne_eq, List.map_eq_nil_iff])
    exact absurd h hpos.ne'
  · intro h
    rw [h]
    rfl

/-- **When the margin is reserved right**: with leverage, or as long as no
trade is closed; and, with a margin account, while the position is not short. -/
theorem marginReserved_of_booked {config : ExecutionConfig} {books : Books}
    (hlev : 0 < config.leverageMultiplier) (hb : Booked config books) :
    MarginReserved config books ↔
      (1 < config.leverageMultiplier ∨ books.state.trades = []) ∧
        (config.marginMode = .full → 0 ≤ books.state.position.size) := by
  have hused : books.state.usedMargin = notional books.state.position / config.leverageMultiplier
      ↔ (1 < config.leverageMultiplier ∨ books.state.trades = []) := by
    rw [hb.used, div_left_inj' hlev.ne', add_eq_left]
    by_cases hlevered : 1 < config.leverageMultiplier
    · simp [hlevered]
    · rw [if_neg hlevered, closedNotional_eq_zero_iff hb, or_iff_right hlevered]
  have hbook : (∀ amount ∈ books.margin.map MarginAccount.marginBook,
      amount = notional books.state.position / config.leverageMultiplier) ↔
      (config.marginMode = .full → 0 ≤ books.state.position.size) := by
    rw [← hb.mode]
    cases hmargin : books.margin with
    | none => simp
    | some account =>
        have hamount := hb.book account.marginBook (Option.mem_def.mpr (by rw [hmargin]; rfl))
        simp only [Option.map_some, Option.mem_def, Option.some.injEq, forall_eq',
          Option.isSome_some, true_implies, hamount]
        rcases lt_trichotomy books.state.position.size 0 with hshort | hflat | hlong
        · have hpos := notional_pos hb.position hshort.ne
          rw [if_neg (not_lt.mpr hshort.le)]
          exact ⟨fun h => absurd h (div_pos hpos hlev).ne, fun h => absurd h (not_le.mpr hshort)⟩
        · rw [hflat, if_neg (lt_irrefl 0), notional_of_size_zero hflat, zero_div]
          exact ⟨fun _ => le_rfl, fun _ => rfl⟩
        · rw [if_pos hlong]
          exact ⟨fun _ => hlong.le, fun _ => rfl⟩
  rw [← hused, ← hbook]
  exact ⟨fun h => ⟨h.used, h.book⟩, fun h => ⟨h.1, h.2⟩⟩

/-- **Margin in every state of a run.** With slippage below one, whatever the
strategy does: inside every iteration the margin is reserved right exactly when
there is leverage or no trade has been closed, and no short is open in full
margin mode. -/
theorem marginReserved_iff (memory : σ) (initialCash : ℚ) (bars : List Bar)
    (hlev : 0 < settings.executor.config.leverageMultiplier)
    (hslippage : settings.executor.config.slippagePct < 1) (k : ℕ) (bar : Bar) (j : ℕ) :
    ∃ loop, duringBar settings memory initialCash bars k bar j = .ok loop ∧
      (MarginReserved settings.executor.config loop.books ↔
        (1 < settings.executor.config.leverageMultiplier ∨ loop.books.state.trades = []) ∧
          (settings.executor.config.marginMode = .full →
            0 ≤ loop.books.state.position.size)) := by
  obtain ⟨loop, hloop, -⟩ := ensures_duringBar (J := fun _ => True) hlev
    (fun _ _ _ h => h) trivial memory bars k bar j
  have hbooked := yields_duringBar (pricedStep_booked hlev hslippage)
    (setupFullMargin_booked settings.executor initialCash) memory bars k bar j loop hloop
  exact ⟨loop, hloop, marginReserved_of_booked hlev hbooked⟩

/-- At three times leverage the margin of a long is reserved while it is open. -/
theorem marginReserved_leveraged :
    ∃ loop, duringBar leveragedSettings [some buyTen] 1000 quietBars 1
        (quietBar "2024-01-02") 7 = .ok loop ∧
      MarginReserved leveragedSettings.executor.config loop.books := by
  obtain ⟨loop, hloop, hiff⟩ := marginReserved_iff [some buyTen] 1000 quietBars
    (show 0 < leveragedSettings.executor.config.leverageMultiplier by decide +kernel)
    (by decide +kernel) 1 (quietBar "2024-01-02") 7
  obtain ⟨loop', hloop', hlong⟩ : Ensures (duringBar leveragedSettings [some buyTen] 1000
      quietBars 1 (quietBar "2024-01-02") 7)
      (fun loop => 0 ≤ loop.books.state.position.size) := Ensures.of_run (by decide +kernel)
  obtain rfl := Except.ok.inj (hloop.symm.trans hloop')
  exact ⟨loop, hloop, hiff.mpr ⟨.inl (by decide +kernel), fun _ => hlong⟩⟩

/-- A run without leverage in simplified margin mode. -/
def spotSettings : RunSettings (List (Option SignalResult)) where
  strategy := replay
  riskPerTrade := 2 / 100
  executor := { config := {}, fromisoformat := fun _ => none }

/-- Without leverage the margin of a closed long stays reserved; and the margin
of a short is never booked in the account. -/
theorem margin_not_reserved_right :
    Ensures (duringBar spotSettings [some buyTen, some leave] 1000 quietBars 2
        (quietBar "2024-01-03") 1)
      (fun loop => loop.books.state.position.size = 0 ∧ loop.books.state.usedMargin = 1000) ∧
    Ensures (duringBar leveragedSettings [some sellTen] 1000 quietBars 1
        (quietBar "2024-01-02") 7)
      (fun loop => loop.books.state.usedMargin = 1000 / 3 ∧
        loop.books.margin.map MarginAccount.marginBook = some 0) :=
  ⟨Ensures.of_run (by decide +kernel), Ensures.of_run (by decide +kernel)⟩

end Finbar.Backtest
