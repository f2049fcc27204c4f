/-
Finbar.Simulation.EntryTheorems — what becomes of a pending entry.

`enter_cases` says once what `enter` can do: nothing but diagnostics, or one
position whose stop has passed and whose size the sizer has resolved. The
accepted size keeps to the buying power and, when it is risk-based, to the
risk budget (`accepted_entry_affordable`). Rebased risk prices scale with the
fill, so the validity of an entry is settled at the signal close
(`rebased_entry_scales`).

No `sorry`, no `axiom`.
-/
import Finbar.Lib.Run
import Finbar.Simulation.PositionExecutor
import Mathlib.Tactic.FieldSimp
import Mathlib.Tactic.Linarith
import Mathlib.Tactic.Positivity

namespace Finbar.Simulation

open Lib.Python Lib.Run

/-! ## §1 What an entry can do -/

/-- `open` returns when the leverage multiplier is positive. -/
theorem open_eq_ok_iff {config : ExecutionConfig} {books books' : Books}
    {entry : PendingEntry} {size : ℚ} {hsize : 0 < size} {rawPrice fillPrice : ℚ}
    {date : String} :
    PositionOpener.open config books entry size hsize rawPrice fillPrice date = .ok books' ↔
      0 < config.leverageMultiplier ∧
        books' = PositionOpener.openedBooks config books entry size hsize rawPrice fillPrice
          date (size * fillPrice / config.leverageMultiplier) := by
  by_cases hlev : 0 < config.leverageMultiplier
  · rw [PositionOpener.open_eq_ok hlev, Except.ok.injEq]
    exact ⟨fun h => ⟨hlev, h.symm⟩, fun h => h.2.symm⟩
  · have hmargin : config.leverage.marginRequired (size * fillPrice)
        = .error (.valueError
          { template := "Leverage multiplier must be positive, got %"
            args := [.num config.leverageMultiplier] }) := by
      unfold LeverageConfig.marginRequired
      exact if_pos (not_lt.mp hlev)
    unfold PositionOpener.open
    rw [hmargin]
    constructor
    · intro h
      cases h
    · exact fun h => absurd h.1 hlev

/-- **What `enter` can do**: append diagnostics, or open a position whose stop
is valid, of the size that the sizer has resolved. -/
theorem enter_cases {executor : PositionExecutor} {books books' : Books}
    {entry : PendingEntry} {price : ℚ} {date : String}
    (h : executor.enter books entry price date = .ok books') :
    ∃ state, PositionSizer.SameButDiagnostics books.state state ∧
      (books' = { books with state := state } ∨
        ∃ size, ∃ hsize : 0 < size,
          let fill := executor.entryFill entry price
          let rebased := executor.rebaseRiskPrices entry fill
          PositionOpener.stopValid executor.config rebased fill = true ∧
          PositionSizer.resolve executor.config books.state rebased fill
            (portfolioValue books.state fill) date = (state, size) ∧
          0 < executor.config.leverageMultiplier ∧
          books' = PositionOpener.openedBooks executor.config { books with state := state }
            rebased size hsize price fill date
            (size * fill / executor.config.leverageMultiplier)) := by
  unfold PositionExecutor.enter at h
  simp only at h
  split at h
  · obtain rfl := Except.ok.inj h
    exact ⟨books.state, PositionSizer.sameButDiagnostics_refl _, .inl rfl⟩
  · rename_i hstop
    have hframe := PositionSizer.resolve_state executor.config books.state
      (executor.rebaseRiskPrices entry (executor.entryFill entry price))
      (executor.entryFill entry price)
      (portfolioValue books.state (executor.entryFill entry price)) date
    split at h
    · obtain rfl := Except.ok.inj h
      exact ⟨_, hframe.trans (PositionSizer.sameButDiagnostics_addDiagnostic ..), .inl rfl⟩
    · rename_i hsize
      obtain ⟨hlev, rfl⟩ := open_eq_ok_iff.mp h
      exact ⟨_, hframe, .inr ⟨_, not_le.mp hsize, by simpa using hstop, rfl, hlev, rfl⟩⟩

/-! ## §2 The accepted size -/

theorem maxAffordableSize_nonneg (config : ExecutionConfig) (cash fillPrice : ℚ) :
    0 ≤ PositionSizer.maxAffordableSize config cash fillPrice := by
  unfold PositionSizer.maxAffordableSize
  simp only
  split_ifs
  · exact le_rfl
  · exact le_rfl
  · exact le_max_left _ _

/-- The cap is what buying power pays for at the price with commission. -/
theorem maxAffordableSize_mul {config : ExecutionConfig} {cash fillPrice : ℚ}
    (hcommission : 0 ≤ config.commissionPct) (hfill : 0 < fillPrice)
    (hpower : 0 ≤ config.leverageMultiplier * cash) :
    PositionSizer.maxAffordableSize config cash fillPrice * fillPrice
        * (1 + config.commissionPct)
      = config.leverageMultiplier * cash := by
  have hfactor : 0 < 1 + config.commissionPct := by linarith
  have heffective : 0 < fillPrice * (1 + config.commissionPct) := mul_pos hfill hfactor
  unfold PositionSizer.maxAffordableSize
  simp only
  rw [max_eq_left hcommission, if_neg (not_le.mpr hfill), if_neg (not_le.mpr heffective),
    ExecutionConfig.leverage_multiplier, max_eq_right
      (div_nonneg (by linarith) heffective.le), mul_assoc,
    div_mul_cancel₀ _ heffective.ne']
  ring

/-- With the cap in force no size exceeds it, and none grows. -/
theorem applyAffordabilityCap_le {config : ExecutionConfig} (state : SimulationState)
    (entry : PendingEntry) {size price : ℚ} (date : String)
    (hcash : config.allowNegativeCash = false) (hcap : config.capExplicitSize = true)
    (hprice : 0 < price) (hsize : 0 < size) :
    (PositionSizer.applyAffordabilityCap config state entry size price date).2
        ≤ PositionSizer.maxAffordableSize config state.cash price ∧
      (PositionSizer.applyAffordabilityCap config state entry size price date).2 ≤ size := by
  have hnonneg := maxAffordableSize_nonneg config state.cash price
  have hcapped : ¬ (price ≤ 0 ∨ config.allowNegativeCash = true) := by
    rw [hcash, not_or]
    exact ⟨not_le.mpr hprice, Bool.false_ne_true⟩
  unfold PositionSizer.applyAffordabilityCap
  rw [if_neg hcapped]
  simp only
  split_ifs with hnone hfits hrejected huncapped
  · exact ⟨hnonneg, hsize.le⟩
  · exact ⟨min_le_right _ _, min_le_left _ _⟩
  · exact ⟨hnonneg, hsize.le⟩
  · exact absurd hcap huncapped.2
  · exact ⟨min_le_right _ _, min_le_left _ _⟩

/-- The risk-based size spends the risk budget over the stop distance. -/
theorem rawSize_risk {config : ExecutionConfig} {state : SimulationState}
    {entry : PendingEntry} {portfolioValue entryPrice : ℚ} {date : String}
    (hexplicit : ¬ (entry.explicitSize = true ∧ 0 < entry.positionSize))
    (hstop : 0 < entry.stopPrice) (hdistance : 1 / 1000 < |entryPrice - entry.stopPrice|) :
    (PositionSizer.rawSize config state entry portfolioValue entryPrice date).2
        * |entryPrice - entry.stopPrice|
      = portfolioValue * entry.riskPerTrade * config.riskBudgetMultiplier := by
  have hpos : 0 < |entryPrice - entry.stopPrice| := lt_trans (by norm_num) hdistance
  unfold PositionSizer.rawSize
  rw [if_neg hexplicit, if_pos hstop]
  simp only
  rw [if_pos hdistance, div_mul_cancel₀ _ hpos.ne']

/-- **A resolved size is affordable**, and a risk-based one keeps to the risk
budget. -/
theorem resolve_le {config : ExecutionConfig} {state state' : SimulationState}
    {entry : PendingEntry} {entryPrice portfolioValue size : ℚ} {date : String}
    (hcash : config.allowNegativeCash = false) (hcap : config.capExplicitSize = true)
    (hprice : 0 < entryPrice) (hsize : 0 < size)
    (h : PositionSizer.resolve config state entry entryPrice portfolioValue date
      = (state', size)) :
    size ≤ PositionSizer.maxAffordableSize config state.cash entryPrice ∧
      (¬ (entry.explicitSize = true ∧ 0 < entry.positionSize) → 0 < entry.stopPrice →
        1 / 1000 < |entryPrice - entry.stopPrice| →
        size * |entryPrice - entry.stopPrice|
          ≤ portfolioValue * entry.riskPerTrade * config.riskBudgetMultiplier) := by
  have hframe := PositionSizer.rawSize_state config state entry portfolioValue entryPrice date
  unfold PositionSizer.resolve at h
  simp only at h
  split at h
  · obtain rfl := (Prod.mk.inj h).2
    exact absurd hsize (lt_irrefl 0)
  · rename_i hraw
    have hbounds := applyAffordabilityCap_le
      (PositionSizer.rawSize config state entry portfolioValue entryPrice date).1 entry date
      hcash hcap hprice (not_le.mp hraw)
    rw [h] at hbounds
    have hsame : (PositionSizer.rawSize config state entry portfolioValue entryPrice
        date).1.cash = state.cash := by
      rw [hframe]
    refine ⟨hsame ▸ hbounds.1, fun hexplicit hstop hdistance => ?_⟩
    rw [← @rawSize_risk config state entry portfolioValue entryPrice date hexplicit hstop hdistance]
    exact mul_le_mul_of_nonneg_right hbounds.2 (abs_nonneg _)

theorem rebaseRiskPrices_frame (executor : PositionExecutor) (entry : PendingEntry)
    (fillPrice : ℚ) :
    executor.rebaseRiskPrices entry fillPrice =
      { entry with
        stopPrice := (executor.rebaseRiskPrices entry fillPrice).stopPrice
        targetPrice := (executor.rebaseRiskPrices entry fillPrice).targetPrice } := by
  unfold PositionExecutor.rebaseRiskPrices
  split
  · rfl
  · split
    · rfl
    · rfl

theorem abs_signedSize (side : Side) {size : ℚ} (h : 0 < size) :
    |PositionOpener.signedSize side size| = size := by
  cases side with
  | long => exact abs_of_pos h
  | short => exact (abs_neg size).trans (abs_of_pos h)

theorem signedSize_ne_zero (side : Side) {size : ℚ} (h : 0 < size) :
    PositionOpener.signedSize side size ≠ 0 := by
  rw [← abs_pos, abs_signedSize side h]
  exact h

/-- **An accepted entry is affordable**: its notional with commission keeps to
the buying power, a long without leverage leaves no negative cash, and a
risk-based size loses at most the risk budget at its stop. -/
theorem accepted_entry_affordable {executor : PositionExecutor} {books books' : Books}
    {entry : PendingEntry} {price : ℚ} {date : String}
    (hcash : executor.config.allowNegativeCash = false)
    (hcap : executor.config.capExplicitSize = true)
    (hcommission : 0 ≤ executor.config.commissionPct)
    (hlev : 0 < executor.config.leverageMultiplier) (hmoney : 0 < books.state.cash)
    (hflat : books.state.position.size = 0) (hfill : 0 < executor.entryFill entry price)
    (h : executor.enter books entry price date = .ok books')
    (haccepted : books'.state.position.size ≠ 0) :
    let fill := executor.entryFill entry price
    let stop := (executor.rebaseRiskPrices entry fill).stopPrice
    let size := |books'.state.position.size|
    books'.state.position.entryPrice = fill ∧ 0 < size ∧
      size * fill * (1 + executor.config.commissionPct)
        ≤ executor.config.leverageMultiplier * books.state.cash ∧
      (books'.state.position.direction = some .long →
        executor.config.leverageMultiplier ≤ 1 → 0 ≤ books'.state.cash) ∧
      (¬ (entry.explicitSize = true ∧ 0 < entry.positionSize) → 0 < stop →
        1 / 1000 < |fill - stop| →
        size * |fill - stop|
          ≤ books.state.cash * entry.riskPerTrade * executor.config.riskBudgetMultiplier) := by
  intro fill stop size
  have hframe := rebaseRiskPrices_frame executor entry fill
  obtain ⟨state, hsame, rfl | ⟨filled, hfilled, -, hresolve, -, rfl⟩⟩ := enter_cases h
  · have hposition : state.position = books.state.position := by rw [hsame]
    exact absurd (show state.position.size = 0 from hposition ▸ hflat) haccepted
  · have hsize : size = filled := abs_signedSize _ hfilled
    have hstate : state.cash = books.state.cash := by rw [hsame]
    have hportfolio : portfolioValue books.state fill = books.state.cash := by
      unfold portfolioValue
      rw [hflat, if_neg (lt_irrefl 0), if_neg (lt_irrefl 0)]
    obtain ⟨hbound, hrisk⟩ := resolve_le hcash hcap hfill hfilled hresolve
    rw [hframe, hportfolio] at hrisk
    have hnotional : size * fill * (1 + executor.config.commissionPct)
        ≤ executor.config.leverageMultiplier * books.state.cash := by
      rw [← maxAffordableSize_mul hcommission hfill (mul_pos hlev hmoney).le, hsize]
      exact mul_le_mul_of_nonneg_right (mul_le_mul_of_nonneg_right hbound hfill.le)
        (by linarith)
    refine ⟨rfl, hsize ▸ hfilled, hnotional, fun hlong hspot => ?_, ?_⟩
    · have hside : (executor.rebaseRiskPrices entry fill).direction = .long :=
        Option.some.inj hlong
      have hfee : commission (filled * fill) executor.config.commissionPct
          = filled * fill * executor.config.commissionPct := by
        unfold commission
        split
        · rename_i hnone
          rw [le_antisymm hnone hcommission, mul_zero]
        · rw [abs_of_pos (mul_pos hfilled hfill)]
      have hpower : executor.config.leverageMultiplier * books.state.cash
          ≤ books.state.cash := mul_le_of_le_one_left hmoney.le hspot
      have hpaid : (PositionOpener.openedBooks executor.config { books with state := state }
          (executor.rebaseRiskPrices entry fill) filled hfilled price fill date
          (filled * fill / executor.config.leverageMultiplier)).state.cash
          = books.state.cash - filled * fill * (1 + executor.config.commissionPct) := by
        simp only [PositionOpener.openedBooks, hside, PositionOpener.entryCashFlow, hstate, hfee]
        ring
      rw [hsize] at hnotional
      rw [hpaid]
      linarith
    · rw [hsize]
      exact hrisk

/-- A long at 100 with its stop at 95. -/
def stoppedLong : PendingEntry where
  direction := .long
  stopPrice := 95
  targetPrice := 110
  signalClose := 98

/-- Two per cent of 10000, lost over a distance of five. -/
theorem accepted_entry_affordable_long :
    ∃ books', PositionExecutor.enter { config := {}, fromisoformat := fun _ => none }
        { state := .init 10000, margin := none } stoppedLong 100 "2024-01-02" = .ok books' ∧
      |books'.state.position.size| * |(100 : ℚ) - 95| ≤ 10000 * (2 / 100) * 1 := by
  obtain ⟨books', h, haccepted⟩ : Ensures
      (PositionExecutor.enter { config := {}, fromisoformat := fun _ => none }
        { state := .init 10000, margin := none } stoppedLong 100 "2024-01-02")
      (fun books' => books'.state.position.size ≠ 0) := Ensures.of_run (by decide +kernel)
  refine ⟨books', h, ?_⟩
  exact (accepted_entry_affordable rfl rfl le_rfl one_pos (by decide +kernel) rfl
    (by decide +kernel) h haccepted).2.2.2.2 (by decide) (by decide +kernel)
    (by decide +kernel)

/-! ## §3 Rebased risk prices -/

/-- Slippage below one leaves a positive fill. -/
theorem applySlippage_pos {price slippagePct : ℚ} (hprice : 0 < price)
    (hslippage : slippagePct < 1) (direction : Option Side) (side : FillSide) :
    0 < applySlippage price direction side slippagePct := by
  unfold applySlippage
  split
  · exact hprice
  · rename_i hpos
    cases direction with
    | none => exact hprice
    | some d =>
        refine mul_pos hprice ?_
        cases d <;> cases side <;> simp only [slippageSign] <;> linarith

/-- The distance to the signal close scales with the fill, so the price does. -/
theorem scalePrice_eq {oldPrice signalClose : ℚ} (hold : 0 < oldPrice)
    (hclose : 0 < signalClose) (fillPrice : ℚ) :
    scalePrice oldPrice signalClose fillPrice (fillPrice / signalClose)
      = oldPrice * (fillPrice / signalClose) := by
  unfold scalePrice
  rw [if_neg (not_le.mpr hold)]
  field_simp
  ring

theorem liquidationPrice_mul (leverage : LeverageConfig) (price ratio : ℚ) (side : Side) :
    leverage.liquidationPrice (price * ratio) side
      = leverage.liquidationPrice price side * ratio := by
  unfold LeverageConfig.liquidationPrice
  split
  · rfl
  · cases side with
    | long => simp only; ring
    | short => simp only; ring

/-- The boundary check does not change with the scale of the prices. -/
theorem validateStop_mul (leverage : LeverageConfig) (stop price : ℚ) {ratio : ℚ}
    (hratio : 0 < ratio) (side : Side) :
    leverage.validateStop (stop * ratio) (price * ratio) side
      = leverage.validateStop stop price side := by
  unfold LeverageConfig.validateStop
  rw [liquidationPrice_mul, liquidationPrice_mul]
  split
  · rfl
  · cases side with
    | long => simp only [mul_lt_mul_iff_left₀ hratio]
    | short => simp only [mul_lt_mul_iff_left₀ hratio]

/-- **Scaling stop and price alike** does not change the validity of an entry. -/
theorem stopValid_mul (config : ExecutionConfig) (entry : PendingEntry) (price target : ℚ)
    {ratio : ℚ} (hratio : 0 < ratio) :
    PositionOpener.stopValid config
        { entry with stopPrice := entry.stopPrice * ratio, targetPrice := target }
        (price * ratio)
      = PositionOpener.stopValid config entry price := by
  have hnone : entry.stopPrice * ratio ≤ 0 ↔ entry.stopPrice ≤ 0 := by
    have hscaled := mul_le_mul_iff_left₀ (b := entry.stopPrice) (c := 0) hratio
    rwa [zero_mul] at hscaled
  unfold PositionOpener.stopValid
  simp only [hnone, mul_le_mul_iff_left₀ hratio, validateStop_mul _ _ _ hratio]

/-- Reward to risk of an entry at a price. -/
def rewardToRisk (entry : PendingEntry) (price : ℚ) : ℚ :=
  |entry.targetPrice - price| / |price - entry.stopPrice|

theorem rewardToRisk_mul (entry : PendingEntry) (price : ℚ) {ratio : ℚ} (hratio : 0 < ratio) :
    rewardToRisk
        { entry with
          stopPrice := entry.stopPrice * ratio
          targetPrice := entry.targetPrice * ratio }
        (price * ratio)
      = rewardToRisk entry price := by
  unfold rewardToRisk
  simp only
  rw [← sub_mul, ← sub_mul, abs_mul, abs_mul, mul_div_mul_right _ _ (abs_pos.mpr hratio.ne').ne']

/-- The same executor with another slippage. -/
def PositionExecutor.withSlippage (executor : PositionExecutor) (slippagePct : ℚ) :
    PositionExecutor :=
  { executor with config := { executor.config with slippagePct := slippagePct } }

/-- **Rebased entries scale with their fill**: whatever the slippage and the
next open, the entry is valid exactly when it is at the signal close, its stop
and target keep their ratio to the price, and so does reward to risk. -/
theorem rebased_entry_scales {executor : PositionExecutor}
    (hbasis : executor.config.riskPriceBasis = .entryFill) {entry : PendingEntry}
    (hclose : 0 < entry.signalClose) (hstop : 0 < entry.stopPrice)
    (htarget : 0 < entry.targetPrice) {slippagePct : ℚ} (hslippage : slippagePct < 1)
    {nextOpen : ℚ} (hopen : 0 < nextOpen) :
    let slipped := executor.withSlippage slippagePct
    let fill := slipped.entryFill entry nextOpen
    let rebased := slipped.rebaseRiskPrices entry fill
    PositionOpener.stopValid slipped.config rebased fill
        = PositionOpener.stopValid executor.config entry entry.signalClose ∧
      rebased.stopPrice / fill = entry.stopPrice / entry.signalClose ∧
      rebased.targetPrice / fill = entry.targetPrice / entry.signalClose ∧
      rewardToRisk rebased fill = rewardToRisk entry entry.signalClose := by
  intro slipped fill rebased
  have hfill : 0 < fill := applySlippage_pos hopen hslippage _ _
  have hratio : 0 < fill / entry.signalClose := div_pos hfill hclose
  have hscale : entry.signalClose * (fill / entry.signalClose) = fill :=
    mul_div_cancel₀ _ hclose.ne'
  have hrebased : rebased =
      { entry with
        stopPrice := entry.stopPrice * (fill / entry.signalClose)
        targetPrice := entry.targetPrice * (fill / entry.signalClose) } := by
    have hbasis' : slipped.config.riskPriceBasis = .entryFill := hbasis
    simp only [rebased, PositionExecutor.rebaseRiskPrices, hbasis', if_neg (not_le.mpr hclose),
      scalePrice_eq hstop hclose, scalePrice_eq htarget hclose]
  rw [hrebased]
  refine ⟨?_, ?_, ?_, ?_⟩
  · have hvalid := stopValid_mul slipped.config entry entry.signalClose
      (entry.targetPrice * (fill / entry.signalClose)) hratio
    rw [hscale] at hvalid
    -- Validity reads the leverage settings, not the slippage.
    exact hvalid
  · simp only
    field_simp
  · simp only
    field_simp
  · have hreward := rewardToRisk_mul entry entry.signalClose hratio
    rwa [hscale] at hreward

/-- Risk prices rebased at three times leverage. -/
def rebasingExecutor : PositionExecutor where
  config := { leverageMultiplier := 3, riskPriceBasis := .entryFill }
  fromisoformat := fun _ => none

/-- A gap from 98 to 110 with slippage leaves the entry as valid as it was. -/
theorem rebased_entry_scales_gap :
    let slipped := rebasingExecutor.withSlippage (1 / 100)
    let fill := slipped.entryFill stoppedLong 110
    PositionOpener.stopValid slipped.config (slipped.rebaseRiskPrices stoppedLong fill) fill
      = true :=
  (rebased_entry_scales (show rebasingExecutor.config.riskPriceBasis = .entryFill from rfl)
    (show 0 < stoppedLong.signalClose by decide +kernel) (by decide +kernel)
    (by decide +kernel) (show (1 / 100 : ℚ) < 1 by norm_num)
    (show (0 : ℚ) < 110 by norm_num)).1.trans (by decide +kernel)

end Finbar.Simulation
