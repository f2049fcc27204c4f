/-
Finbar.Backtest.ParamTheorems — the execution settings a backtest really runs
with.

The settings travel from the request through keyword arguments into the
engine's parameter parsing. `engineConfig_kwargs` computes what arrives:
`effectiveConfig`, in which `x or default` has replaced three zeros and two
fields that are never passed have their defaults. The settings survive
exactly when that changes nothing.

No `sorry`, no `axiom`.
-/
import Finbar.Backtest.Engine

namespace Finbar.Backtest

open Lib.Python Finbar.Simulation

/-! ## §1 Single parameters -/

/-- A number that is passed arrives, unless it is zero: then the default
arrives. -/
theorem floatParam_of_lookup {params : Kwargs} {name : String} {q : ℚ} (default : ℚ)
    (h : params.lookup name = some (.ofRat q)) :
    floatParam params name default = .ok (if q = 0 then default else q) := by
  unfold floatParam Kwargs.pop
  rw [h, Option.getD_some]
  by_cases hq : q = 0
  · rw [if_pos hq, PyValue.orElse_of_not_truthy (by rw [PyValue.truthy_ofRat, hq]; decide)]
    rfl
  · rw [if_neg hq, PyValue.orElse_of_truthy (by rw [PyValue.truthy_ofRat]; exact decide_eq_true hq)]
    rfl

/-- A default of zero makes the `or` harmless. -/
theorem floatParam_zero {params : Kwargs} {name : String} {q : ℚ}
    (h : params.lookup name = some (.ofRat q)) : floatParam params name 0 = .ok q := by
  rw [floatParam_of_lookup 0 h]
  by_cases hq : q = 0
  · rw [if_pos hq, hq]
  · rw [if_neg hq]

/-- A non-empty string that is passed arrives. -/
theorem strParam_of_lookup {params : Kwargs} {name s : String} (default fallback : String)
    (h : params.lookup name = some (.str s)) (hs : s ≠ "") :
    strParam params name default fallback = s := by
  have htruthy : (PyValue.str s).truthy = true := by
    rw [PyValue.truthy_str]
    exact decide_eq_true hs
  unfold strParam Kwargs.pop
  rw [h, Option.getD_some, PyValue.orElse_of_truthy htruthy]
  rfl

/-- The default of a string that is not passed arrives. -/
theorem strParam_of_lookup_none {params : Kwargs} {name : String} (default : String)
    (h : params.lookup name = none) : strParam params name default default = default := by
  have hself : (PyValue.str default).orElse (.str default) = .str default := by
    unfold PyValue.orElse
    rw [ite_self]
  unfold strParam Kwargs.pop
  rw [h, Option.getD_none, hself]
  rfl

/-- A member of an enumeration that is passed by its value is parsed back. -/
theorem parse_strParam {α : Type} [StrEnum α] {params : Kwargs} {name : String} {a : α}
    (owner fieldName default fallback : String)
    (h : params.lookup name = some (.str (StrEnum.value a))) :
    StrEnum.parse owner fieldName (strParam params name default fallback) = .ok a := by
  rw [strParam_of_lookup default fallback h (StrEnum.value_ne_empty a),
    StrEnum.parse_value]

/-- A member that is not passed is parsed from its default. -/
theorem parse_strParam_default {α : Type} [StrEnum α] {params : Kwargs} {name : String}
    (a : α) (owner fieldName : String) (h : params.lookup name = none) :
    StrEnum.parse owner fieldName
      (strParam params name (StrEnum.value a) (StrEnum.value a)) = .ok a := by
  rw [strParam_of_lookup_none _ h, StrEnum.parse_value]

/-! ## §2 What arrives -/

/-- The settings that arrive at the engine for a request with settings
`config`. -/
def effectiveConfig (config : ExecutionConfig) : ExecutionConfig :=
  { config with
    leverageMultiplier :=
      if config.leverageMultiplier = 0 then 1 else config.leverageMultiplier
    maintenanceMarginPct :=
      if config.maintenanceMarginPct = 0 then 5 / 1000 else config.maintenanceMarginPct
    fundingRate := if config.fundingRate = 0 then 1 / 10000 else config.fundingRate
    riskPriceBasis := .signalClose
    borrowTimeBasis := .calendarDay }

/-- **What arrives.** The engine reads `effectiveConfig` from the keyword
arguments of the use case. -/
theorem engineConfig_kwargs (request : BacktestRequest) (warmup : Option WarmupResult) :
    engineConfig (runBacktestKwargs request warmup)
      = .ok (effectiveConfig request.execution) := by
  generalize hkwargs : runBacktestKwargs request warmup = kwargs
  -- Each parameter is looked up under its own name; two are not passed.
  have hcommission : kwargs.lookup "commission_pct"
      = some (.ofRat request.execution.commissionPct) := by rw [← hkwargs]; rfl
  have hslippage : kwargs.lookup "slippage_pct"
      = some (.ofRat request.execution.slippagePct) := by rw [← hkwargs]; rfl
  have hleverage : kwargs.lookup "leverage"
      = some (.ofRat request.execution.leverageMultiplier) := by rw [← hkwargs]; rfl
  have hborrow : kwargs.lookup "borrow_fee_annual_pct"
      = some (.ofRat request.execution.borrowFeeAnnualPct) := by rw [← hkwargs]; rfl
  have hmaintenance : kwargs.lookup "maintenance_margin_pct"
      = some (.ofRat request.execution.maintenanceMarginPct) := by rw [← hkwargs]; rfl
  have hfunding : kwargs.lookup "funding_rate"
      = some (.ofRat request.execution.fundingRate) := by rw [← hkwargs]; rfl
  have hriskMode : kwargs.lookup "risk_mode"
      = some (.str (StrEnum.value request.execution.riskMode)) := by rw [← hkwargs]; rfl
  have hmarginMode : kwargs.lookup "margin_mode"
      = some (.str (StrEnum.value request.execution.marginMode)) := by rw [← hkwargs]; rfl
  have hcalendar : kwargs.lookup "market_calendar"
      = some (.str (StrEnum.value request.execution.marketCalendar)) := by
    rw [← hkwargs]; rfl
  have hbasis : kwargs.lookup "risk_price_basis" = none := by rw [← hkwargs]; rfl
  have htime : kwargs.lookup "borrow_time_basis" = none := by rw [← hkwargs]; rfl
  have hcap : kwargs.pop "cap_explicit_size" (.bool true)
      = .bool request.execution.capExplicitSize := by rw [← hkwargs]; rfl
  have hreject : kwargs.pop "reject_oversized_explicit_orders" (.bool false)
      = .bool request.execution.rejectOversizedExplicitOrders := by rw [← hkwargs]; rfl
  have hnegative : kwargs.pop "allow_negative_cash" (.bool false)
      = .bool request.execution.allowNegativeCash := by rw [← hkwargs]; rfl
  have henable : kwargs.pop "enable_funding" (.bool false)
      = .bool request.execution.enableFunding := by rw [← hkwargs]; rfl
  have hsignalClose := parse_strParam_default RiskPriceBasis.signalClose "ExecutionConfig"
    "risk_price_basis" hbasis
  have hcalendarDay := parse_strParam_default BorrowTimeBasis.calendarDay "ExecutionConfig"
    "borrow_time_basis" htime
  unfold engineConfig
  rw [floatParam_zero hcommission, floatParam_zero hslippage]
  unfold executionConfigFromParams
  rw [floatParam_of_lookup 1 hleverage, floatParam_zero hborrow,
    floatParam_of_lookup (5 / 1000) hmaintenance, floatParam_of_lookup (1 / 10000) hfunding,
    hcap, hreject, hnegative, henable]
  rw [parse_strParam "ExecutionConfig" "risk_mode" _ _ hriskMode,
    parse_strParam "ExecutionConfig" "margin_mode" _ _ hmarginMode,
    parse_strParam "ExecutionConfig" "market_calendar" _ _ hcalendar]
  rw [show StrEnum.parse "ExecutionConfig" "risk_price_basis"
      (strParam kwargs "risk_price_basis" "signal_close" "signal_close")
        = .ok RiskPriceBasis.signalClose from hsignalClose,
    show StrEnum.parse "ExecutionConfig" "borrow_time_basis"
      (strParam kwargs "borrow_time_basis" "calendar_day" "calendar_day")
        = .ok BorrowTimeBasis.calendarDay from hcalendarDay]
  rfl

/-- The settings arrive unchanged exactly when no zero is replaced and the
two fields that are not passed have their defaults. -/
theorem effectiveConfig_eq_self (config : ExecutionConfig) :
    effectiveConfig config = config ↔
      config.leverageMultiplier ≠ 0 ∧ config.maintenanceMarginPct ≠ 0 ∧
        config.fundingRate ≠ 0 ∧ config.riskPriceBasis = .signalClose ∧
        config.borrowTimeBasis = .calendarDay := by
  constructor
  · intro h
    have hleverage := congrArg ExecutionConfig.leverageMultiplier h
    have hmaintenance := congrArg ExecutionConfig.maintenanceMarginPct h
    have hfunding := congrArg ExecutionConfig.fundingRate h
    have hbasis := congrArg ExecutionConfig.riskPriceBasis h
    have htime := congrArg ExecutionConfig.borrowTimeBasis h
    simp only [effectiveConfig] at hleverage hmaintenance hfunding hbasis htime
    refine ⟨?_, ?_, ?_, hbasis.symm, htime.symm⟩
    · intro hzero
      rw [if_pos hzero, hzero] at hleverage
      exact absurd hleverage (by decide +kernel)
    · intro hzero
      rw [if_pos hzero, hzero] at hmaintenance
      exact absurd hmaintenance (by decide +kernel)
    · intro hzero
      rw [if_pos hzero, hzero] at hfunding
      exact absurd hfunding (by decide +kernel)
  · rintro ⟨hleverage, hmaintenance, hfunding, hbasis, htime⟩
    unfold effectiveConfig
    rw [if_neg hleverage, if_neg hmaintenance, if_neg hfunding, ← hbasis, ← htime]

/-! ## §3 The round trip -/

/-- **The settings of the request reach the engine exactly when** leverage,
maintenance margin and funding rate are not zero, stop and target are
anchored at the signal close, and borrowing is counted in calendar days. -/
theorem engineConfig_roundtrip_iff (request : BacktestRequest)
    (warmup : Option WarmupResult) :
    engineConfig (runBacktestKwargs request warmup) = .ok request.execution ↔
      request.execution.leverageMultiplier ≠ 0 ∧
        request.execution.maintenanceMarginPct ≠ 0 ∧ request.execution.fundingRate ≠ 0 ∧
        request.execution.riskPriceBasis = .signalClose ∧
        request.execution.borrowTimeBasis = .calendarDay := by
  rw [engineConfig_kwargs, ← effectiveConfig_eq_self, Except.ok.injEq]

/-- A request for stops anchored at the entry fill, without maintenance
margin and with borrowing counted by timestamp runs under other settings. -/
theorem engineConfig_entryFill_lost :
    engineConfig (runBacktestKwargs
        { execution :=
            { riskPriceBasis := .entryFill
              borrowTimeBasis := .timestampDelta
              maintenanceMarginPct := 0 } } none)
      ≠ .ok
          { riskPriceBasis := .entryFill
            borrowTimeBasis := .timestampDelta
            maintenanceMarginPct := 0 } := by
  rw [engineConfig_kwargs]
  decide +kernel

end Finbar.Backtest
