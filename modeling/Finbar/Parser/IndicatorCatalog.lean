/-
Finbar.Parser.IndicatorCatalog — which indicator names a strategy may use
(`StrategyIndicatorCatalog`, `UsableMetricSet` and `UnifiedMetricCatalog`).

A type and a period are resolved to a concrete column, and a concrete column in a condition
is supported or not. The metrics of the registry count only if a handler computes them; all
other names go by the tables and patterns of `StrategyIndicatorCatalog`. A catalog is built
only if its two answers agree for every registered metric.

No `sorry`, no `axiom`.
-/
import Finbar.Parser.Declarations
import Finbar.Streaming.Names

namespace Finbar.Parser

open Lib Lib.Python Finbar.Streaming

/-- `str.lower`: lowering again changes nothing, and plain names stay as they are. -/
structure Lowering where
  lower : String → String
  lower_lower : ∀ name, lower (lower name) = lower name
  lower_plain : ∀ name : String,
    (∀ c ∈ name.toList, c.isLower ∨ c.isDigit ∨ c = '_') → lower name = name

/-! ## §1 The strategy catalog -/

namespace StrategyIndicatorCatalog

/-- `_PERIOD_RANGES`. -/
def PERIOD_RANGES : List (String × ℤ × ℤ) := [("sma", 2, 500), ("ema", 2, 500), ("rsi", 2, 100)]

/-- `_OPTIONAL_PERIOD_RANGES`. -/
def OPTIONAL_PERIOD_RANGES : List (String × ℤ × ℤ) :=
  [("atr", 2, 200), ("adx", 2, 100), ("bb_upper", 2, 200), ("bb_middle", 2, 200),
    ("bb_lower", 2, 200)]

/-- `_FIXED`, which maps each of its names to itself. -/
def FIXED : List String :=
  ["atr", "adx", "vwap", "vwap_upper_1", "vwap_lower_1", "vwap_upper_2", "vwap_lower_2", "vp_poc",
    "vp_vah", "vp_val", "vp_poc_5d", "vp_vah_5d", "vp_val_5d", "vp_poc_20d", "vp_vah_20d",
    "vp_val_20d", "rvp_poc_48", "rvp_vah_48", "rvp_val_48", "rvp_poc_96", "rvp_vah_96",
    "rvp_val_96", "rvp_poc_336", "rvp_vah_336", "rvp_val_336", "cvp_poc_5d", "cvp_vah_5d",
    "cvp_val_5d", "cvp_poc_10d", "cvp_vah_10d", "cvp_val_10d", "cvp_poc_20d", "cvp_vah_20d",
    "cvp_val_20d", "profile_shape", "is_normal_shape", "is_b_shape", "is_p_shape", "is_d_shape",
    "is_neutral_shape", "is_coiled", "coil_intensity", "wyckoff_phase", "poc_slope_5",
    "poc_slope_20", "is_accumulation", "is_markup", "is_distribution", "is_markdown",
    "is_wyckoff_neutral", "mp_poc", "mp_vah", "mp_val", "inside_value", "above_value",
    "below_value", "at_poc", "near_vah", "near_val", "distance_to_vah_pct", "distance_to_val_pct",
    "value_area_width_pct", "balance_status", "acceptance_into_value", "rejection_from_edge",
    "acceptance_outside_value", "poc_rejection", "edge_volume_building", "value_area_migration",
    "rvol", "ibs", "ker", "kama", "macd", "macd_signal", "macd_hist", "bb_upper", "bb_middle",
    "bb_lower", "vol_buffer_high", "vol_buffer_low", "swing_high_20", "swing_low_20",
    "breakout_level", "breakout_signal", "is_power_zone", "breakout_quality", "price_vs_sma20",
    "trend_direction", "trend_strength", "trend_status"]

/-- `self._FIXED.get(name)`. -/
def fixed (name : String) : Option String := if name ∈ FIXED then some name else none

/-- `_ROLLING_VP_BASE | _CVP_BASE`. -/
def dayBases : List String := ["vp_poc", "vp_vah", "vp_val", "cvp_poc", "cvp_vah", "cvp_val"]

/-- `_RVP_BASE`. -/
def RVP_BASE : List String := ["rvp_poc", "rvp_vah", "rvp_val"]

/-- `inner.isdigit() and int(inner) >= 1`. -/
def positiveDigits (inner : List Char) : Bool :=
  ((digitsValue inner).filter fun window => 1 ≤ window).isSome

/-- `_match_rolling_vp`. -/
def matchRollingVp (name : String) : Option String :=
  if dayBases.any fun base =>
      startsWith name (base ++ "_") && decide (name.toList.getLast? = some 'd') &&
        positiveDigits (restAfter name (base ++ "_")).dropLast
  then some name
  else if RVP_BASE.any fun base =>
      startsWith name (base ++ "_") && positiveDigits (restAfter name (base ++ "_"))
  then some name
  else none

/-- `isinstance(period, int) and min_p <= period <= max_p`: the name with the period. -/
def withPeriod (name : String) (range : ℤ × ℤ) (period : Json) : Option String :=
  match period with
  | .int n =>
      if range.1 ≤ n ∧ n ≤ range.2 then some (name ++ "_" ++ toString n.toNat) else none
  -- a bool is an int, and below every range
  | _ => none

/-- `resolve`, of a name that is lowered. -/
def resolveLowered (name : String) (period : Json) : Option String :=
  match PERIOD_RANGES.lookup name with
  | some range => withPeriod name range period
  | none =>
      match OPTIONAL_PERIOD_RANGES.lookup name with
      | some range => if period.isNull then fixed name else withPeriod name range period
      | none => (matchRollingVp name).or (fixed name)

/-- `requires_period`. -/
def requiresPeriod (L : Lowering) (indicatorType : String) : Bool :=
  (PERIOD_RANGES.lookup (L.lower indicatorType)).isSome

/-- `accepts_period`. -/
def acceptsPeriod (L : Lowering) (indicatorType : String) : Bool :=
  (PERIOD_RANGES.lookup (L.lower indicatorType)).isSome ||
    (OPTIONAL_PERIOD_RANGES.lookup (L.lower indicatorType)).isSome

/-- The suffixes of the informative timeframes. -/
def timeframeSuffixes : List String := ["_1d", "_1h", "_30min", "_5min", "_1w"]

/-- `name.endswith(suffix)`. -/
def endsWith (name suffix : String) : Bool := suffix.toList.isSuffixOf name.toList

/-- `name[: -len(suffix)]`. -/
def removeSuffix (name suffix : String) : String :=
  String.ofList (name.toList.take (name.toList.length - suffix.toList.length))

/-- `f"{prefix}_"` for the types with a period. -/
def periodStarts : List String :=
  (PERIOD_RANGES.map Prod.fst ++ OPTIONAL_PERIOD_RANGES.map Prod.fst).map (· ++ "_")

/-- `name.startswith(start)` and `rest.isdigit()`, for names of ASCII characters: `str.isdigit`
takes the digits of every script. -/
def hasPeriod (name : String) : Bool :=
  periodStarts.any fun start => startsWith name start && (digitsValue (restAfter name start)).isSome

/-- `supports_concrete`, of a name that is lowered; a part of it is lowered, too. -/
def supportsLowered (name : String) : Bool :=
  if name ∈ FIXED then true
  else if (matchRollingVp name).isSome then true
  else
    match _hfound : timeframeSuffixes.find? (endsWith name) with
    | some suffix => supportsLowered (removeSuffix name suffix)
    | none => hasPeriod name
termination_by name.toList.length
decreasing_by
  have hends : endsWith name suffix = true := List.find?_some _hfound
  have hle := (List.isSuffixOf_iff_suffix.mp hends).length_le
  have hpos : 0 < suffix.toList.length := by
    have hall : ∀ s ∈ timeframeSuffixes, 0 < s.toList.length := by decide
    exact hall suffix (List.mem_of_find?_eq_some _hfound)
  rw [removeSuffix, String.toList_ofList, List.length_take]
  omega

end StrategyIndicatorCatalog

/-! ## §2 The metrics of the registry -/

/-- The registered metrics and the handlers. -/
structure MetricRegistry where
  /-- The names of `METRICS + CONCEPTUAL_METRICS`. -/
  byName : List String
  handlers : HandlerRegistry

namespace MetricRegistry

variable (L : Lowering) (r : MetricRegistry)

/-- `self._handlers.names()`. -/
def handledNames : List String := r.handlers.requires.map Prod.fst

/-- `UsableMetricSet._usable`. -/
def usable : List String :=
  (r.byName.map L.lower).filter fun name => name ∈ r.handledNames.map L.lower

/-- `UsableMetricSet.resolve`. -/
def usableResolve (name : String) : Option String :=
  if L.lower name ∈ r.usable L then some (L.lower name) else none

/-- `UsableMetricSet.contains`. -/
def usableContains (name : String) : Bool := L.lower name ∈ r.usable L

/-! ## §3 The unified catalog -/

/-- `UnifiedMetricCatalog.resolve`. -/
def resolve (indicatorType : String) (period : Json) : Option String :=
  let name := L.lower indicatorType
  let usable := if period.isNull then r.usableResolve L name else none
  usable.or (StrategyIndicatorCatalog.resolveLowered name period)

/-- `UnifiedMetricCatalog.supports_concrete`. -/
def supportsConcrete (name : String) : Bool :=
  let key := L.lower name
  if key ∈ r.byName then r.usableContains L key
  else StrategyIndicatorCatalog.supportsLowered (L.lower key)

/-- `validate_consistency`; its `RuntimeError` is `false`. -/
def validateConsistency : Bool :=
  r.byName.all fun name =>
    let groundTruth := decide (L.lower name ∈ r.handledNames.map L.lower)
    r.usableContains L name == groundTruth && (r.resolve L name .null).isSome == groundTruth &&
      r.supportsConcrete L name == groundTruth

end MetricRegistry

/-- A catalog that could be built. -/
structure UnifiedMetricCatalog (L : Lowering) extends MetricRegistry where
  consistent : toMetricRegistry.validateConsistency L = true

namespace UnifiedMetricCatalog

variable {L : Lowering}

/-- The catalog as the parser sees it. -/
def provider (c : UnifiedMetricCatalog L) : IndicatorCapabilityProvider where
  resolve := c.resolve L
  requiresPeriod := StrategyIndicatorCatalog.requiresPeriod L
  acceptsPeriod := StrategyIndicatorCatalog.acceptsPeriod L
  supportsConcrete := c.supportsConcrete L

end UnifiedMetricCatalog

end Finbar.Parser
