/-
Finbar.Streaming.Names — how indicator names are classified and built
(`_streaming_classifier.py`, `_dynamic_dispatch.py`,
`_streaming_state_factory.py` and the name tables of the engine).

A name's hand-written state is `factoryBuild name`; names that share state in
the engine have one `canonicalFamily`.

No `sorry`, no `axiom`.
-/
import Finbar.Streaming.States

namespace Finbar.Streaming

open Lib.Python

/-! ## §1 Names -/

/-- `name.startswith(start)`. -/
def startsWith (name start : String) : Bool := start.toList.isPrefixOf name.toList

/-- `name[len(start):]`. -/
def restAfter (name start : String) : List Char := name.toList.drop start.toList.length

/-- `int(text)` if `text.isdigit()`. Only ASCII digits are taken for digits here; `str.isdigit`
takes those of every script and the superscripts, on which `int` may raise. -/
def digitsValue (text : List Char) : Option ℕ :=
  if text ≠ [] ∧ text.all Char.isDigit then some (FloatText.natOf text) else none

/-- The period of a dynamic-period name: digits for a number from two on. -/
def periodAfter (name start : String) : Option ℕ :=
  (digitsValue (restAfter name start)).filter fun period => 2 ≤ period

/-- `_MACD_NAMES`. -/
def macdNames : List String := ["macd", "macd_signal", "macd_hist"]

/-- `_BB_NAMES`. -/
def bbNames : List String := ["bb_upper", "bb_middle", "bb_lower"]

/-- The starts of the dynamic Bollinger names. -/
def bbStarts : List String := ["bb_upper_", "bb_middle_", "bb_lower_"]

/-- `_canonical_family`. -/
def canonicalFamily (name : String) : String :=
  if macdNames.contains name then "macd"
  else if bbNames.contains name then "bb"
  else if bbStarts.any (startsWith name) then "bb"
  else name

/-- `_VP_ROOT_NAMES`. -/
def vpRootNames : List String := ["vp_poc", "vp_vah", "vp_val"]

/-- `_VP_DERIVED_NAMES`. -/
def vpDerivedNames : List String :=
  ["near_val", "near_vah", "above_value", "below_value", "inside_value", "at_poc",
    "balance_status", "rejection_from_edge", "acceptance_into_value",
    "acceptance_outside_value", "poc_rejection", "value_area_width_pct",
    "distance_to_vah_pct", "distance_to_val_pct", "value_area_migration",
    "edge_volume_building", "poc_slope_5", "poc_slope_20", "profile_shape",
    "day_type_classification", "stopping_volume", "climax_volume"]

/-- `_PREFIX_RECOMPUTE_NAMES` and `_PREFIX_RECOMPUTE_VP_NAMES`. -/
def causalNames : List String :=
  ["cvp_poc_5d", "cvp_poc_10d", "cvp_poc_20d", "cvp_vah_5d", "cvp_vah_10d", "cvp_vah_20d",
    "cvp_val_5d", "cvp_val_10d", "cvp_val_20d", "vp_poc_5d", "vp_poc_20d", "vp_vah_5d",
    "vp_vah_20d", "vp_val_5d", "vp_val_20d",
    "daily_vpin", "intraday_volume_curve", "empirical_volume_curve",
    "cumulative_signed_volume_ofi", "daily_return_kurtosis", "daily_return_skewness",
    "realized_vol_5m", "hurst_exponent", "bipower_variation", "realized_kurtosis",
    "realized_skewness", "return_volume_correlation", "market_regime", "fractal_regime",
    "day_type_classification", "breakout_quality", "breakout_signal",
    "premium_discount_zone", "price_vs_sma20", "balance_status", "alligator_jaw",
    "alligator_teeth", "alligator_lips", "proxy_atr", "proxy_iv", "proxy_expected_move",
    "parametric_u_shape", "profile_shape", "is_b_shape", "is_neutral_shape"]

/-- The starts of the rolling volume profile names. -/
def rvpStarts : List String := ["rvp_poc_", "rvp_vah_", "rvp_val_"]

/-- The starts of the multi-day volume profile names. -/
def multiDayStarts : List String :=
  ["vp_poc_", "vp_vah_", "vp_val_", "cvp_poc_", "cvp_vah_", "cvp_val_"]

/-- `_parse_window_bars`; `none` is its `ValueError`. -/
def parseWindowBars (name : String) : Option ℕ :=
  rvpStarts.findSome? fun start =>
    if startsWith name start then
      (digitsValue (restAfter name start)).filter fun window => 1 ≤ window
    else none

/-- The number of days in a multi-day name that ends in `d`. -/
def parseDays (name : String) : Option ℕ :=
  multiDayStarts.findSome? fun start =>
    if startsWith name start ∧ name.toList.getLast? = some 'd' then
      digitsValue (restAfter name start).dropLast
    else none

/-- `_is_rolling_vp`. -/
def isRollingVp (name : String) : Bool :=
  (parseWindowBars name).isSome || ((parseDays name).filter fun days => 1 ≤ days).isSome

/-! ## §2 Classification -/

/-- `_HAND_STREAMING`. -/
def handStreaming : List String :=
  ["sma_10", "sma_20", "sma_50", "sma_200", "ema_12", "ema_26", "rsi_7", "rsi_14", "atr",
    "adx", "macd", "macd_signal", "macd_hist", "bb_upper", "bb_middle", "bb_lower", "ker",
    "kama", "vwap", "ibs", "rvol"]

/-- `_DYNAMIC_PREFIXES`. -/
def dynamicStarts : List String :=
  ["sma_", "ema_", "rsi_", "atr_", "adx_", "bb_upper_", "bb_middle_", "bb_lower_"]

/-- `_is_dynamic`: the first start that fits decides. -/
def isDynamic (name : String) : Bool :=
  match dynamicStarts.find? (startsWith name) with
  | some start => (periodAfter name start).isSome
  | none => false

/-- `IndicatorKind`. -/
inductive IndicatorKind where
  | streaming
  | windowed
  deriving DecidableEq, Repr

/-- The handler registry: the names it knows, each with what it requires. No
handler is called `bb`, the family key of the Bollinger names. -/
structure HandlerRegistry where
  requires : List (String × List String)
  bb_free : requires.lookup "bb" = none

/-- `UnsupportedStreamingIndicatorError`. -/
def unsupportedError (name : String) : PyError :=
  .valueError
    { template := "Unknown streaming indicator: '%' — no registered handler and no matching dynamic/VP pattern"
      args := [.text name] }

/-- `classify_indicator`. -/
def classifyIndicator (registry : HandlerRegistry) (name : String) :
    Except PyError IndicatorKind :=
  if handStreaming.contains name then .ok .streaming
  else if isDynamic name then .ok .streaming
  else if isRollingVp name then .ok .windowed
  else if (registry.requires.lookup name).isSome then .ok .windowed
  else .error (unsupportedError name)

/-- `_any_transitive_depends_on_vp`: the walk over the `requires` graph. Each
name is pushed once as a request or once for each handler that requires it,
which bounds the number of pops. -/
def dependsOnVpLoop (registry : HandlerRegistry) : ℕ → List String → List String → Bool
  | 0, _, _ => false
  | _ + 1, [], _ => false
  | fuel + 1, name :: stack, seen =>
      if seen.contains name then dependsOnVpLoop registry fuel stack seen
      else
        match registry.requires.lookup name with
        | none => dependsOnVpLoop registry fuel stack (name :: seen)
        | some requires =>
            if requires.any vpRootNames.contains then true
            else dependsOnVpLoop registry fuel
              (requires.filter (fun dep => !(name :: seen).contains dep) ++ stack)
              (name :: seen)

def anyTransitiveDependsOnVp (registry : HandlerRegistry) (indicators : List String) : Bool :=
  let requests := indicators.filter fun name => !vpRootNames.contains name
  let pushes := requests.length + (registry.requires.map fun entry => entry.2.length).sum
  dependsOnVpLoop registry (pushes + 1) requests []

/-! ## §3 The factory -/

/-- The states registered under exact names. -/
def exactStates : List (String × HandState) :=
  [("macd", .macd MacdState.init), ("macd_signal", .macd MacdState.init),
    ("macd_hist", .macd MacdState.init), ("vwap", .vwap VwapState.init), ("ibs", .ibs ⟨none⟩),
    ("rvol", .rvol (RvolState.init 20)), ("ker", .ker (KerState.init 10)),
    ("kama", .kama KamaState.init), ("atr", .atr (AtrState.init 14)),
    ("adx", .adx (AdxState.init 14)), ("bb_upper", .bb (BbState.init 20)),
    ("bb_middle", .bb (BbState.init 20)), ("bb_lower", .bb (BbState.init 20))]

/-- The states registered under a start and a period. -/
def prefixedStates : List (String × (ℕ → HandState)) :=
  [("sma_", fun period => .sma (SmaState.init period)),
    ("ema_", fun period => .ema (EmaState.init period)),
    ("rsi_", fun period => .rsi (RsiState.init period)),
    ("atr_", fun period => .atr (AtrState.init period)),
    ("adx_", fun period => .adx (AdxState.init period)),
    ("bb_upper_", fun period => .bb (BbState.init period)),
    ("bb_middle_", fun period => .bb (BbState.init period)),
    ("bb_lower_", fun period => .bb (BbState.init period))]

/-- `StreamingStateFactory.build`. -/
def factoryBuild (name : String) : Option HandState :=
  match exactStates.lookup name with
  | some state => some state
  | none =>
      prefixedStates.findSome? fun entry =>
        if startsWith name entry.1 then (periodAfter name entry.1).map entry.2 else none

/-- The period of the Bollinger state that the factory builds for a name. -/
def bollingerPeriod (name : String) : Option ℕ :=
  match factoryBuild name with
  | some (.bb s) => some s.period
  | _ => none

end Finbar.Streaming
