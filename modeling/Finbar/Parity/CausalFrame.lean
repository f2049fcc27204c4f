/-
Finbar.Parity.CausalFrame — `build_causal_frame`: the frame that a strategy
is evaluated on in live-parity mode.

The enricher is given the accepted definition, the indicators it requires and
the informative bars by alias. Beside it stands what the frame is to hold:
the as-of value of each indicator, computed from the bars of the indicator's
own timeframe.

No `sorry`, no `axiom`.
-/
import Finbar.Enrichment.TrackTheorems
import Finbar.Parity.FrameDependency

namespace Finbar.Parity

open Lib Lib.Python Lib.AsOf Finbar.Streaming Finbar.Enrichment
open Finbar.Parser (StrategyDefinition AcceptedStrategy IndicatorSpec)

/-! ## §1 The frame -/

/-- The informative bars of a request: none, a list for a single informative
timeframe, or a map from alias to bars. -/
inductive InformativeBars where
  | absent
  | flat (bars : List StreamBar)
  | byAlias (bars : OrderedDict String (List StreamBar))

/-- `_normalise_informative`. -/
def normaliseInformative : InformativeBars → OrderedDict String (List StreamBar)
  | .absent => {}
  | .flat bars => OrderedDict.assign {} "h1" bars
  | .byAlias bars => bars

/-- The timeframes as the enricher reads them: it has no use for symbols. -/
def enricherTimeframes (timeframes : Parser.TimeframeDeclaration) : TimeframeDeclaration where
  primary := timeframes.primary
  informative := timeframes.informative.map fun item => ⟨item.aliasName, item.interval⟩

/-- What the enricher is created with for an accepted definition. -/
def frameSettings (accepted : AcceptedStrategy) (marketCalendar : String) :
    EnricherSettings where
  timeframes := accepted.definition.timeframes.map enricherTimeframes
  primaryIndicators := accepted.primaryRequiredIndicators
  informativeIndicators := informativeRequiredIndicators accepted.definition.indicators
  marketCalendar := marketCalendar

/-- `build_causal_frame`: the rows of the frame. -/
def buildCausalFrame (env : Environment) (accepted : AcceptedStrategy)
    (marketCalendar : String) (primaryBars : List StreamBar)
    (informativeBars : InformativeBars) : Except PyError (List Row) :=
  causalEnrichBars env (frameSettings accepted marketCalendar) true primaryBars
    (normaliseInformative informativeBars)

/-! ## §2 What it is to hold -/

/-- The bars of an informative timeframe's own: a flat list is for the only
timeframe that is declared, whatever its alias. -/
def InformativeBars.ownBars : InformativeBars → String → List StreamBar
  | .absent, _ => []
  | .flat bars, _ => bars
  | .byAlias bars, aliasName => (bars.get aliasName).getD []

/-- The as-of row of an informative timeframe, computed from its bars: the
last one that is available at `t`. -/
def asOfRow (env : Environment) (settings : EnricherSettings) (item : InformativeTimeframe)
    (bars : List StreamBar) (t : Timestamp) : Except PyError (Option Row) := do
  let rows ← enrichInfo env settings item.aliasName bars
  let offset ← intervalOffset item.interval
  return (asOf (available offset rows) t).map Prod.snd

/-- The row has, in the indicator's expected column, the as-of value of its
timeframe, and no value as long as there is none. -/
def HoldsAsOf (env : Environment) (settings : EnricherSettings) (item : InformativeTimeframe)
    (bars : List StreamBar) (indicator : IndicatorSpec) (bar : StreamBar) (row : Row) : Prop :=
  ∀ t own, barOpenTs env bar = .ok t → asOfRow env settings item bars t = .ok own →
    row.get indicator.columnName = own.bind fun infoRow => infoRow.get indicator.concreteName

/-- The frame serves every informative timeframe from its own bars. -/
structure ServesOwnBars (env : Environment) (definition : StrategyDefinition)
    (settings : EnricherSettings) (primaryBars : List StreamBar)
    (informativeBars : InformativeBars) (rows : List Row) : Prop where
  /-- Indicators of different timeframes have different columns. -/
  apart : ∀ a ∈ definition.indicators, ∀ b ∈ definition.indicators,
    a.timeframe ≠ b.timeframe → a.columnName ≠ b.columnName
  /-- Every row has the as-of values of its bar. -/
  asOf : ∀ item ∈ settings.informative, ∀ indicator ∈ definition.indicators,
    indicator.timeframe = item.aliasName →
    List.Forall₂ (HoldsAsOf env settings item (informativeBars.ownBars item.aliasName) indicator)
      primaryBars rows

/-! ## §3 When it holds that -/

/-- No indicator is declared on two informative timeframes of one interval, and
no primary indicator is called like the suffixed column of an informative
one. -/
structure KeptApart (definition : StrategyDefinition)
    (informative : List InformativeTimeframe) : Prop where
  intervals : ∀ a ∈ definition.indicators, ∀ b ∈ definition.indicators,
    ∀ item ∈ informative, ∀ other ∈ informative, a.timeframe = item.aliasName →
    b.timeframe = other.aliasName → a.concreteName = b.concreteName →
    item.interval = other.interval → item.aliasName = other.aliasName
  primary : ∀ a ∈ definition.indicators, ∀ b ∈ definition.indicators,
    ∀ item ∈ informative, a.timeframe = "primary" → b.timeframe = item.aliasName →
    a.concreteName ≠ b.concreteName ++ "_" ++ item.interval

/-- The bars reach the enricher under the timeframe's alias. -/
def InformativeBars.Reaches (informativeBars : InformativeBars) (aliasName : String) : Prop :=
  ∀ bars, informativeBars = .flat bars → aliasName = "h1"

/-- At none of the primary bars is a row of the timeframe's own available. -/
def NeverAvailable (env : Environment) (settings : EnricherSettings)
    (primaryBars : List StreamBar) (item : InformativeTimeframe) (bars : List StreamBar) :
    Prop :=
  ∀ bar ∈ primaryBars, ∀ t, barOpenTs env bar = .ok t →
    ∀ infoRow, asOfRow env settings item bars t ≠ .ok (some infoRow)

/-- Every indicator of an informative timeframe is merged under a name that is
not one of a bar's fields, from bars that reach the enricher, or there is
nothing to merge. -/
def Delivered (env : Environment) (definition : StrategyDefinition)
    (settings : EnricherSettings) (primaryBars : List StreamBar)
    (informativeBars : InformativeBars) : Prop :=
  ∀ item ∈ settings.informative, ∀ indicator ∈ definition.indicators,
    indicator.timeframe = item.aliasName →
    (indicator.concreteName ∉ ohlcv ∧ informativeBars.Reaches item.aliasName) ∨
      NeverAvailable env settings primaryBars item (informativeBars.ownBars item.aliasName)

/-- Raw bars: no field of a bar is called like an indicator. -/
structure RawBars (definition : StrategyDefinition) (primaryBars : List StreamBar)
    (informativeBars : InformativeBars) : Prop where
  primary : ∀ bar ∈ primaryBars, ∀ field ∈ bar.extra, ∀ indicator ∈ definition.indicators,
    field.1 ≠ indicator.columnName
  informative : ∀ aliasName, ∀ bar ∈ informativeBars.ownBars aliasName, ∀ field ∈ bar.extra,
    ∀ indicator ∈ definition.indicators, field.1 ≠ indicator.concreteName

end Finbar.Parity
