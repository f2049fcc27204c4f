/-
Finbar.Enrichment.Interval — bar intervals: `interval_offset` of the bar
merger, `IntervalContext` and `IntervalAwareWindowResolver`.

The regular expression `^(\d+)\s*(min|m|h|d|w)$` that both read an interval
with is `parseInterval`.

No `sorry`, no `axiom`.
-/
import Finbar.Streaming.Names
import Finbar.Lib.PyValue

namespace Finbar.Enrichment

open Lib.Python Finbar.Streaming

/-! ## §1 Interval strings -/

/-- The units of an interval string. -/
inductive IntervalUnit where
  | minute
  | hour
  | day
  | week
  deriving DecidableEq, Repr

/-- The unit that a suffix names. -/
def IntervalUnit.ofSuffix (suffix : List Char) : Option IntervalUnit :=
  if suffix = "min".toList ∨ suffix = "m".toList then some .minute
  else if suffix = "h".toList then some .hour
  else if suffix = "d".toList then some .day
  else if suffix = "w".toList then some .week
  else none

/-- `_INTERVAL_RE.match`, after `lower().strip()`. -/
def parseInterval (interval : String) : Option (ℕ × IntervalUnit) :=
  let normalized := strip (interval.toList.map Char.toLower)
  let digits := normalized.takeWhile Char.isDigit
  let suffix := (normalized.dropWhile Char.isDigit).dropWhile isSpace
  if digits = [] then none
  else (IntervalUnit.ofSuffix suffix).map fun unit => (FloatText.natOf digits, unit)

/-- `_minutes`. -/
def minutesOf (amount : ℕ) : IntervalUnit → ℕ
  | .minute => amount
  | .hour => amount * 60
  | .day => amount * 24 * 60
  | .week => amount * 7 * 24 * 60

/-- `interval_offset`: the interval as a `pd.Timedelta`, in nanoseconds. -/
def intervalOffset (interval : String) : Except PyError ℤ :=
  match parseInterval interval with
  | none =>
      .error (.valueError
        { template := "Unsupported informative interval for no-lookahead merge: %. Expected a value like '5m', '15min', '1h', '1d', or '1w'."
          args := [.text interval] })
  | some (amount, unit) => .ok ((minutesOf amount unit * 60 * 1000000000 : ℕ) : ℤ)

/-- No interval lies in the past. -/
theorem intervalOffset_nonneg {interval : String} {offset : ℤ}
    (h : intervalOffset interval = .ok offset) : 0 ≤ offset := by
  unfold intervalOffset at h
  split at h
  · cases h
  · obtain rfl := Except.ok.inj h
    exact Int.natCast_nonneg _

/-! ## §2 Session windows -/

/-- `IntervalContext.bars_per_session`. -/
def barsPerSession (interval marketCalendar : String) : Except PyError ℕ :=
  match parseInterval interval with
  | none =>
      .error (.valueError
        { template := "IntervalContext cannot resolve bars-per-session for unknown interval %."
          args := [.text interval] })
  | some (amount, unit) => do
      let minutesPerSession ←
        if marketCalendar = "crypto_24_7" then .ok (24 * 60)
        else if marketCalendar = "equity_regular_hours" then .ok 390
        else
          .error (.valueError
            { template := "IntervalContext cannot resolve bars-per-session for unknown market calendar %."
              args := [.text marketCalendar] })
      let minutesPerBar := minutesOf amount unit
      if minutesPerBar = 0 then
        .error (.valueError
          { template := "Interval % yields non-positive bar length", args := [.text interval] })
      else .ok (max (minutesPerSession / minutesPerBar) 1)

/-- `_lookback_sessions`. -/
def lookbackSessions (metricName : String) : Option ℕ :=
  let sessions :=
    if startsWith metricName "poc_slope_" then digitsValue (restAfter metricName "poc_slope_")
    else none
  match sessions with
  | some sessions => some sessions
  | none =>
      if metricName = "wyckoff_phase" then some 20
      else if metricName = "value_area_migration" then some 1
      else none

/-- `IntervalAwareWindowResolver.resolve`. -/
def resolveSessionWindow (interval marketCalendar metricName : String) :
    Except PyError (Option ℕ) :=
  match lookbackSessions metricName with
  | none => .ok none
  | some sessions => do
      let bars ← barsPerSession interval marketCalendar
      return some (max ((sessions + 1) * bars) 10)

/-- `_build_window_resolver_for_interval`, with the condition under which it
is called: a resolver when a market calendar is given. -/
def windowResolverFor (interval marketCalendar : String) :
    Option (String → Except PyError (Option ℕ)) :=
  if marketCalendar = "" then none
  else some (resolveSessionWindow interval marketCalendar)

example : intervalOffset " 15 Min" = .ok 900000000000 := by decide +kernel

example : resolveSessionWindow "30min" "crypto_24_7" "poc_slope_20" = .ok (some 1008) := by
  decide +kernel

end Finbar.Enrichment
