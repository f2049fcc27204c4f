/-
Finbar.Streaming.PocSlope — the slope of the POC over sessions:
`compute_poc_slope` (`wyckoff_phase.py`) over the frame of the bars so far, and
the values that `DirectVpDerivedState` reports beside the session profile.

What the frame's `vp_poc` column holds at a bar is a function `column` of the
bars of its session so far. `none` is NaN. Dates are ISO texts, so they are
ordered as texts.

No `sorry`, no `axiom`.
-/
import Finbar.Lib.Grouping
import Finbar.Streaming.SessionVpTheorems
import Finbar.Streaming.Windowed
import Mathlib.Data.String.Basic

namespace Finbar.Streaming

open Lib Lib.Python Lib.Grouping

/-! ## §1 The batch function -/

/-- A row of the frame: `df.index.date` and `vp_poc`. -/
structure PocRow where
  date : String
  poc : Option ℚ
  deriving DecidableEq

/-- `sorted(date_series.unique())`. -/
def orderedDates (rows : List PocRow) : List String :=
  (rows.map PocRow.date).dedup.insertionSort (· ≤ ·)

/-- `session_pocs[date]`: the POC in the last row of a date. -/
def sessionPoc (rows : List PocRow) (date : String) : Option ℚ :=
  (rows.filter fun row => row.date = date).getLast?.bind PocRow.poc

/-- `(new_poc - old_poc) / old_poc * 100.0`, if the old one is positive. -/
def pctChange (oldPoc newPoc : ℚ) : Option ℚ :=
  if 0 < oldPoc then some ((newPoc - oldPoc) / oldPoc * 100) else none

/-- What the loop assigns to the rows of a date. -/
def sessionSlope (rows : List PocRow) (window : ℕ) (date : String) : Option ℚ :=
  let dates := orderedDates rows
  let i := dates.idxOf date
  if i < window then none
  else
    match sessionPoc rows (dates.getD (i - window) ""), sessionPoc rows date with
    | some oldPoc, some newPoc => pctChange oldPoc newPoc
    | _, _ => none

/-- `compute_poc_slope`, on a frame that has the column. -/
def computePocSlope (rows : List PocRow) (window : ℕ) : List (Option ℚ) :=
  rows.map fun row => sessionSlope rows window row.date

/-! ## §2 The frame of the bars so far -/

/-- The date of a bar's timestamp. -/
def dateOf (sessionDateOf : PyValue → String) (bar : StreamBar) : String :=
  (barDate sessionDateOf bar).getD ""

/-- The sessions of a sequence of bars. -/
def sessionsOf (sessionDateOf : PyValue → String) (bars : List StreamBar) : Grouped StreamBar :=
  group (dateOf sessionDateOf) bars

/-- The frame of a sequence of bars: each row has the POC known at its bar. -/
def pocFrame (sessionDateOf : PyValue → String) (column : List StreamBar → Option ℚ)
    (bars : List StreamBar) : List PocRow :=
  bars.zipIdx.map fun (bar, i) =>
    { date := dateOf sessionDateOf bar
      poc := column (sessionsOf sessionDateOf (bars.take (i + 1))).current }

/-- The batch slope at the last row. -/
def batchSlope (sessionDateOf : PyValue → String) (column : List StreamBar → Option ℚ)
    (window : ℕ) (bars : List StreamBar) : Option ℚ :=
  (computePocSlope (pocFrame sessionDateOf column bars) window).getLast?.join

/-! ## §3 The streaming states -/

/-- The session profile and the metrics derived from it, after a sequence of
bars: the engine updates the profile first. -/
def derivedAfter (sessionDateOf : PyValue → String) (distribute : Distribution)
    (handlers : Handlers) (names : List String) (bars : List StreamBar) :
    SessionVpState × VpDerivedState :=
  bars.foldl
    (fun (vp, derived) bar =>
      let vp := vp.update sessionDateOf distribute bar
      (vp, (derived.update handlers vp bar).1))
    (SessionVpState.init, VpDerivedState.init names)

/-- The value that is reported for a name. -/
def derivedValue (sessionDateOf : PyValue → String) (distribute : Distribution)
    (handlers : Handlers) (names : List String) (bars : List StreamBar) (name : String) :
    Option PyValue :=
  (derivedAfter sessionDateOf distribute handlers names bars).2.values.lookup name

/-- The slope metrics and their windows. -/
def slopeWindows : List (String × ℕ) := [("poc_slope_5", 5), ("poc_slope_20", 20)]

end Finbar.Streaming
