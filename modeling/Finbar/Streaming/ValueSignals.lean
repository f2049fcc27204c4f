/-
Finbar.Streaming.ValueSignals — the signals of the value area: acceptance into
and outside of it and its migration.

The batch functions (`amt_signals.py`, over the columns of `auction_state.py`)
compute a column from a frame in which every row has its own levels.
`DirectVpDerivedState` keeps the last two bars and runs the same functions on
them, with the session's current levels in both rows. The metrics whose
handlers are elsewhere are the parameter `others`.

A frame of two rows is below the ten that `PandasTaIndicatorCalculator` asks
for, so the dependencies the state computes first leave it as it is.

No `sorry`, no `axiom`.
-/
import Finbar.Lib.Series
import Finbar.Streaming.Windowed

namespace Finbar.Streaming

open Lib Lib.Python Lib.Series

/-! ## §1 Levels -/

/-- `vp_poc`, `vp_vah` and `vp_val`; each may be NaN. -/
structure ValueLevels where
  poc : PyFloat
  vah : PyFloat
  val : PyFloat
  deriving DecidableEq

/-- A row of the frame that the signals are computed from. -/
structure ValueRow where
  /-- `df.index.date`. -/
  date : String
  close : ℚ
  levels : ValueLevels
  deriving DecidableEq

namespace ValueLevels

/-- `(close >= val) & (close <= vah)`. -/
def inside (levels : ValueLevels) (close : ℚ) : Bool :=
  levels.val.le (.fin close) && (PyFloat.fin close).le levels.vah

/-- `(close > vah) | (close < val)`. -/
def outside (levels : ValueLevels) (close : ℚ) : Bool :=
  levels.vah.lt (.fin close) || (PyFloat.fin close).lt levels.val

end ValueLevels

/-- `inside_value`. -/
def ValueRow.inside (row : ValueRow) : Bool :=
  row.levels.inside row.close

/-- `above_value | below_value`. -/
def ValueRow.outside (row : ValueRow) : Bool :=
  row.levels.outside row.close

/-! ## §2 The batch functions -/

/-- `_acceptance_into_value`: comparisons with what a shift leaves missing are
false. -/
def acceptanceIntoValue (rows : List ValueRow) : List Bool :=
  List.zipWith (fun previous now => previous.any ValueRow.outside && now.inside)
    (shift rows) rows

/-- `_acceptance_outside_value`. -/
def acceptanceOutsideValue (rows : List ValueRow) : List Bool :=
  List.zipWith (fun previousInside now => previousInside.getD false && now.outside)
    (shift (rows.map ValueRow.inside)) rows

/-- The cells of `value_area_migration`. -/
inductive Migration where
  | higher
  | lower
  | stable
  | unknown
  deriving DecidableEq, Repr

/-- How a cell is spelled. -/
def Migration.text : Migration → String
  | .higher => "HIGHER"
  | .lower => "LOWER"
  | .stable => "STABLE"
  | .unknown => "UNKNOWN"

/-- `date_series != date_series.shift(1)`. -/
def sessionChange (previous : Option ValueRow) (now : ValueRow) : Bool :=
  decide (previous.map ValueRow.date ≠ some now.date)

/-- The result in the first row of a session. -/
def migrationFrom (previous : Option ValueRow) (now : ValueRow) : Migration :=
  match previous with
  | none => .unknown
  | some previous =>
      if previous.levels.poc.lt now.levels.poc then .higher
      else if now.levels.poc.lt previous.levels.poc then .lower
      else if now.levels.poc.le previous.levels.poc && previous.levels.poc.le now.levels.poc then
        .stable
      else .unknown

/-- `_value_area_migration`. -/
def valueAreaMigration (rows : List ValueRow) : List (Option Migration) :=
  ffill (List.zipWith
    (fun previous now =>
      if sessionChange previous now then some (migrationFrom previous now) else none)
    (shift rows) rows)

/-! ## §3 The latest value of a signal -/

/-- The three signals. -/
inductive ValueSignal where
  | acceptanceIntoValue
  | acceptanceOutsideValue
  | valueAreaMigration
  deriving DecidableEq, Repr

namespace ValueSignal

/-- The column's name. -/
def name : ValueSignal → String
  | .acceptanceIntoValue => "acceptance_into_value"
  | .acceptanceOutsideValue => "acceptance_outside_value"
  | .valueAreaMigration => "value_area_migration"

/-- The signal of a name. -/
def ofName (name : String) : Option ValueSignal :=
  if name = "acceptance_into_value" then some .acceptanceIntoValue
  else if name = "acceptance_outside_value" then some .acceptanceOutsideValue
  else if name = "value_area_migration" then some .valueAreaMigration
  else none

theorem ofName_name (signal : ValueSignal) : ofName signal.name = some signal := by
  cases signal <;> decide

/-- The signal's column of a frame. -/
def column (signal : ValueSignal) (rows : List ValueRow) : List PyValue :=
  match signal with
  | .acceptanceIntoValue => (Streaming.acceptanceIntoValue rows).map PyValue.bool
  | .acceptanceOutsideValue => (Streaming.acceptanceOutsideValue rows).map PyValue.bool
  | .valueAreaMigration => (Streaming.valueAreaMigration rows).map fun cell =>
      match cell with
      | some migration => .str migration.text
      | none => .none

end ValueSignal

/-- `_last_value` of a column, with NaN for a failure: booleans stay as they
are, anything else becomes a float. -/
def lastValue (column : List PyValue) : PyValue :=
  match column.getLast? with
  | none => nan
  | some (.bool b) => .bool b
  | some value =>
      match value.toFloat with
      | .ok x => .num x
      | .error _ => nan

/-! ## §4 The direct state -/

variable (indexDate : PyValue → Except PyError String)
  (others : String → List ValueRow → PyValue)

/-- A row of a frame: the bar's timestamp is parsed for the index. -/
def valueRow (levels : ValueLevels) (bar : StreamBar) : Except PyError ValueRow :=
  match bar.timestamp with
  | none => .error (.keyError "timestamp")
  | some ts => do
      let date ← indexDate ts
      return { date := date, close := bar.close, levels := levels }

/-- The frame in which every row has its own levels. -/
def batchFrame (inputs : List (StreamBar × ValueLevels)) : Except PyError (List ValueRow) :=
  inputs.mapM fun input => valueRow indexDate input.2 input.1

/-- The frame of the buffered bars, with the current levels in every row. -/
def microFrame (levels : ValueLevels) (bars : List StreamBar) :
    Except PyError (List ValueRow) :=
  if !allTimestamped bars then .error (.keyError "timestamp")
  else bars.mapM (valueRow indexDate levels)

/-- The latest value of a requested name. -/
def lastOf (name : String) (frame : List ValueRow) : PyValue :=
  match ValueSignal.ofName name with
  | some signal => lastValue (signal.column frame)
  | none => others name frame

/-- `DirectVpDerivedState`, as far as its micro window goes; `names` are its
`_micro_names`. -/
structure DirectState where
  names : List String
  values : List (String × PyValue)
  microBuf : Deque StreamBar

/-- `__init__`. -/
def DirectState.init (names : List String) : DirectState where
  names := names
  values := []
  microBuf := Deque.empty 2

/-- A value that is missing stays NaN. -/
def captured (value : PyValue) : PyValue :=
  if value.isMissing then nan else value

/-- `update`: `levels` are those of the session profile after the bar. -/
def DirectState.update (s : DirectState) (levels : ValueLevels) (bar : StreamBar) :
    Except PyError DirectState :=
  let s := { s with microBuf := s.microBuf.push bar }
  if s.names = [] ∨ s.microBuf.length < 2 then
    .ok { s with values := s.names.map fun name => (name, nan) }
  else do
    let frame ← microFrame indexDate levels s.microBuf.items
    return { s with values := s.names.map fun name => (name, captured (lastOf others name frame)) }

/-- The state after the updates of a sequence. -/
def directRun (names : List String) (inputs : List (StreamBar × ValueLevels)) :
    Except PyError DirectState :=
  inputs.foldlM (fun s input => s.update indexDate others input.2 input.1) (DirectState.init names)

/-- What a state reports for a name. -/
def DirectState.reported (s : DirectState) (name : String) : Option PyValue :=
  s.values.lookup name

/-! ## §5 In the engine -/

/-- The levels of a session profile, NaN as long as there are none. -/
def ValueLevels.ofProfile (levels : Option VpLevels) : ValueLevels where
  poc := (levels.map fun found => PyFloat.fin found.poc).getD .nan
  vah := (levels.map fun found => PyFloat.fin found.vah).getD .nan
  val := (levels.map fun found => PyFloat.fin found.val).getD .nan

/-- The handlers that an engine's derived state calls, given by the frame. -/
def derivedSignals (names : List String) (bars : List StreamBar) (levels : Option VpLevels) :
    Except PyError (List (String × PyValue)) := do
  let frame ← microFrame indexDate (ValueLevels.ofProfile levels) bars
  return names.filterMap fun name =>
    let value := lastOf others name frame
    if value.isMissing then none else some (name, value)

end Finbar.Streaming
