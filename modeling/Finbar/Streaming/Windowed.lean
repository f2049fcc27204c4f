/-
Finbar.Streaming.Windowed — the streaming states that recompute a batch
handler: over a window (`WindowedIndicatorState`, `BatchedWindowedState`),
over all bars seen (`PrefixRecomputeIndicatorState`,
`RollingVolumeProfileState`) and over the last bars with the session profile
(`DirectVpDerivedState`).

The batch handlers are the parameter `Handlers`: functions of the frame they
are given, which may raise. An update returns the state it leaves, also when
it raises, and the exception.

No `sorry`, no `axiom`.
-/
import Finbar.Streaming.SessionVp

namespace Finbar.Streaming

open Lib Lib.Python

/-! ## §1 Frames and handlers -/

/-- A `DatetimeIndex` of `n` bars, in nanoseconds since the epoch; `none` is NaT. -/
abbrev BarIndex (n : ℕ) := { index : List (Option ℤ) // index.length = n }

/-- A row of a buffered frame: its index, its bar, and the cells injected into it. -/
structure FrameRow where
  index : Option ℤ
  bar : StreamBar
  cells : List (String × PyValue) := []

/-- The batch handlers, as the streaming states call them. -/
structure Handlers where
  /-- `pd.to_datetime(values, unit=unit, utc=True)`. -/
  toDatetime : Option String → (values : List PyValue) →
    Except PyError (BarIndex values.length)
  /-- The latest value of a metric over a window. -/
  windowed : String → List FrameRow → Except PyError PyValue
  /-- The latest values of several metrics over a window; the injected columns
  are not computed again. -/
  batched : List String → List String → List FrameRow →
    Except PyError (List (String × PyValue))
  /-- The latest values of metrics that need the session's levels; NaN is left out. -/
  derived : List String → List StreamBar → Option VpLevels →
    Except PyError (List (String × PyValue))
  /-- The latest value of a metric over all bars. -/
  causal : String → List StreamBar → Except PyError PyValue
  /-- The latest value of a rolling volume profile metric. -/
  rollingVp : String → ℕ → List StreamBar → Except PyError PyValue

/-- `float("nan")`. -/
def nan : PyValue := .num .nan

/-- A float that may be NaN, as a value. -/
def floatValue : Option ℚ → PyValue
  | some q => .ofRat q
  | none => nan

/-- The error of a window with a bar that has no timestamp. -/
def windowTimestampError (name : String) : PyError :=
  .valueError
    { template := "Indicator '%' requires real bar timestamps, but one or more buffered bars have no parseable 'timestamp' field. Provide int-second, ISO-8601, or datetime timestamps."
      args := [.text name] }

/-- The error of a batched window with such a bar. -/
def batchTimestampError : PyError :=
  .valueError
    { template := "Batched windowed state requires real bar timestamps, but one or more buffered bars have no parseable 'timestamp' field." }

/-- All bars have timestamps. -/
def allTimestamped (bars : List StreamBar) : Bool :=
  bars.all fun bar => bar.timestamp.isSome

/-- `MS_THRESHOLD`. -/
def msThreshold : ℚ := 10 ^ 11

/-- The unit in which a numeric timestamp is read. -/
def timestampUnit : PyValue → Option String
  | .num x => some (if (PyFloat.fin msThreshold).le x.abs then "ms" else "s")
  | _ => none

/-- `parse_bar_timestamps`, of at least one value. -/
def parseBarTimestamps (handlers : Handlers) (values : List PyValue) :
    Except PyError (BarIndex values.length) :=
  handlers.toDatetime (values.head?.bind timestampUnit) values

/-- `bar.get("timestamp")`, if it is not `None`. -/
def presentTimestamp (bar : StreamBar) : Option PyValue :=
  match bar.timestamp with
  | some .none => none
  | timestamp => timestamp

/-- The timestamps of bars, those of them that are present. -/
def presentTimestamps (bars : List StreamBar) : List PyValue :=
  bars.filterMap presentTimestamp

/-- The buffered bars that the frame gets: all of them the first time, then
the last one. -/
def freshBars (frame : Option (List FrameRow)) (buffer : List StreamBar) : List StreamBar :=
  match frame with
  | none => buffer
  | some _ => buffer.getLast?.toList

/-- The frame with rows for more bars, trimmed to the window. -/
def extendFrame (maxlen : ℕ) (frame : Option (List FrameRow)) (bars : List StreamBar)
    (index : List (Option ℤ)) : List FrameRow :=
  let rows := frame.getD [] ++
    List.zipWith (fun ts bar => { index := ts, bar := bar : FrameRow }) index bars
  rows.drop (rows.length - maxlen)

/-- `to_frame`: the maintained frame, extended by what is new in the buffer;
`missing` is raised for a bar without timestamp. -/
def toFrame (handlers : Handlers) (missing : PyError) (maxlen : ℕ)
    (frame : Option (List FrameRow)) (buffer : List StreamBar) :
    Except PyError (List FrameRow) :=
  if (presentTimestamps buffer).length ≠ buffer.length then .error missing
  else do
    let fresh := freshBars frame buffer
    let index ← parseBarTimestamps handlers (presentTimestamps fresh)
    return extendFrame maxlen frame fresh index.val

/-! ## §2 Windows -/

/-- `WindowedIndicatorState`. -/
structure WindowedIndicatorState where
  name : String
  maxlen : ℕ
  buffer : Deque StreamBar
  current : PyValue
  frame : Option (List FrameRow)

def WindowedIndicatorState.init (name : String) (maxlen : ℕ) : WindowedIndicatorState where
  name := name
  maxlen := max maxlen 1
  buffer := Deque.empty (max maxlen 1)
  current := nan
  frame := none

/-- `to_frame`. -/
def WindowedIndicatorState.toFrame (handlers : Handlers) (s : WindowedIndicatorState) :
    Except PyError (List FrameRow) :=
  Streaming.toFrame handlers (windowTimestampError s.name) s.maxlen s.frame s.buffer.items

def WindowedIndicatorState.update (handlers : Handlers) (s : WindowedIndicatorState)
    (bar : StreamBar) : WindowedIndicatorState × Option PyError :=
  let s := { s with buffer := s.buffer.push bar }
  if s.buffer.length < 2 then (s, none)
  else
    match s.toFrame handlers with
    | .error e => (s, some e)
    | .ok frame =>
        let s := { s with frame := some frame }
        match handlers.windowed s.name frame with
        | .error e => (s, some e)
        | .ok value => ({ s with current := value }, none)

def WindowedIndicatorState.reset (s : WindowedIndicatorState) : WindowedIndicatorState :=
  { s with buffer := s.buffer.clear, current := nan, frame := none }

/-- `BatchedWindowedState`. -/
structure BatchedWindowedState where
  names : List String
  maxlen : ℕ
  buffer : Deque StreamBar
  currents : List (String × PyValue)
  frame : Option (List FrameRow)
  /-- The values of each injected column. -/
  injected : List (String × Deque PyValue)

/-- A new state, with the columns that are injected into it. -/
def BatchedWindowedState.init (names : List String) (maxlen : ℕ) (columns : List String) :
    BatchedWindowedState where
  names := names
  maxlen := max maxlen 1
  buffer := Deque.empty (max maxlen 1)
  currents := names.map fun name => (name, nan)
  frame := none
  injected := columns.map fun column => (column, Deque.empty (max maxlen 1))

/-- `df[col] = values`: the cells of one column. -/
def setColumn (column : String) (values : List PyValue) (rows : List FrameRow) :
    List FrameRow :=
  List.zipWith
    (fun row value =>
      { row with cells := (column, value) :: row.cells.filter fun cell => cell.1 ≠ column })
    rows values

/-- The frame with every injected column that has a value for each row. -/
def injectColumns (injected : List (String × Deque PyValue)) (rows : List FrameRow) :
    List FrameRow :=
  injected.foldl
    (fun rows column =>
      if column.2.length = rows.length then setColumn column.1 column.2.items rows else rows)
    rows

/-- The values of the injected columns after those of one more bar. -/
def pushInjected (injected : List (String × Deque PyValue))
    (injectedValues : List (String × PyValue)) : List (String × Deque PyValue) :=
  injected.map fun column =>
    match injectedValues.lookup column.1 with
    | some value => (column.1, column.2.push value)
    | none => column

/-- `_to_frame`. -/
def BatchedWindowedState.toFrame (handlers : Handlers) (s : BatchedWindowedState) :
    Except PyError (List FrameRow) :=
  Streaming.toFrame handlers batchTimestampError s.maxlen s.frame s.buffer.items

def BatchedWindowedState.update (handlers : Handlers) (s : BatchedWindowedState)
    (bar : StreamBar) (injectedValues : List (String × PyValue)) :
    BatchedWindowedState × Option PyError :=
  let s := { s with
    buffer := s.buffer.push bar
    injected := pushInjected s.injected injectedValues }
  if s.buffer.length < 2 then (s, none)
  else
    match s.toFrame handlers with
    | .error e => (s, some e)
    | .ok rows =>
        let frame := injectColumns s.injected rows
        let s := { s with frame := some frame }
        match handlers.batched s.names (s.injected.map Prod.fst) frame with
        | .error e => (s, some e)
        | .ok values => ({ s with currents := values }, none)

def BatchedWindowedState.reset (s : BatchedWindowedState) : BatchedWindowedState :=
  { s with
    buffer := s.buffer.clear
    injected := s.injected.map fun column => (column.1, column.2.clear)
    currents := s.names.map fun name => (name, nan)
    frame := none }

/-! ## §3 All bars -/

/-- `PrefixRecomputeIndicatorState`. -/
structure CausalState where
  name : String
  bars : List StreamBar
  current : PyValue

def CausalState.init (name : String) : CausalState where
  name := name
  bars := []
  current := nan

def CausalState.update (handlers : Handlers) (s : CausalState) (bar : StreamBar) :
    CausalState × Option PyError :=
  let s := { s with bars := s.bars ++ [bar] }
  if s.bars.length < 2 then ({ s with current := nan }, none)
  else
    match handlers.causal s.name s.bars with
    | .error e => (s, some e)
    | .ok value => ({ s with current := value }, none)

def CausalState.reset (s : CausalState) : CausalState :=
  { s with bars := [], current := nan }

/-- `RollingVolumeProfileState`. -/
structure RollingVpState where
  name : String
  windowBars : ℕ
  bars : List StreamBar
  current : PyValue

def RollingVpState.init (name : String) (windowBars : ℕ) : RollingVpState where
  name := name
  windowBars := windowBars
  bars := []
  current := nan

def RollingVpState.update (handlers : Handlers) (s : RollingVpState) (bar : StreamBar) :
    RollingVpState × Option PyError :=
  let s := { s with bars := s.bars ++ [bar] }
  if s.bars.length < s.windowBars then ({ s with current := nan }, none)
  else
    match handlers.rollingVp s.name s.windowBars s.bars with
    | .error e => (s, some e)
    | .ok value => ({ s with current := value }, none)

def RollingVpState.reset (s : RollingVpState) : RollingVpState :=
  { s with bars := [], current := nan }

/-! ## §4 Metrics derived from the session profile -/

/-- `DirectVpDerivedState`. -/
structure VpDerivedState where
  names : List String
  values : List (String × PyValue)
  microBuf : Deque StreamBar
  volBuf : Deque StreamBar

def VpDerivedState.init (names : List String) : VpDerivedState where
  names := names
  values := []
  microBuf := Deque.empty 2
  volBuf := Deque.empty 20

/-- The metrics read off the closed sessions. -/
def slopeNames : List String := ["poc_slope_5", "poc_slope_20"]

/-- The metrics computed over the volume window. -/
def volumeNames : List String := ["stopping_volume", "climax_volume"]

/-- `_slope_names`. -/
def VpDerivedState.slopes (s : VpDerivedState) : List String :=
  s.names.filter fun name => slopeNames.contains name

/-- `_vol_names`. -/
def VpDerivedState.vols (s : VpDerivedState) : List String :=
  s.names.filter fun name => volumeNames.contains name

/-- `_micro_names`. -/
def VpDerivedState.micros (s : VpDerivedState) : List String :=
  s.names.filter fun name => !slopeNames.contains name && !volumeNames.contains name

/-- The slope a slope metric reads; `none` for other metrics. -/
def slopeValue (vp : SessionVpState) (name : String) : Option PyValue :=
  if name = "poc_slope_5" then some (floatValue (vp.pocSlope 5))
  else if name = "poc_slope_20" then some (floatValue (vp.pocSlope 20))
  else none

/-- `_compute_batch`: the values of metrics over a buffer. -/
def computeBatch (handlers : Handlers) (names : List String) (buffer : Deque StreamBar)
    (vp : SessionVpState) : Except PyError (List (String × PyValue)) :=
  if names = [] ∨ buffer.length < 2 then .ok []
  else if !allTimestamped buffer.items then .error (.keyError "timestamp")
  else handlers.derived names buffer.items vp.levels

/-- The value of each metric, given the results computed so far. -/
def VpDerivedState.valuesFrom (s : VpDerivedState) (vp : SessionVpState)
    (results : List (String × PyValue)) : List (String × PyValue) :=
  s.names.map fun name =>
    (name, (slopeValue vp name).getD ((results.lookup name).getD nan))

def VpDerivedState.update (handlers : Handlers) (s : VpDerivedState) (vp : SessionVpState)
    (bar : StreamBar) : VpDerivedState × Option PyError :=
  let s := { s with microBuf := s.microBuf.push bar, volBuf := s.volBuf.push bar }
  match computeBatch handlers s.micros s.microBuf vp with
  | .error e => ({ s with values := s.valuesFrom vp [] }, some e)
  | .ok micro =>
      match computeBatch handlers s.vols s.volBuf vp with
      | .error e => ({ s with values := s.valuesFrom vp micro }, some e)
      | .ok vol => ({ s with values := s.valuesFrom vp (micro ++ vol) }, none)

end Finbar.Streaming
