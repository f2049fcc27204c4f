/-
Finbar.Streaming.States — the hand-written streaming states: `sma_N`,
`ema_N`, `rsi_N`, `atr_N`, `adx_N`, the Bollinger and MACD families, `vwap`,
`ibs`, `rvol`, `ker` and `kama`.

A value is `none` where the code has NaN. An attribute that the code keeps at
NaN until it is seeded is an `Option`, which makes its `_seeded` flag
redundant. `HandState` is the union of the states; its `attr` reads the
properties by name.

No `sorry`, no `axiom`.
-/
import Finbar.Lib.Deque
import Finbar.Streaming.VolumeProfile

namespace Finbar.Streaming

open Lib Lib.Python

/-! ## §1 Rolling windows -/

/-- The item that a push onto a full window drops; nothing is zero. -/
def evicted (window : Deque ℚ) : ℚ :=
  if window.isFull then window.items.headD 0 else 0

/-- `SmaState`. -/
structure SmaState where
  period : ℕ
  buffer : Deque ℚ
  runningSum : ℚ

def SmaState.init (period : ℕ) : SmaState where
  period := max 1 period
  buffer := Deque.empty (max 1 period)
  runningSum := 0

def SmaState.update (s : SmaState) (bar : StreamBar) : SmaState :=
  { s with
    runningSum := s.runningSum - evicted s.buffer + bar.close
    buffer := s.buffer.push bar.close }

def SmaState.reset (s : SmaState) : SmaState :=
  { s with buffer := s.buffer.clear, runningSum := 0 }

def SmaState.value (s : SmaState) : Option ℚ :=
  if s.buffer.length < s.period then none else some (s.runningSum / s.buffer.length)

/-- `BbState`; its band is two standard deviations wide. -/
structure BbState where
  period : ℕ
  buffer : Deque ℚ
  sum : ℚ
  sumSq : ℚ

def BbState.init (period : ℕ) : BbState where
  period := max 2 period
  buffer := Deque.empty (max 2 period)
  sum := 0
  sumSq := 0

def BbState.update (s : BbState) (bar : StreamBar) : BbState :=
  let old := evicted s.buffer
  { s with
    buffer := s.buffer.push bar.close
    sum := s.sum - old + bar.close
    sumSq := s.sumSq - old * old + bar.close * bar.close }

def BbState.reset (s : BbState) : BbState :=
  { s with buffer := s.buffer.clear, sum := 0, sumSq := 0 }

/-- `_std`: the sample standard deviation. -/
def BbState.std (sqrt : ℚ → ℚ) (s : BbState) : ℚ :=
  let n : ℚ := s.buffer.length
  if s.buffer.length < 2 then 0
  else
    let mean := s.sum / n
    let variance := max (s.sumSq / n - mean * mean) 0
    sqrt (variance * n / (n - 1))

def BbState.middle (s : BbState) : Option ℚ :=
  if s.buffer.length < s.period then none else some (s.sum / s.buffer.length)

/-- The band `deviations` standard deviations from the middle. -/
def BbState.band (sqrt : ℚ → ℚ) (s : BbState) (deviations : ℚ) : Option ℚ :=
  s.middle.map fun middle =>
    if s.std sqrt = 0 then middle else middle + deviations * s.std sqrt

def BbState.upper (sqrt : ℚ → ℚ) (s : BbState) : Option ℚ := s.band sqrt 2

def BbState.lower (sqrt : ℚ → ℚ) (s : BbState) : Option ℚ := s.band sqrt (-2)

/-- `RvolState`. -/
structure RvolState where
  period : ℕ
  volBuffer : Deque ℚ
  volSum : ℚ

def RvolState.init (period : ℕ) : RvolState where
  period := max 1 period
  volBuffer := Deque.empty (max 1 period)
  volSum := 0

def RvolState.update (s : RvolState) (bar : StreamBar) : RvolState :=
  { s with
    volSum := s.volSum - evicted s.volBuffer + bar.volume
    volBuffer := s.volBuffer.push bar.volume }

def RvolState.reset (s : RvolState) : RvolState :=
  { s with volBuffer := s.volBuffer.clear, volSum := 0 }

def RvolState.value (s : RvolState) : Option ℚ :=
  if s.volBuffer.length < s.period then none
  else
    let avg := s.volSum / s.volBuffer.length
    if avg = 0 then none else s.volBuffer.items.getLast?.map (· / avg)

/-- `KerState`. -/
structure KerState where
  period : ℕ
  closes : Deque ℚ
  absChanges : Deque ℚ
  absChangesSum : ℚ
  prevClose : Option ℚ

def KerState.init (period : ℕ) : KerState where
  period := max 2 period
  closes := Deque.empty (max 2 period + 1)
  absChanges := Deque.empty (max 2 period)
  absChangesSum := 0
  prevClose := none

def KerState.update (s : KerState) (bar : StreamBar) : KerState :=
  match s.prevClose with
  | none => { s with prevClose := some bar.close, closes := s.closes.push bar.close }
  | some prev =>
      let absChange := |bar.close - prev|
      { s with
        prevClose := some bar.close
        absChangesSum := s.absChangesSum - evicted s.absChanges + absChange
        absChanges := s.absChanges.push absChange
        closes := s.closes.push bar.close }

def KerState.reset (s : KerState) : KerState :=
  { s with
    closes := s.closes.clear
    absChanges := s.absChanges.clear
    absChangesSum := 0
    prevClose := none }

def KerState.value (s : KerState) : Option ℚ :=
  if s.closes.length < s.period + 1 then none
  else
    let numerator := |s.closes.items.getLastD 0 - s.closes.items.headD 0|
    if s.absChangesSum = 0 then if numerator = 0 then some 0 else none
    else some (numerator / s.absChangesSum)

/-- `KamaState`, with its default constants. -/
structure KamaState where
  ker : KerState
  kama : Option ℚ

def KamaState.init : KamaState where
  ker := KerState.init 10
  kama := none

/-- The smoothing constant for an efficiency ratio. -/
def KamaState.smoothing (er : ℚ) : ℚ := (er * (2 / 3 - 2 / 31) + 2 / 31) ^ 2

def KamaState.update (s : KamaState) (bar : StreamBar) : KamaState :=
  let ker := s.ker.update bar
  match ker.value, s.kama with
  | none, _ => { s with ker := ker }
  | some _, none => { ker := ker, kama := some bar.close }
  | some er, some kama =>
      { ker := ker, kama := some (kama + KamaState.smoothing er * (bar.close - kama)) }

def KamaState.reset (s : KamaState) : KamaState :=
  { ker := s.ker.reset, kama := none }

/-! ## §2 Exponential averages -/

/-- `EmaState`: seeded with the mean of its first `period` values. -/
structure EmaState where
  period : ℕ
  ema : Option ℚ
  seedBuffer : Deque ℚ
  seedSum : ℚ

def EmaState.init (period : ℕ) : EmaState where
  period := max 2 period
  ema := none
  seedBuffer := Deque.empty (max 2 period)
  seedSum := 0

/-- `update` with the close of a bar. -/
def EmaState.updateClose (s : EmaState) (close : ℚ) : EmaState :=
  match s.ema with
  | none =>
      let seedBuffer := s.seedBuffer.push close
      let seedSum := s.seedSum + close
      { s with
        seedBuffer := seedBuffer
        seedSum := seedSum
        ema := if seedBuffer.length = s.period then some (seedSum / s.period) else none }
  | some ema =>
      let alpha := 2 / ((s.period : ℚ) + 1)
      { s with ema := some (alpha * close + (1 - alpha) * ema) }

def EmaState.update (s : EmaState) (bar : StreamBar) : EmaState := s.updateClose bar.close

def EmaState.reset (s : EmaState) : EmaState :=
  { s with seedBuffer := s.seedBuffer.clear, seedSum := 0, ema := none }

/-- `MacdState`. -/
structure MacdState where
  fast : EmaState
  slow : EmaState
  signal : EmaState
  macd : Option ℚ
  signalVal : Option ℚ

def MacdState.init : MacdState where
  fast := EmaState.init 12
  slow := EmaState.init 26
  signal := EmaState.init 9
  macd := none
  signalVal := none

def MacdState.update (s : MacdState) (bar : StreamBar) : MacdState :=
  let fast := s.fast.update bar
  let slow := s.slow.update bar
  match fast.ema, slow.ema with
  | some fastVal, some slowVal =>
      let signal := s.signal.updateClose (fastVal - slowVal)
      { fast := fast, slow := slow, signal := signal, macd := some (fastVal - slowVal),
        signalVal := signal.ema }
  | _, _ => { s with fast := fast, slow := slow }

def MacdState.reset (s : MacdState) : MacdState where
  fast := s.fast.reset
  slow := s.slow.reset
  signal := s.signal.reset
  macd := none
  signalVal := none

def MacdState.hist (s : MacdState) : Option ℚ :=
  match s.macd, s.signalVal with
  | some macd, some signal => some (macd - signal)
  | _, _ => none

/-! ## §3 Wilder averages -/

/-- Wilder smoothing: `α·x + (1 − α)·previous` with `α = 1/period`. -/
def wilder (period : ℕ) (x previous : ℚ) : ℚ :=
  let alpha := 1 / (period : ℚ)
  alpha * x + (1 - alpha) * previous

/-- The true range of a bar after a close. -/
def trueRange (bar : StreamBar) (prevClose : ℚ) : ℚ :=
  max (bar.high - bar.low) (max |bar.high - prevClose| |bar.low - prevClose|)

/-- `RsiState`: its average gain and loss are seeded together. -/
structure RsiState where
  period : ℕ
  prevClose : Option ℚ
  averages : Option (ℚ × ℚ)

def RsiState.init (period : ℕ) : RsiState where
  period := max 2 period
  prevClose := none
  averages := none

def RsiState.update (s : RsiState) (bar : StreamBar) : RsiState :=
  match s.prevClose with
  | none => { s with prevClose := some bar.close }
  | some prev =>
      let change := bar.close - prev
      let gain := if 0 < change then change else 0
      let loss := if change < 0 then -change else 0
      { s with
        prevClose := some bar.close
        averages :=
          match s.averages with
          | none => some (gain, loss)
          | some (avgGain, avgLoss) =>
              some (wilder s.period gain avgGain, wilder s.period loss avgLoss) }

def RsiState.reset (s : RsiState) : RsiState :=
  { s with prevClose := none, averages := none }

def RsiState.value (s : RsiState) : Option ℚ :=
  s.averages.map fun (avgGain, avgLoss) =>
    if avgLoss = 0 then 100 else 100 - 100 / (1 + avgGain / avgLoss)

/-- `AtrState`. -/
structure AtrState where
  period : ℕ
  prevClose : Option ℚ
  atr : Option ℚ
  seedTrs : Deque ℚ

def AtrState.init (period : ℕ) : AtrState where
  period := max 1 period
  prevClose := none
  atr := none
  seedTrs := Deque.empty (max 1 period)

def AtrState.update (s : AtrState) (bar : StreamBar) : AtrState :=
  match s.prevClose with
  | none =>
      { s with prevClose := some bar.close, seedTrs := s.seedTrs.push (bar.high - bar.low) }
  | some prev =>
      let tr := trueRange bar prev
      match s.atr with
      | none =>
          let seedTrs := s.seedTrs.push tr
          { s with
            prevClose := some bar.close
            seedTrs := seedTrs
            atr := if seedTrs.length = s.period then some (seedTrs.items.sum / s.period)
              else none }
      | some atr =>
          { s with prevClose := some bar.close, atr := some (wilder s.period tr atr) }

def AtrState.reset (s : AtrState) : AtrState :=
  { s with prevClose := none, atr := none, seedTrs := s.seedTrs.clear }

/-- The movements that `AdxState` smooths: `+DM`, `−DM` and the true range. -/
structure Movement where
  dmp : ℚ
  dmm : ℚ
  tr : ℚ

/-- `AdxState`. -/
structure AdxState where
  period : ℕ
  prev : Option StreamBar
  smoothed : Option Movement
  adx : Option ℚ
  seedDmp : Deque ℚ
  seedDmm : Deque ℚ
  seedTr : Deque ℚ
  dxValues : Deque ℚ

def AdxState.init (period : ℕ) : AdxState where
  period := max 2 period
  prev := none
  smoothed := none
  adx := none
  seedDmp := Deque.empty (max 2 period)
  seedDmm := Deque.empty (max 2 period)
  seedTr := Deque.empty (max 2 period)
  dxValues := Deque.empty (max 2 period)

/-- The directional movement of a bar after another. -/
def movement (prev bar : StreamBar) : Movement :=
  let upMove := bar.high - prev.high
  let downMove := prev.low - bar.low
  { dmp := if downMove < upMove ∧ 0 < upMove then upMove else 0
    dmm := if upMove < downMove ∧ 0 < downMove then downMove else 0
    tr := trueRange bar prev.close }

/-- The directional index of smoothed movements. -/
def directionalIndex (m : Movement) : ℚ :=
  let diP := if m.tr = 0 then 0 else 100 * m.dmp / m.tr
  let diM := if m.tr = 0 then 0 else 100 * m.dmm / m.tr
  if diP + diM = 0 then 0 else 100 * |diP - diM| / (diP + diM)

/-- `_update_adx`. -/
def AdxState.updateAdx (s : AdxState) (m : Movement) : AdxState :=
  let dx := directionalIndex m
  let dxValues := s.dxValues.push dx
  { s with
    smoothed := some m
    dxValues := dxValues
    adx :=
      match s.adx with
      | none => if dxValues.length = s.period then some (dxValues.items.sum / s.period) else none
      | some adx => some (wilder s.period dx adx) }

def AdxState.update (s : AdxState) (bar : StreamBar) : AdxState :=
  match s.prev with
  | none => { s with prev := some bar }
  | some prev =>
      let m := movement prev bar
      let s := { s with prev := some bar }
      match s.smoothed with
      | none =>
          let s := { s with
            seedDmp := s.seedDmp.push m.dmp
            seedDmm := s.seedDmm.push m.dmm
            seedTr := s.seedTr.push m.tr }
          if s.seedDmp.length = s.period then
            s.updateAdx
              { dmp := s.seedDmp.items.sum / s.period
                dmm := s.seedDmm.items.sum / s.period
                tr := s.seedTr.items.sum / s.period }
          else s
      | some smoothed =>
          s.updateAdx
            { dmp := wilder s.period m.dmp smoothed.dmp
              dmm := wilder s.period m.dmm smoothed.dmm
              tr := wilder s.period m.tr smoothed.tr }

def AdxState.reset (s : AdxState) : AdxState :=
  { s with
    prev := none
    smoothed := none
    adx := none
    seedDmp := s.seedDmp.clear
    seedDmm := s.seedDmm.clear
    seedTr := s.seedTr.clear
    dxValues := s.dxValues.clear }

/-! ## §4 Sessions and single bars -/

/-- `VwapState`. -/
structure VwapState where
  cumPv : ℚ
  cumVol : ℚ
  lastDate : Option String

def VwapState.init : VwapState where
  cumPv := 0
  cumVol := 0
  lastDate := none

/-- `update`: a bar of another calendar date starts the sums afresh. -/
def VwapState.update (sessionDateOf : PyValue → String) (s : VwapState) (bar : StreamBar) :
    VwapState :=
  let typicalPrice := (bar.high + bar.low + bar.close) / 3
  let s :=
    match bar.timestamp with
    | none => s
    | some ts =>
        let barDate := sessionDateOf ts
        let changed := match s.lastDate with
          | some date => decide (barDate ≠ date)
          | none => false
        if changed then { cumPv := 0, cumVol := 0, lastDate := some barDate }
        else { s with lastDate := some barDate }
  if bar.volume ≤ 0 then s
  else { s with cumPv := s.cumPv + typicalPrice * bar.volume, cumVol := s.cumVol + bar.volume }

def VwapState.value (s : VwapState) : Option ℚ :=
  if s.cumVol = 0 then none else some (s.cumPv / s.cumVol)

/-- `IbsState`. -/
structure IbsState where
  current : Option ℚ

def IbsState.update (bar : StreamBar) : IbsState where
  current :=
    let rng := bar.high - bar.low
    if rng = 0 then none else some ((bar.close - bar.low) / rng)

/-! ## §5 The union -/

/-- A hand-written streaming state. -/
inductive HandState where
  | sma (s : SmaState)
  | ema (s : EmaState)
  | rsi (s : RsiState)
  | atr (s : AtrState)
  | adx (s : AdxState)
  | bb (s : BbState)
  | macd (s : MacdState)
  | vwap (s : VwapState)
  | ibs (s : IbsState)
  | rvol (s : RvolState)
  | ker (s : KerState)
  | kama (s : KamaState)

/-- `update(bar)`. -/
def HandState.update (sessionDateOf : PyValue → String) (state : HandState)
    (bar : StreamBar) : HandState :=
  match state with
  | sma s => .sma (s.update bar)
  | ema s => .ema (s.update bar)
  | rsi s => .rsi (s.update bar)
  | atr s => .atr (s.update bar)
  | adx s => .adx (s.update bar)
  | bb s => .bb (s.update bar)
  | macd s => .macd (s.update bar)
  | vwap s => .vwap (s.update sessionDateOf bar)
  | ibs _ => .ibs (IbsState.update bar)
  | rvol s => .rvol (s.update bar)
  | ker s => .ker (s.update bar)
  | kama s => .kama (s.update bar)

/-- `reset()`. -/
def HandState.reset : HandState → HandState
  | sma s => .sma s.reset
  | ema s => .ema s.reset
  | rsi s => .rsi s.reset
  | atr s => .atr s.reset
  | adx s => .adx s.reset
  | bb s => .bb s.reset
  | macd s => .macd s.reset
  | vwap _ => .vwap VwapState.init
  | ibs _ => .ibs ⟨none⟩
  | rvol s => .rvol s.reset
  | ker s => .ker s.reset
  | kama s => .kama s.reset

/-- `getattr(state, name, float("nan"))`. -/
def HandState.attr (sqrt : ℚ → ℚ) (state : HandState) (name : String) : Option ℚ :=
  match state with
  | macd s =>
      if name = "macd" then s.macd
      else if name = "signal" then s.signalVal
      else if name = "hist" then s.hist
      else none
  | bb s =>
      if name = "upper" then s.upper sqrt
      else if name = "middle" then s.middle
      else if name = "lower" then s.lower sqrt
      else none
  | sma s => if name = "value" then s.value else none
  | ema s => if name = "value" then s.ema else none
  | rsi s => if name = "value" then s.value else none
  | atr s => if name = "value" then s.atr else none
  | adx s => if name = "value" then s.adx else none
  | vwap s => if name = "value" then s.value else none
  | ibs s => if name = "value" then s.current else none
  | rvol s => if name = "value" then s.value else none
  | ker s => if name = "value" then s.value else none
  | kama s => if name = "value" then s.kama else none

end Finbar.Streaming
