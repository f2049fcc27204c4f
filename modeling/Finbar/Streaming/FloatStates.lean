/-
Finbar.Streaming.FloatStates — the recursive streaming states on floats, NaN and the
infinities among them, with what `update` returns.

`EmaState`, `RsiState`, `AdxState`, `KerState` and `KamaState` keep NaN where their
exact counterparts keep `none`. Each update gives the new state and the returned
value; the property `value` is read from the state. On bars whose prices are
numbers the states are the exact ones (`update_ofExact` of each).

No `sorry`, no `axiom`.
-/
import Finbar.Lib.FloatList
import Finbar.Streaming.States

namespace Finbar.Streaming.Floats

open Lib Lib.Python Lib.Python.PyFloat

/-! ## §1 Bars -/

/-- The prices of a bar that the recursive states read. -/
structure FloatBar where
  high : PyFloat
  low : PyFloat
  close : PyFloat
  deriving DecidableEq

/-- A bar whose prices are numbers. -/
def FloatBar.ofBar (bar : StreamBar) : FloatBar where
  high := .fin bar.high
  low := .fin bar.low
  close := .fin bar.close

/-- `alpha * x + (1.0 - alpha) * previous`. -/
def smooth (alpha : ℚ) (x previous : PyFloat) : PyFloat :=
  ((fin alpha).mul x).add ((fin (1 - alpha)).mul previous)

/-! ## §2 `EmaState` -/

/-- `EmaState`. -/
structure EmaState where
  period : ℕ
  ema : PyFloat
  seedBuffer : Deque PyFloat
  seedSum : PyFloat
  seeded : Bool

def EmaState.init (period : ℕ) : EmaState where
  period := max 2 period
  ema := nan
  seedBuffer := Deque.empty (max 2 period)
  seedSum := fin 0
  seeded := false

def EmaState.update (s : EmaState) (bar : FloatBar) : EmaState × PyFloat :=
  if s.seeded then
    let ema := smooth (2 / ((s.period : ℚ) + 1)) bar.close s.ema
    ({ s with ema := ema }, ema)
  else
    let s := { s with
      seedBuffer := s.seedBuffer.push bar.close
      seedSum := s.seedSum.add bar.close }
    if s.seedBuffer.length = s.period then
      let ema := s.seedSum.div (fin s.period)
      ({ s with ema := ema, seeded := true }, ema)
    else (s, nan)

def EmaState.value (s : EmaState) : PyFloat := s.ema

/-! ## §3 `RsiState` -/

/-- `RsiState`. -/
structure RsiState where
  period : ℕ
  prevClose : PyFloat
  avgGain : PyFloat
  avgLoss : PyFloat

def RsiState.init (period : ℕ) : RsiState where
  period := max 2 period
  prevClose := nan
  avgGain := nan
  avgLoss := nan

/-- The index of an average gain and loss. -/
def relativeStrength (avgGain avgLoss : PyFloat) : PyFloat :=
  if avgLoss = fin 0 then fin 100
  else (fin 100).sub ((fin 100).div ((fin 1).add (avgGain.div avgLoss)))

/-- `change if change > 0 else 0.0`. -/
def gainOf (change : PyFloat) : PyFloat :=
  if (fin 0).lt change then change else fin 0

/-- `-change if change < 0 else 0.0`. -/
def lossOf (change : PyFloat) : PyFloat :=
  if change.lt (fin 0) then change.neg else fin 0

def RsiState.update (s : RsiState) (bar : FloatBar) : RsiState × PyFloat :=
  if s.prevClose.isNan then ({ s with prevClose := bar.close }, nan)
  else
    let change := bar.close.sub s.prevClose
    let gain := gainOf change
    let loss := lossOf change
    let alpha := 1 / (s.period : ℚ)
    let s :=
      if s.avgGain.isNan then
        { s with prevClose := bar.close, avgGain := gain, avgLoss := loss }
      else
        { s with
          prevClose := bar.close
          avgGain := smooth alpha gain s.avgGain
          avgLoss := smooth alpha loss s.avgLoss }
    (s, relativeStrength s.avgGain s.avgLoss)

def RsiState.value (s : RsiState) : PyFloat :=
  if s.avgGain.isNan then nan else relativeStrength s.avgGain s.avgLoss

/-! ## §4 `AdxState` -/

/-- The smoothed movements: `+DM`, `−DM` and the true range. -/
structure Movement where
  dmp : PyFloat
  dmm : PyFloat
  tr : PyFloat
  deriving DecidableEq

/-- `AdxState`. -/
structure AdxState where
  period : ℕ
  /-- `_prev_high`, `_prev_low` and `_prev_close`. -/
  prev : FloatBar
  sm : Movement
  adx : PyFloat
  seedDmp : Deque PyFloat
  seedDmm : Deque PyFloat
  seedTr : Deque PyFloat
  seeded : Bool
  dxValues : Deque PyFloat

def AdxState.init (period : ℕ) : AdxState where
  period := max 2 period
  prev := ⟨nan, nan, nan⟩
  sm := ⟨nan, nan, nan⟩
  adx := nan
  seedDmp := Deque.empty (max 2 period)
  seedDmm := Deque.empty (max 2 period)
  seedTr := Deque.empty (max 2 period)
  seeded := false
  dxValues := Deque.empty (max 2 period)

/-- The directional movement of a bar after another. -/
def movement (prev bar : FloatBar) : Movement :=
  let upMove := bar.high.sub prev.high
  let downMove := prev.low.sub bar.low
  { dmp := if downMove.lt upMove ∧ (fin 0).lt upMove then upMove else fin 0
    dmm := if upMove.lt downMove ∧ (fin 0).lt downMove then downMove else fin 0
    tr := maxOf (bar.high.sub bar.low)
      [(bar.high.sub prev.close).abs, (bar.low.sub prev.close).abs] }

/-- The directional index of smoothed movements. -/
def directionalIndex (m : Movement) : PyFloat :=
  let diP := if m.tr = fin 0 then fin 0 else ((fin 100).mul m.dmp).div m.tr
  let diM := if m.tr = fin 0 then fin 0 else ((fin 100).mul m.dmm).div m.tr
  let diSum := diP.add diM
  if diSum = fin 0 then fin 0 else ((fin 100).mul (diP.sub diM).abs).div diSum

/-- `_update_adx`. -/
def AdxState.updateAdx (s : AdxState) : AdxState × PyFloat :=
  let dx := directionalIndex s.sm
  let s := { s with dxValues := s.dxValues.push dx }
  if s.adx.isNan then
    if s.dxValues.length = s.period then
      ({ s with adx := (PyFloat.sum s.dxValues.items).div (fin s.period) }, nan)
    else (s, nan)
  else
    let adx := smooth (1 / (s.period : ℚ)) dx s.adx
    ({ s with adx := adx }, adx)

/-- The movement of a bar taken in, and whether there are smoothed movements then. -/
def AdxState.takeIn (s : AdxState) (bar : FloatBar) : AdxState × Bool :=
  let m := movement s.prev bar
  let s := { s with prev := bar }
  if s.seeded then
    let alpha := 1 / (s.period : ℚ)
    ({ s with sm :=
        { dmp := smooth alpha m.dmp s.sm.dmp
          dmm := smooth alpha m.dmm s.sm.dmm
          tr := smooth alpha m.tr s.sm.tr } }, true)
  else
    let s := { s with
      seedDmp := s.seedDmp.push m.dmp
      seedDmm := s.seedDmm.push m.dmm
      seedTr := s.seedTr.push m.tr }
    if s.seedDmp.length = s.period then
      ({ s with
        sm :=
          { dmp := (PyFloat.sum s.seedDmp.items).div (fin s.period)
            dmm := (PyFloat.sum s.seedDmm.items).div (fin s.period)
            tr := (PyFloat.sum s.seedTr.items).div (fin s.period) }
        seeded := true }, true)
    else (s, false)

def AdxState.update (s : AdxState) (bar : FloatBar) : AdxState × PyFloat :=
  if s.prev.high.isNan then ({ s with prev := bar }, nan)
  else if (s.takeIn bar).2 then (s.takeIn bar).1.updateAdx
  else ((s.takeIn bar).1, nan)

def AdxState.value (s : AdxState) : PyFloat := s.adx

/-! ## §5 `KerState` and `KamaState` -/

/-- `KerState`. -/
structure KerState where
  period : ℕ
  closes : Deque PyFloat
  absChanges : Deque PyFloat
  absChangesSum : PyFloat
  prevClose : PyFloat

def KerState.init (period : ℕ) : KerState where
  period := max 2 period
  closes := Deque.empty (max 2 period + 1)
  absChanges := Deque.empty (max 2 period)
  absChangesSum := fin 0
  prevClose := nan

/-- The efficiency ratio of the closes and of the sum of their changes. -/
def efficiency (closes : Deque PyFloat) (absChangesSum : PyFloat) : PyFloat :=
  let numerator := ((closes.items.getLastD nan).sub (closes.items.headD nan)).abs
  if absChangesSum = fin 0 then if numerator = fin 0 then fin 0 else nan
  else numerator.div absChangesSum

def KerState.update (s : KerState) (bar : FloatBar) : KerState × PyFloat :=
  if s.prevClose.isNan then
    ({ s with prevClose := bar.close, closes := s.closes.push bar.close }, nan)
  else
    let absChange := (bar.close.sub s.prevClose).abs
    let leaving := if s.absChanges.isFull then s.absChanges.items.headD (fin 0) else fin 0
    let s := { s with
      prevClose := bar.close
      absChangesSum := (s.absChangesSum.sub leaving).add absChange
      absChanges := s.absChanges.push absChange
      closes := s.closes.push bar.close }
    if s.closes.length < s.period + 1 then (s, nan)
    else (s, efficiency s.closes s.absChangesSum)

def KerState.value (s : KerState) : PyFloat :=
  if s.closes.length < s.period + 1 then nan else efficiency s.closes s.absChangesSum

/-- `KamaState`. -/
structure KamaState where
  ker : KerState
  fastSc : ℚ
  slowSc : ℚ
  kama : PyFloat

def KamaState.init (period fastPeriod slowPeriod : ℕ) : KamaState where
  ker := KerState.init period
  fastSc := 2 / ((fastPeriod : ℚ) + 1)
  slowSc := 2 / ((slowPeriod : ℚ) + 1)
  kama := nan

def KamaState.update (s : KamaState) (bar : FloatBar) : KamaState × PyFloat :=
  let (ker, er) := s.ker.update bar
  let s := { s with ker := ker }
  if er.isNan then (s, nan)
  else
    let root := (er.mul (fin (s.fastSc - s.slowSc))).add (fin s.slowSc)
    let sc := root.mul root
    if s.kama.isNan then ({ s with kama := bar.close }, bar.close)
    else
      let kama := s.kama.add (sc.mul (bar.close.sub s.kama))
      ({ s with kama := kama }, kama)

def KamaState.value (s : KamaState) : PyFloat := s.kama

/-! ## §6 On numbers the states are the exact ones -/

/-- A missing number is NaN. -/
def ofOption : Option ℚ → PyFloat
  | none => nan
  | some q => fin q

@[simp] theorem isNan_ofOption (x : Option ℚ) : (ofOption x).isNan = x.isNone := by
  cases x <;> rfl

@[simp] theorem ofOption_none : ofOption none = nan := rfl

@[simp] theorem ofOption_some (q : ℚ) : ofOption (some q) = fin q := rfl

@[simp] theorem isNan_fin (q : ℚ) : (fin q).isNan = false := rfl

@[simp] theorem isNan_nan : nan.isNan = true := rfl

theorem smooth_fin (alpha x previous : ℚ) :
    smooth alpha (fin x) (fin previous) = fin (alpha * x + (1 - alpha) * previous) := rfl

theorem sum_div_fin (d : Deque ℚ) (n : ℕ) :
    (PyFloat.sum (d.map fin).items).div (fin n) = fin (d.items.sum / n) := by
  show (PyFloat.sum (d.items.map fin)).div (fin n) = _
  rw [sum_map_fin]
  rfl

theorem gainOf_fin (change : ℚ) : gainOf (fin change) = fin (if 0 < change then change else 0) := by
  unfold gainOf PyFloat.lt
  by_cases h : 0 < change <;> simp [h]

theorem lossOf_fin (change : ℚ) :
    lossOf (fin change) = fin (if change < 0 then -change else 0) := by
  unfold lossOf PyFloat.lt
  by_cases h : change < 0 <;> simp [h, PyFloat.neg]

theorem sub_fin (a b : ℚ) : (fin a).sub (fin b) = fin (a - b) := by
  show fin (a + -b) = fin (a - b)
  rw [← sub_eq_add_neg]

theorem fin_eq_zero_iff (q : ℚ) : fin q = fin 0 ↔ q = 0 :=
  ⟨fun h => PyFloat.fin.inj h, fun h => congrArg fin h⟩

/-- `EmaState` in floats. -/
def EmaState.ofExact (s : Streaming.EmaState) : EmaState where
  period := s.period
  ema := ofOption s.ema
  seedBuffer := s.seedBuffer.map fin
  seedSum := fin s.seedSum
  seeded := s.ema.isSome

theorem EmaState.update_ofExact (s : Streaming.EmaState) (bar : StreamBar) :
    ((ofExact s).update (FloatBar.ofBar bar)).1 = ofExact (s.update bar) := by
  unfold Streaming.EmaState.update Streaming.EmaState.updateClose
  cases hema : s.ema with
  | some ema => simp [EmaState.update, ofExact, hema, FloatBar.ofBar, smooth_fin]
  | none =>
      have hlength : ((s.seedBuffer.map fin).push (fin bar.close)).length =
          (s.seedBuffer.push bar.close).length := by
        rw [← Deque.map_push, Deque.length_map]
      by_cases hfull : (s.seedBuffer.push bar.close).length = s.period
      · simp [EmaState.update, ofExact, hema, FloatBar.ofBar, hlength, hfull,
          Deque.map_push, PyFloat.add, PyFloat.div]
      · simp [EmaState.update, ofExact, hema, FloatBar.ofBar, hlength, hfull,
          Deque.map_push, PyFloat.add]

/-- `RsiState` in floats. -/
def RsiState.ofExact (s : Streaming.RsiState) : RsiState where
  period := s.period
  prevClose := ofOption s.prevClose
  avgGain := ofOption (s.averages.map Prod.fst)
  avgLoss := ofOption (s.averages.map Prod.snd)

theorem RsiState.update_ofExact (s : Streaming.RsiState) (bar : StreamBar) :
    ((ofExact s).update (FloatBar.ofBar bar)).1 = ofExact (s.update bar) := by
  unfold Streaming.RsiState.update
  cases hprev : s.prevClose with
  | none => simp [RsiState.update, ofExact, hprev, FloatBar.ofBar]
  | some prev =>
      cases haverages : s.averages with
      | none =>
          simp [RsiState.update, ofExact, hprev, haverages, FloatBar.ofBar, sub_fin,
            gainOf_fin, lossOf_fin]
      | some averages =>
          simp [RsiState.update, ofExact, hprev, haverages, FloatBar.ofBar, sub_fin,
            gainOf_fin, lossOf_fin, smooth_fin, wilder]

/-- `KerState` in floats. -/
def KerState.ofExact (s : Streaming.KerState) : KerState where
  period := s.period
  closes := s.closes.map fin
  absChanges := s.absChanges.map fin
  absChangesSum := fin s.absChangesSum
  prevClose := ofOption s.prevClose

theorem leaving_map (d : Deque ℚ) :
    (if (d.map fin).isFull then (d.map fin).items.headD (fin 0) else fin 0) =
      fin (evicted d) := by
  unfold evicted Deque.isFull
  rw [Deque.length_map, Deque.maxlen_map]
  split
  · show (d.items.map fin).headD (fin 0) = fin (d.items.headD 0)
    cases d.items <;> rfl
  · rfl

theorem KerState.update_ofExact (s : Streaming.KerState) (bar : StreamBar) :
    ((ofExact s).update (FloatBar.ofBar bar)).1 = ofExact (s.update bar) := by
  unfold Streaming.KerState.update
  cases hprev : s.prevClose with
  | none => simp [KerState.update, ofExact, hprev, FloatBar.ofBar, Deque.map_push]
  | some prev =>
      have hleaving := leaving_map s.absChanges
      unfold KerState.update
      simp only [ofExact, hprev, FloatBar.ofBar, ofOption_some, isNan_fin, sub_fin, hleaving,
        Deque.map_push, PyFloat.abs, PyFloat.add, Bool.false_eq_true, if_false]
      split_ifs <;> rfl

theorem getLastD_map_fin {xs : List ℚ} (h : xs ≠ []) :
    (xs.map fin).getLastD nan = fin (xs.getLastD 0) := by
  rw [List.getLastD_eq_getLast?, List.getLastD_eq_getLast?, List.getLast?_map,
    List.getLast?_eq_some_getLast h]
  rfl

theorem headD_map_fin {xs : List ℚ} (h : xs ≠ []) :
    (xs.map fin).headD nan = fin (xs.headD 0) := by
  cases xs with
  | nil => exact absurd rfl h
  | cons x xs => rfl

/-- The ratio of numbers is a number, unless the changes sum up to nothing and the net
change does not. -/
theorem efficiency_map_fin (closes : Deque ℚ) (total : ℚ) (h : closes.items ≠ []) :
    efficiency (closes.map fin) (fin total) =
      ofOption (if total = 0 then
          if |closes.items.getLastD 0 - closes.items.headD 0| = 0 then some 0 else none
        else some (|closes.items.getLastD 0 - closes.items.headD 0| / total)) := by
  unfold efficiency
  have hitems : (closes.map fin).items = closes.items.map fin := rfl
  rw [hitems, getLastD_map_fin h, headD_map_fin h, sub_fin]
  simp only [PyFloat.abs, fin_eq_zero_iff]
  split_ifs <;> rfl

/-- What the efficiency-ratio state reports on numbers. -/
theorem KerState.value_ofExact (s : Streaming.KerState) :
    (ofExact s).value = ofOption s.value := by
  unfold KerState.value Streaming.KerState.value ofExact
  simp only [Deque.length_map]
  split
  · rfl
  · rename_i hfull
    refine efficiency_map_fin s.closes s.absChangesSum fun hnil => hfull ?_
    rw [Deque.length, hnil]
    exact Nat.succ_pos _

/-- `AdxState` in floats. -/
def AdxState.ofExact (s : Streaming.AdxState) : AdxState where
  period := s.period
  prev := (s.prev.map FloatBar.ofBar).getD ⟨nan, nan, nan⟩
  sm :=
    { dmp := ofOption (s.smoothed.map Streaming.Movement.dmp)
      dmm := ofOption (s.smoothed.map Streaming.Movement.dmm)
      tr := ofOption (s.smoothed.map Streaming.Movement.tr) }
  adx := ofOption s.adx
  seedDmp := s.seedDmp.map fin
  seedDmm := s.seedDmm.map fin
  seedTr := s.seedTr.map fin
  seeded := s.smoothed.isSome
  dxValues := s.dxValues.map fin

/-- A movement of numbers in floats. -/
def Movement.ofExact (m : Streaming.Movement) : Movement where
  dmp := fin m.dmp
  dmm := fin m.dmm
  tr := fin m.tr

theorem maxOf_fin (a b c : ℚ) : maxOf (fin a) [fin b, fin c] = fin (max a (max b c)) := by
  have htwo : ∀ x y : ℚ, (if (fin x).lt (fin y) then fin y else fin x) = fin (max x y) := by
    intro x y
    unfold PyFloat.lt
    by_cases h : x < y
    · simp [h, h.le]
    · simp [h, not_lt.mp h]
  show (if (if (fin a).lt (fin b) then fin b else fin a).lt (fin c) then fin c
    else if (fin a).lt (fin b) then fin b else fin a) = _
  rw [htwo, htwo, max_assoc]

theorem movement_ofBar (prev bar : StreamBar) :
    movement (FloatBar.ofBar prev) (FloatBar.ofBar bar) =
      Movement.ofExact (Streaming.movement prev bar) := by
  unfold movement Streaming.movement Movement.ofExact FloatBar.ofBar trueRange
  simp only [sub_fin, PyFloat.abs, maxOf_fin, PyFloat.lt, decide_eq_true_eq]
  congr 1
  · split_ifs <;> rfl
  · split_ifs <;> rfl

theorem directionalIndex_ofExact (m : Streaming.Movement) :
    directionalIndex (Movement.ofExact m) = fin (Streaming.directionalIndex m) := by
  unfold directionalIndex Streaming.directionalIndex Movement.ofExact
  by_cases htr : m.tr = 0
  · simp [htr, PyFloat.add]
  · simp only [htr, fin_eq_zero_iff, if_false, PyFloat.mul, PyFloat.div, PyFloat.add, sub_fin,
      PyFloat.abs]
    split_ifs <;> rfl

theorem AdxState.updateAdx_ofExact (s : Streaming.AdxState) (m : Streaming.Movement) :
    ((ofExact { s with smoothed := some m }).updateAdx).1 = ofExact (s.updateAdx m) := by
  have hdx : directionalIndex (ofExact { s with smoothed := some m }).sm =
      fin (Streaming.directionalIndex m) := directionalIndex_ofExact m
  unfold AdxState.updateAdx Streaming.AdxState.updateAdx
  simp only [hdx]
  cases s.adx with
  | some adx => simp [ofExact, Deque.map_push, smooth_fin, wilder]
  | none =>
      by_cases hfull : (s.dxValues.push (Streaming.directionalIndex m)).length = s.period
      · simp [ofExact, ← Deque.map_push, hfull, sum_div_fin]
      · simp [ofExact, ← Deque.map_push, hfull]

theorem AdxState.update_ofExact (s : Streaming.AdxState) (bar : StreamBar) :
    ((ofExact s).update (FloatBar.ofBar bar)).1 = ofExact (s.update bar) := by
  unfold Streaming.AdxState.update
  cases hprev : s.prev with
  | none => simp [AdxState.update, ofExact, hprev]
  | some prev =>
      have hnumber : (ofExact s).prev = FloatBar.ofBar prev := by simp [ofExact, hprev]
      have hnan : (ofExact s).prev.high.isNan = false := by rw [hnumber]; rfl
      unfold AdxState.update
      rw [if_neg (by rw [hnan]; exact Bool.false_ne_true)]
      unfold takeIn
      rw [hnumber, movement_ofBar]
      cases hsmoothed : s.smoothed with
      | some smoothed =>
          simp only []
          rw [← AdxState.updateAdx_ofExact]
          simp [ofExact, hsmoothed, Movement.ofExact, smooth_fin, wilder]
      | none =>
          by_cases hfull :
              (s.seedDmp.push (Streaming.movement prev bar).dmp).length = s.period
          · simp only [hfull, if_true]
            rw [← AdxState.updateAdx_ofExact]
            simp [ofExact, hsmoothed, Movement.ofExact, ← Deque.map_push, hfull, sum_div_fin]
          · simp [ofExact, hsmoothed, Movement.ofExact, ← Deque.map_push, hfull]

end Finbar.Streaming.Floats
