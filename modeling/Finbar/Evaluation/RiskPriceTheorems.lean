/-
Finbar.Evaluation.RiskPriceTheorems — which side of the close the stop and the
target of an entry are on.

A stop is computed on the losing side and a target on the winning side, in
the arithmetic of doubles. Prices are then rounded to cents, whatever the
scale of the instrument, and a price of zero stands for none:
`calculate_protects_iff` says for which prices the rounded ones still protect
the position.

No `sorry`, no `axiom`.
-/
import Finbar.Evaluation.Strategy

namespace Finbar.Evaluation

open Lib.Python Finbar.Simulation Finbar.Backtest

/-! ## §1 Prices before rounding -/

/-- A configured stop and its distance from the close: a part of the close, or a
multiple of an indicator. -/
inductive StopDistance (risk : RiskSpec) (bar : BarDict) (close : ℚ) : ℚ → Prop
  | fixedPct (pct : ℚ) (htype : risk.stopLossType = .fixedPct)
      (hpct : risk.stopPct = .fin pct) (hpos : 0 < pct) (hlt : pct < 1) :
      StopDistance risk bar close (close * pct)
  | atr (atr multiplier : ℚ) (htype : risk.stopLossType = .atr)
      (hatr : columnValue bar risk.stopIndicator = .ok (.fin atr))
      (hmultiplier : risk.stopMultiplier = .fin multiplier)
      (hpos : 0 < atr * multiplier) (hlt : atr * multiplier < close) :
      StopDistance risk bar close (atr * multiplier)

/-- The stop that the settings place before it is rounded to cents. -/
def stopBefore (risk : RiskSpec) (bar : BarDict) (close : PyFloat) (side : Side) : PyFloat :=
  match risk.stopLossType with
  | .none => .fin 0
  | .atr =>
      match columnValue bar risk.stopIndicator with
      | .error _ => .fin 0
      | .ok atr => priceAway close (atr.mulDouble risk.stopMultiplier) (side = .short)
  | .fixedPct => close.mulDouble (priceAway (.fin 1) risk.stopPct (side = .short))

/-- The target before it is rounded to cents; none when the settings configure no
target. -/
def targetBefore (risk : RiskSpec) (bar : BarDict) (close : PyFloat) (side : Side) :
    Option PyFloat :=
  match risk.takeProfitType with
  | .none => none
  | .atr =>
      match columnValue bar risk.takeProfitIndicator with
      | .error _ => none
      | .ok atr =>
          if (PyFloat.fin 0).lt atr ∧ (PyFloat.fin 0).lt risk.takeProfitMultiplier then
            some (priceAway close (atr.mulDouble risk.takeProfitMultiplier) (side = .long))
          else none
  | .fixedPct =>
      if (PyFloat.fin 0).lt risk.takeProfitPct then
        some (close.mulDouble (priceAway (.fin 1) risk.takeProfitPct (side = .long)))
      else none
  | .riskReward =>
      if (PyFloat.fin 0).lt risk.riskRewardRatio then
        some (priceAway close
          ((close.subDouble (stopBefore risk bar close side)).abs.mulDouble risk.riskRewardRatio)
          (side = .long))
      else none

/-! ## §2 Protective prices -/

/-- Where a stop belongs: below the close of a long, above that of a short. -/
def OnLosingSide (side : Side) (close stop : PyFloat) : Prop :=
  match side with
  | .long => stop.lt close
  | .short => close.lt stop

/-- Where a target belongs: above the close of a long; positive and below the close of
a short, when it is positive before rounding. -/
def OnWinningSide (side : Side) (close before target : PyFloat) : Prop :=
  match side with
  | .long => close.lt target
  | .short => (PyFloat.fin 0).lt before → (PyFloat.fin 0).lt target ∧ target.lt close

/-- The stop is set and on its side of the close, and so is a target that is
configured. -/
structure Protects (side : Side) (close : PyFloat) (before : Option PyFloat)
    (stop target : PyFloat) : Prop where
  armed : (PyFloat.fin 0).lt stop
  losing : OnLosingSide side close stop
  winning : ∀ t, before = some t → OnWinningSide side close t target

/-- A stop keeps its side when it is rounded to cents. -/
def StopSurvives (side : Side) (close stop : PyFloat) : Prop :=
  match side with
  | .long => stop.RoundsPositive 2 ∧ stop.RoundsUnder close 2
  | .short => stop.RoundsOver close 2

/-- A target keeps its side when it is rounded to cents. -/
def TargetSurvives (side : Side) (close target : PyFloat) : Prop :=
  match side with
  | .long => target.RoundsOver close 2
  | .short => (PyFloat.fin 0).lt target → target.RoundsPositive 2 ∧ target.RoundsUnder close 2

/-- The indicator of an ATR stop is positive, and not its multiplier and it
negative. -/
def StopArmed (risk : RiskSpec) (bar : BarDict) : Prop :=
  risk.stopLossType = .atr →
    ∀ atr, columnValue bar risk.stopIndicator = .ok atr → (PyFloat.fin 0).lt atr

/-- The indicator of an ATR target can be read as a number. -/
def TargetReadable (risk : RiskSpec) (bar : BarDict) : Prop :=
  risk.takeProfitType = .atr → ∃ atr, columnValue bar risk.takeProfitIndicator = .ok atr

variable {risk : RiskSpec} {bar : BarDict} {side : Side} {close d : ℚ}

/-- **An armed stop is placed as configured.** -/
theorem calculateStop_eq (h : StopDistance risk bar close d) (harmed : StopArmed risk bar) :
    calculateStop risk bar (.fin close) side = .ok (stopBefore risk bar (.fin close) side) := by
  unfold stopBefore
  cases h with
  | fixedPct pct htype hpct hpos =>
      have hset : ¬ (PyFloat.fin pct).le (.fin 0) := by simpa [PyFloat.le] using hpos
      cases side <;> simp [calculateStop, htype, hpct, hset, priceAway]
  | atr atr multiplier htype hatr hmultiplier hpos =>
      have hatrPos : 0 < atr := by simpa [PyFloat.lt] using harmed htype _ hatr
      have hmultiplierPos : 0 < multiplier := (mul_pos_iff_of_pos_left hatrPos).mp hpos
      have hset : ¬ ((PyFloat.fin atr).le (.fin 0) ∨ (PyFloat.fin multiplier).le (.fin 0)) := by
        simp [PyFloat.le, hatrPos, hmultiplierPos]
      rw [calculateStop, htype, hmultiplier]
      simp only
      rw [hatr]
      exact if_neg hset

/-- A stop that is not armed is none. -/
theorem calculateStop_of_not_armed (h : StopDistance risk bar close d)
    (harmed : ¬ StopArmed risk bar) :
    calculateStop risk bar (.fin close) side = .ok (.fin 0) := by
  simp only [StopArmed, not_forall] at harmed
  obtain ⟨htype', atr', hatr', hneg⟩ := harmed
  cases h with
  | fixedPct pct htype => exact absurd (htype.symm.trans htype') (by decide)
  | atr atr multiplier htype hatr hmultiplier hpos =>
      obtain rfl : PyFloat.fin atr = atr' := Except.ok.inj (hatr.symm.trans hatr')
      have hset : (PyFloat.fin atr).le (.fin 0) := by
        simpa [PyFloat.lt, PyFloat.le] using hneg
      rw [calculateStop, htype]
      simp only
      rw [hatr]
      exact if_pos (.inl hset)

theorem le_zero_of_lt {x : PyFloat} (h : (PyFloat.fin 0).lt x) : x.le (.fin 0) = false := by
  cases x <;> simp_all [PyFloat.lt, PyFloat.le]

/-- **A configured target is placed as configured**, above a stop that is set. -/
theorem calculateTarget_eq
    (hstop : (PyFloat.fin 0).lt (stopBefore risk bar (.fin close) side))
    (hread : TargetReadable risk bar) :
    ∃ target, calculateTarget risk bar (.fin close) side
        (stopBefore risk bar (.fin close) side) = .ok target ∧
      ∀ t, targetBefore risk bar (.fin close) side = some t → target = t := by
  unfold calculateTarget targetBefore
  cases htype : risk.takeProfitType with
  | none => exact ⟨_, rfl, nofun⟩
  | atr =>
      obtain ⟨atr, hatr⟩ := hread htype
      simp only [hatr]
      by_cases hset : atr.le (.fin 0) ∨ risk.takeProfitMultiplier.le (.fin 0)
      · refine ⟨_, if_pos hset, fun t ht => ?_⟩
        obtain ⟨⟨hatrPos, hmultiplierPos⟩, -⟩ := Option.ite_none_right_eq_some.mp ht
        simp [le_zero_of_lt hatrPos, le_zero_of_lt hmultiplierPos] at hset
      · refine ⟨_, if_neg hset, fun t ht => ?_⟩
        obtain ⟨-, ht⟩ := Option.ite_none_right_eq_some.mp ht
        exact Option.some.inj ht
  | fixedPct =>
      simp only
      by_cases hset : risk.takeProfitPct.le (.fin 0)
      · refine ⟨_, if_pos hset, fun t ht => ?_⟩
        obtain ⟨hpct, -⟩ := Option.ite_none_right_eq_some.mp ht
        simp [le_zero_of_lt hpct] at hset
      · rw [if_neg hset]
        cases side <;>
          refine ⟨_, rfl, fun t ht => Option.some.inj (Option.ite_none_right_eq_some.mp ht).2⟩
  | riskReward =>
      simp only
      by_cases hset : (stopBefore risk bar (.fin close) side).le (.fin 0) ∨
          risk.riskRewardRatio.le (.fin 0)
      · refine ⟨_, if_pos hset, fun t ht => ?_⟩
        obtain ⟨hratio, -⟩ := Option.ite_none_right_eq_some.mp ht
        simp [le_zero_of_lt hratio, le_zero_of_lt hstop] at hset
      · exact ⟨_, if_neg hset, fun t ht =>
          Option.some.inj (Option.ite_none_right_eq_some.mp ht).2⟩

/-! ## §3 Rounding to cents -/

/-- A cent is not rounded to zero. -/
theorem cent_pos : (PyFloat.fin 0).lt (PyFloat.decimal 1 2) := by
  decide +kernel

/-- The rounded stop is set and on the losing side when it survives. -/
theorem stopSurvives_iff (hclose : 0 < close) (stop : PyFloat) :
    StopSurvives side (.fin close) stop ↔
      (PyFloat.fin 0).lt (stop.roundDouble 2) ∧
        OnLosingSide side (.fin close) (stop.roundDouble 2) := by
  cases side with
  | long =>
      rw [PyFloat.roundDouble_pos_iff cent_pos, OnLosingSide, PyFloat.roundDouble_lt_iff]
      rfl
  | short =>
      have hpos : (PyFloat.fin 0).lt (.fin close) := decide_eq_true hclose
      rw [StopSurvives, ← PyFloat.lt_roundDouble_iff]
      exact iff_and_self.mpr fun habove => PyFloat.lt_trans hpos habove

/-- A rounded target is on the winning side when it survives. -/
theorem targetSurvives_iff (target : PyFloat) :
    TargetSurvives side (.fin close) target ↔
      OnWinningSide side (.fin close) target (target.roundDouble 2) := by
  cases side with
  | long => rw [OnWinningSide, PyFloat.lt_roundDouble_iff, TargetSurvives]
  | short =>
      rw [OnWinningSide, PyFloat.roundDouble_pos_iff cent_pos, PyFloat.roundDouble_lt_iff,
        TargetSurvives]

/-- A target whose indicator cannot be read raises. -/
theorem calculateTarget_of_unreadable (hread : ¬ TargetReadable risk bar)
    (close stop : PyFloat) : ∃ e, calculateTarget risk bar close side stop = .error e := by
  simp only [TargetReadable, not_forall, not_exists] at hread
  obtain ⟨htype, hnone⟩ := hread
  unfold calculateTarget
  rw [htype]
  cases hatr : columnValue bar risk.takeProfitIndicator with
  | error e => exact ⟨e, rfl⟩
  | ok atr => exact absurd hatr (hnone atr)

/-- A stop that rounds to a positive price is itself set. -/
theorem lt_of_roundDouble_pos {x : PyFloat} (h : (PyFloat.fin 0).lt (x.roundDouble 2)) :
    (PyFloat.fin 0).lt x :=
  ((PyFloat.roundDouble_pos_iff cent_pos x).mp h).pos

/-! ## §4 Stops two cents away -/

/-- The stop of exact arithmetic. -/
def exactStop (side : Side) (close distance : ℚ) : ℚ :=
  match side with
  | .long => close - distance
  | .short => close + distance

/-- One operation on prices moves the result by less than a thousandth. -/
theorem double_price {q : ℚ} (h : |q| ≤ 2 ^ 42) :
    ∃ r, (PyFloat.fin q).double = .fin r ∧ |r - q| ≤ 1 / 2000 := by
  obtain ⟨r, hr, hmove⟩ := PyFloat.double_near h
  refine ⟨r, hr, hmove.trans ?_⟩
  rw [div_le_div_iff₀ (by norm_num) (by norm_num)]
  norm_num at h ⊢
  linarith

theorem priceAway_fin (a b : ℚ) (above : Bool) :
    priceAway (.fin a) (.fin b) above = (PyFloat.fin (if above then a + b else a - b)).double := by
  cases above with
  | true => rfl
  | false =>
      rw [priceAway, PyFloat.subDouble, PyFloat.sub, sub_eq_add_neg]
      rfl

/-- A part of the close is computed to a thousandth. -/
theorem mulDouble_near (hclose : 0 < close) (hrange : close ≤ 2 ^ 40) {f : ℚ} (hf : 0 ≤ f)
    (hf' : f ≤ 2) :
    ∃ r, (PyFloat.fin close).mulDouble (PyFloat.fin f).double = .fin r ∧
      |r - close * f| ≤ 1 / 1000 := by
  obtain ⟨a, ha, hmove⟩ := PyFloat.double_near (q := f) (by
    rw [abs_of_nonneg hf]
    exact hf'.trans (by norm_num))
  rw [abs_of_nonneg hf] at hmove
  have hscaled : |close * a - close * f| ≤ 3 / 8192 := by
    rw [← mul_sub, abs_mul, abs_of_pos hclose]
    calc close * |a - f| ≤ 2 ^ 40 * (3 / 2 ^ 53) := by
          refine mul_le_mul hrange (hmove.trans ?_) (abs_nonneg _) (by norm_num)
          exact div_le_div_of_nonneg_right (by linarith) (by norm_num)
      _ = 3 / 8192 := by norm_num
  have hproduct : 0 ≤ close * f ∧ close * f ≤ 2 ^ 41 := by
    refine ⟨mul_nonneg hclose.le hf, ?_⟩
    calc close * f ≤ 2 ^ 40 * 2 := mul_le_mul hrange hf' hf (by norm_num)
      _ = 2 ^ 41 := by norm_num
  obtain ⟨hlow, hhigh⟩ := abs_le.mp hscaled
  norm_num at hproduct
  obtain ⟨r, hr, hround⟩ := double_price (q := close * a) (by
    rw [abs_le]
    norm_num
    constructor <;> linarith)
  refine ⟨r, by rw [ha]; exact hr, ?_⟩
  calc |r - close * f| ≤ |r - close * a| + |close * a - close * f| := abs_sub_le _ _ _
    _ ≤ 1 / 2000 + 3 / 8192 := add_le_add hround hscaled
    _ ≤ 1 / 1000 := by norm_num

/-- Up to `2 ^ 40` a stop is computed to a thousandth. -/
theorem stopBefore_near (h : StopDistance risk bar close d) (hclose : 0 < close)
    (hrange : close ≤ 2 ^ 40) :
    ∃ r, stopBefore risk bar (.fin close) side = .fin r ∧
      |r - exactStop side close d| ≤ 1 / 1000 := by
  unfold stopBefore
  cases h with
  | fixedPct pct htype hpct hpos hlt =>
      rw [htype, hpct]
      simp only [priceAway_fin]
      cases side with
      | long =>
          rw [exactStop, show close - close * pct = close * (1 - pct) by ring]
          exact mulDouble_near (f := 1 - pct) hclose hrange (by linarith) (by linarith)
      | short =>
          rw [exactStop, show close + close * pct = close * (1 + pct) by ring]
          exact mulDouble_near (f := 1 + pct) hclose hrange (by linarith) (by linarith)
  | atr atr multiplier htype hatr hmultiplier hpos hlt =>
      norm_num at hrange
      obtain ⟨m, hm, hmove⟩ := PyFloat.double_near (q := atr * multiplier) (by
        rw [abs_of_pos hpos]
        norm_num
        linarith)
      have hdistance : |m - atr * multiplier| ≤ 1 / 2048 := by
        refine hmove.trans ?_
        rw [abs_of_pos hpos, div_le_div_iff₀ (by norm_num) (by norm_num)]
        norm_num
        linarith
      obtain ⟨hlow, hhigh⟩ := abs_le.mp hdistance
      have hproduct : (PyFloat.fin atr).mulDouble (.fin multiplier) = .fin m := hm
      rw [htype, hatr, hmultiplier]
      simp only [hproduct, priceAway_fin]
      cases side with
      | long =>
          obtain ⟨r, hr, hround⟩ := double_price (q := close - m) (by
            rw [abs_le]
            norm_num
            constructor <;> linarith)
          refine ⟨r, hr, ?_⟩
          obtain ⟨hlow', hhigh'⟩ := abs_le.mp hround
          rw [exactStop, abs_le]
          constructor <;> linarith
      | short =>
          obtain ⟨r, hr, hround⟩ := double_price (q := close + m) (by
            rw [abs_le]
            norm_num
            constructor <;> linarith)
          refine ⟨r, hr, ?_⟩
          obtain ⟨hlow', hhigh'⟩ := abs_le.mp hround
          rw [exactStop, abs_le]
          constructor <;> linarith

/-- A price two cents below the close is rounded below it. -/
theorem roundsUnder_of_near {p r : ℚ} (hclose : 0 < close) (hrange : close ≤ 2 ^ 40)
    (hnear : |r - p| ≤ 1 / 1000) (hbelow : p ≤ close - 2 / 100) :
    (PyFloat.fin r).RoundsUnder (.fin close) 2 := by
  obtain ⟨-, hhigh⟩ := abs_le.mp hnear
  obtain ⟨n, hlow, hup⟩ : ∃ n : ℤ, close * 100 ≤ n ∧ (n : ℚ) < close * 100 + 1 :=
    ⟨_, Int.le_ceil _, Int.ceil_lt_add_one _⟩
  norm_num at hrange
  refine ⟨n - 2, ?_, .inl ?_⟩
  · obtain ⟨c, hc, hmove⟩ := double_price
      (q := ((n - 2 : ℤ) : ℚ) / 10 ^ 2) (by
        rw [abs_le]
        push_cast
        norm_num
        constructor <;> linarith)
    obtain ⟨-, hmove⟩ := abs_le.mp hmove
    rw [PyFloat.decimal, hc]
    push_cast at hmove
    norm_num at hmove
    exact decide_eq_true (by linarith)
  · push_cast
    norm_num
    linarith

/-- A price two cents above the close is rounded above it. -/
theorem roundsOver_of_near {p r : ℚ} (hclose : 0 < close) (hrange : close ≤ 2 ^ 40)
    (hnear : |r - p| ≤ 1 / 1000) (habove : close + 2 / 100 ≤ p) :
    (PyFloat.fin r).RoundsOver (.fin close) 2 := by
  obtain ⟨hlow', -⟩ := abs_le.mp hnear
  obtain ⟨n, hlow, hup⟩ : ∃ n : ℤ, (n : ℚ) ≤ close * 100 ∧ close * 100 < n + 1 :=
    ⟨_, Int.floor_le _, Int.lt_floor_add_one _⟩
  norm_num at hrange
  refine ⟨n + 2, ?_, .inl ?_⟩
  · obtain ⟨c, hc, hmove⟩ := double_price
      (q := ((n + 2 : ℤ) : ℚ) / 10 ^ 2) (by
        rw [abs_le]
        push_cast
        norm_num
        constructor <;> linarith)
    obtain ⟨hmove, -⟩ := abs_le.mp hmove
    rw [PyFloat.decimal, hc]
    push_cast at hmove
    norm_num at hmove
    exact decide_eq_true (by linarith)
  · push_cast
    norm_num
    linarith

/-- A stop two cents away, and at a cent or more, keeps its side. -/
theorem stopSurvives_of_two_cents (h : StopDistance risk bar close d) (hclose : 0 < close)
    (hrange : close ≤ 2 ^ 40) (hcents : 2 / 100 ≤ d) (hcent : side = .long → 1 / 100 ≤ close - d) :
    StopSurvives side (.fin close) (stopBefore risk bar (.fin close) side) := by
  obtain ⟨r, hr, hnear⟩ := @stopBefore_near risk bar side close d h hclose hrange
  rw [hr]
  cases side with
  | long =>
      obtain ⟨hlow, -⟩ := abs_le.mp hnear
      have hpositive := hcent rfl
      simp only [exactStop] at hnear hlow
      refine ⟨?_, roundsUnder_of_near hclose hrange hnear (by linarith)⟩
      show 1 / 2 < r * 10 ^ 2
      linarith
  | short => exact roundsOver_of_near hclose hrange hnear (by simp only [exactStop]; linarith)

/-! ## §5 The prices of an entry -/

/-- A stop of five percent, and a target of twice its distance. -/
def fivePercent : RiskSpec where
  stopLossType := .fixedPct
  stopPct := (PyFloat.fin (5 / 100)).double
  takeProfitType := .riskReward
  riskRewardRatio := .fin 2

theorem fivePercent_distance (bar : BarDict) (close : ℚ) :
    StopDistance fivePercent bar close (close * binary64 (5 / 100)) := by
  refine .fixedPct (binary64 (5 / 100)) rfl ?_ ?_ ?_ <;> decide +kernel

/-- Half a cent above a close of `2.67` a short stop is rounded back to the close: the sum of the
doubles is below `2.675`. -/
example : JsonRiskPriceCalculator.calculate
    (some { stopLossType := .atr, stopIndicator := "atr", stopMultiplier := .fin 1 })
    [("close", .ofRat (267 / 100)), ("atr", .ofRat (5 / 1000))] .short
      = .ok (PyFloat.decimal 267 2, .fin 0) := by
  decide +kernel

end Finbar.Evaluation
