/-
Finbar.Streaming.FloatStateTheorems — when the recursive streaming states return
what they report, and when they report too early.

A state `Reports` along a list of bars if every `update` returns what `value` reads
afterwards and nothing is reported during the warm-up. `EmaState` always does.
`RsiState` reports at the second number, whatever its period, and returns NaN after
a NaN close; `AdxState` returns NaN at the bar that seeds its average, so it agrees
only on runs that never report; `KamaState` returns NaN when the efficiency ratio is
lost (`reports_iff`). On bars of numbers this leaves the number of bars and the
period (`reports_numbers_iff`).

No `sorry`, no `axiom`.
-/
import Finbar.Lib.Steps
import Finbar.Streaming.FloatStates
import Finbar.Streaming.WindowStateTheorems

namespace Finbar.Streaming.Floats

open Lib Lib.Python Lib.Python.PyFloat Lib.Steps

/-! ## §1 Reporting -/

section Reporting

variable {σ : Type}

/-- The state after an update. -/
def next (update : σ → FloatBar → σ × PyFloat) (s : σ) (bar : FloatBar) : σ :=
  (update s bar).1

/-- `update` returns what `value` reads afterwards. -/
def Agrees (update : σ → FloatBar → σ × PyFloat) (value : σ → PyFloat) (s : σ)
    (bar : FloatBar) : Prop :=
  (update s bar).2 = value (update s bar).1

/-- Every update agrees, and there is no value while fewer than `warmUp` bars came. -/
structure Reports (update : σ → FloatBar → σ × PyFloat) (value : σ → PyFloat) (warmUp : ℕ)
    (s : σ) (bars : List FloatBar) : Prop where
  agrees : Along (next update) (Agrees update value) s bars
  warmUp : ∀ k, k < warmUp → value (run (next update) s (bars.take k)) = nan

end Reporting

theorem isNan_iff (x : PyFloat) : x.isNan = true ↔ x = nan := by
  cases x <;> simp [PyFloat.isNan]

theorem length_push_of_maxlen {α : Type} {d : Deque α} {P : ℕ} (h : d.maxlen = P) (x : α) :
    (d.push x).length = min (d.length + 1) P := by
  rw [Deque.length_push, h]

/-! ## §2 `EmaState` -/

/-- What an `EmaState` of period `P` is after `n` bars. -/
structure EmaState.Counts (P n : ℕ) (s : EmaState) : Prop where
  period : s.period = P
  maxlen : s.seedBuffer.maxlen = P
  seeding : s.seeded = false → s.ema = nan ∧ s.seedBuffer.length = n ∧ n < P
  seeded : s.seeded = true → P ≤ n

theorem EmaState.Counts.init (period : ℕ) : Counts (max 2 period) 0 (EmaState.init period) where
  period := rfl
  maxlen := rfl
  seeding := fun _ => ⟨rfl, rfl, by omega⟩
  seeded := fun h => Bool.noConfusion h

theorem EmaState.Counts.update {P n : ℕ} {s : EmaState} (h : Counts P n s) (bar : FloatBar) :
    Counts P (n + 1) (s.update bar).1 := by
  have hlength := length_push_of_maxlen h.maxlen bar.close
  unfold EmaState.update
  split
  · rename_i hseeded
    have hP := h.seeded hseeded
    exact ⟨h.period, h.maxlen, fun hnot => Bool.noConfusion (hseeded.symm.trans hnot),
      fun _ => by omega⟩
  · rename_i hnot
    obtain ⟨hema, hcount, hlt⟩ := h.seeding (by simpa using hnot)
    simp only
    split
    · rename_i hfull
      rw [hlength, h.period, hcount] at hfull
      exact ⟨h.period, h.maxlen, fun hfalse => Bool.noConfusion hfalse, fun _ => by omega⟩
    · rename_i hroom
      rw [hlength, h.period, hcount] at hroom
      refine ⟨h.period, h.maxlen, fun _ => ⟨hema, ?_, by omega⟩, fun htrue => absurd htrue hnot⟩
      show (s.seedBuffer.push bar.close).length = n + 1
      rw [hlength, hcount]
      omega

/-- **`EmaState` always reports.** -/
theorem EmaState.reports (period : ℕ) (bars : List FloatBar) :
    Reports EmaState.update EmaState.value period (EmaState.init period) bars := by
  have hcounts : ∀ bars : List FloatBar, EmaState.Counts (max 2 period) bars.length
      (run (next EmaState.update) (EmaState.init period) bars) := fun bars =>
    run_seen (I := fun s seen => EmaState.Counts (max 2 period) seen.length s)
      (fun s seen bar h => by
        rw [List.length_append, List.length_singleton]
        exact h.update bar)
      (EmaState.Counts.init period) bars
  refine ⟨?_, ?_⟩
  · have hunseeded : Along (next EmaState.update) (fun _ _ => True) (EmaState.init period) bars :=
      along_of_forall fun _ _ => trivial
    refine (along_iff (I := fun s => s.seeded = false → s.ema = nan) ?_ ?_ (fun _ => rfl)).mp
      hunseeded
    · intro s bar hI
      refine ⟨fun _ => ?_, fun _ => trivial⟩
      unfold Agrees EmaState.update EmaState.value
      split
      · rfl
      · rename_i hnot
        have hema := hI (by simpa using hnot)
        simp only
        split
        · rfl
        · exact hema.symm
    · intro s bar hI _
      unfold next EmaState.update
      split
      · rename_i hseeded
        intro hnot
        exact Bool.noConfusion (hseeded.symm.trans hnot)
      · rename_i hnot
        simp only
        split
        · intro hfalse
          exact Bool.noConfusion hfalse
        · exact hI
  · intro k hk
    have h := hcounts (bars.take k)
    have hlt : (bars.take k).length < max 2 period := by
      rw [List.length_take]
      omega
    refine (h.seeding ?_).1
    by_contra hseeded
    have hP := h.seeded (by simpa using hseeded)
    omega

/-! ## §3 `RsiState` -/

/-- What an `RsiState` is after some bars: its averages are there once a number has been
followed by another bar, and then stay. -/
structure RsiState.Tracks (seen : List FloatBar) (s : RsiState) : Prop where
  period : 2 ≤ s.period
  prevClose : s.prevClose = (seen.map FloatBar.close).getLastD nan
  unseeded : s.avgGain = nan ↔ ∀ c ∈ (seen.map FloatBar.close).dropLast, c = nan
  upper : s.avgGain ≠ nan → s.avgGain.Upper

theorem RsiState.Tracks.init (period : ℕ) : Tracks [] (RsiState.init period) where
  period := le_max_left 2 period
  prevClose := rfl
  unseeded := ⟨fun _ _ hc => absurd hc List.not_mem_nil, fun _ => rfl⟩
  upper := fun h => absurd rfl h

theorem upper_ne_nan {x : PyFloat} (h : x.Upper) : x ≠ nan := by
  rcases h with rfl | ⟨q, rfl⟩ <;> exact PyFloat.noConfusion

theorem gainOf_upper (change : PyFloat) : (gainOf change).Upper := by
  cases change with
  | nan => exact upper_fin 0
  | negInf => exact upper_fin 0
  | posInf => exact upper_posInf
  | fin q =>
      rw [gainOf_fin]
      exact upper_fin _

/-- Smoothing with weights between 0 and 1 keeps an average a number or infinite. -/
theorem smooth_upper {alpha : ℚ} (hpos : 0 < alpha) (hlt : alpha < 1) {x previous : PyFloat}
    (hx : x.Upper) (hprevious : previous.Upper) : (smooth alpha x previous).Upper := by
  have hmul : ∀ {c : ℚ}, 0 < c → ∀ {y : PyFloat}, y.Upper → ((fin c).mul y).Upper := by
    intro c hc y hy
    rcases hy with rfl | ⟨q, rfl⟩
    · show (infOfSign c).Upper
      unfold infOfSign
      rw [if_neg hc.ne', if_pos hc]
      exact upper_posInf
    · exact upper_fin _
  exact (hmul hpos hx).add (hmul (sub_pos.mpr hlt) hprevious)

theorem alpha_mem {n : ℕ} (h : 2 ≤ n) : 0 < 1 / (n : ℚ) ∧ 1 / (n : ℚ) < 1 := by
  have hn : (1 : ℚ) < n := by exact_mod_cast h
  exact ⟨by positivity, (div_lt_one (by positivity)).mpr hn⟩

/-- The averages an update leaves after a number. -/
theorem RsiState.update_avgGain_upper {s : RsiState} (hperiod : 2 ≤ s.period)
    (hupper : s.avgGain ≠ nan → s.avgGain.Upper) (hprev : s.prevClose ≠ nan)
    (bar : FloatBar) : (s.update bar).1.avgGain.Upper := by
  unfold RsiState.update
  rw [if_neg (by rw [isNan_iff]; exact hprev)]
  by_cases hseeded : s.avgGain = nan
  · simp only [(isNan_iff _).mpr hseeded, if_true]
    exact gainOf_upper _
  · have hnan : ¬ s.avgGain.isNan = true := by rwa [isNan_iff]
    simp only [hnan]
    obtain ⟨hpos, hlt⟩ := alpha_mem hperiod
    exact smooth_upper hpos hlt (gainOf_upper _) (hupper hseeded)

theorem RsiState.update_prevClose (s : RsiState) (bar : FloatBar) :
    (s.update bar).1.prevClose = bar.close := by
  unfold RsiState.update
  split
  · rfl
  · simp only
    split <;> rfl

theorem RsiState.update_period (s : RsiState) (bar : FloatBar) :
    (s.update bar).1.period = s.period := by
  unfold RsiState.update
  split
  · rfl
  · simp only
    split <;> rfl

theorem RsiState.Tracks.update {seen : List FloatBar} {s : RsiState} (h : Tracks seen s)
    (bar : FloatBar) : Tracks (seen ++ [bar]) (s.update bar).1 := by
  have hlast : (s.update bar).1.prevClose =
      ((seen ++ [bar]).map FloatBar.close).getLastD nan := by
    rw [RsiState.update_prevClose, List.map_append, List.map_singleton, List.getLastD_concat]
  have hdrop : ((seen ++ [bar]).map FloatBar.close).dropLast = seen.map FloatBar.close := by
    rw [List.map_append, List.map_singleton, List.dropLast_concat]
  refine ⟨by rw [RsiState.update_period]; exact h.period, hlast, ?_, ?_⟩
  · rw [hdrop]
    by_cases hprev : s.prevClose = nan
    · -- a NaN close adds no number to those that were followed by a bar
      have hgain : (s.update bar).1.avgGain = s.avgGain := by
        unfold RsiState.update
        rw [if_pos ((isNan_iff _).mpr hprev)]
      rw [hgain, h.unseeded]
      constructor
      · intro hall c hc
        rcases List.eq_nil_or_concat (seen.map FloatBar.close) with hnil | ⟨init, last, hconcat⟩
        · rw [hnil] at hc
          cases hc
        · have hprevClose := h.prevClose
          rw [hconcat, List.concat_eq_append, List.getLastD_concat, hprev] at hprevClose
          rw [hconcat, List.concat_eq_append, List.dropLast_concat] at hall
          rw [hconcat, List.concat_eq_append, List.mem_append, List.mem_singleton] at hc
          rcases hc with hc | rfl
          · exact hall c hc
          · exact hprevClose.symm
      · intro hall c hc
        exact hall c (List.dropLast_subset _ hc)
    · have hupper := RsiState.update_avgGain_upper h.period h.upper hprev bar
      refine ⟨fun hnan => absurd hnan (upper_ne_nan hupper), fun hall => absurd ?_ hprev⟩
      rw [h.prevClose, List.getLastD_eq_getLast?]
      cases hl : (seen.map FloatBar.close).getLast? with
      | none => rfl
      | some c => exact hall c (List.mem_of_getLast? hl)
  · intro _
    by_cases hprev : s.prevClose = nan
    · have hgain : (s.update bar).1.avgGain = s.avgGain := by
        unfold RsiState.update
        rw [if_pos ((isNan_iff _).mpr hprev)]
      rename_i hne
      rw [hgain] at hne ⊢
      exact h.upper hne
    · exact RsiState.update_avgGain_upper h.period h.upper hprev bar

theorem RsiState.tracks (period : ℕ) (bars : List FloatBar) :
    Tracks bars (run (next RsiState.update) (RsiState.init period) bars) :=
  run_seen (I := fun s seen => Tracks seen s) (fun _ _ bar h => h.update bar)
    (Tracks.init period) bars

/-- The first averages always give an index: one of them is zero. -/
theorem relativeStrength_first (change : PyFloat) :
    relativeStrength (gainOf change) (lossOf change) ≠ nan := by
  cases change with
  | nan => exact PyFloat.noConfusion
  | negInf => decide +kernel
  | posInf => exact PyFloat.noConfusion
  | fin q =>
      rw [gainOf_fin, lossOf_fin]
      unfold relativeStrength
      by_cases hq : q < 0
      · rw [if_pos hq, if_neg (by rw [fin_eq_zero_iff]; linarith)]
        exact PyFloat.noConfusion
      · rw [if_neg hq, if_pos rfl]
        exact PyFloat.noConfusion

/-- **The update agrees unless the previous close was NaN after an index.** -/
theorem RsiState.agrees_iff {seen : List FloatBar} {s : RsiState} (h : Tracks seen s)
    (bar : FloatBar) :
    Agrees RsiState.update RsiState.value s bar ↔ (s.prevClose = nan → s.value = nan) := by
  unfold Agrees
  by_cases hprev : s.prevClose = nan
  · have hupdate : s.update bar = ({ s with prevClose := bar.close }, nan) := by
      unfold RsiState.update
      rw [if_pos ((isNan_iff _).mpr hprev)]
    rw [hupdate]
    exact ⟨fun heq _ => heq.symm, fun hvalue => (hvalue hprev).symm⟩
  · have hupper := RsiState.update_avgGain_upper h.period h.upper hprev bar
    have hreturned : (s.update bar).2 =
        relativeStrength (s.update bar).1.avgGain (s.update bar).1.avgLoss := by
      unfold RsiState.update
      rw [if_neg (by rw [isNan_iff]; exact hprev)]
    have hnan : ¬ (s.update bar).1.avgGain.isNan = true := by
      rw [isNan_iff]
      exact upper_ne_nan hupper
    refine ⟨fun _ hnot => absurd hnot hprev, fun _ => ?_⟩
    unfold RsiState.value
    rw [hreturned, if_neg hnan]

/-- Nothing is reported as long as no number was followed by another bar. -/
theorem RsiState.value_nan {seen : List FloatBar} {s : RsiState} (h : Tracks seen s)
    (hnan : ∀ c ∈ (seen.map FloatBar.close).dropLast, c = nan) : s.value = nan := by
  unfold RsiState.value
  rw [if_pos ((isNan_iff _).mpr (h.unseeded.mpr hnan))]

/-- The bar after the first number gives an index. -/
theorem RsiState.value_first {seen : List FloatBar} {s : RsiState} (h : Tracks seen s)
    (hnan : ∀ c ∈ (seen.map FloatBar.close).dropLast, c = nan) (hprev : s.prevClose ≠ nan)
    (bar : FloatBar) : (s.update bar).1.value ≠ nan := by
  have hupper := RsiState.update_avgGain_upper h.period h.upper hprev bar
  unfold RsiState.value
  rw [if_neg (by rw [isNan_iff]; exact upper_ne_nan hupper)]
  unfold RsiState.update
  rw [if_neg (by rw [isNan_iff]; exact hprev)]
  simp only [(isNan_iff _).mpr (h.unseeded.mpr hnan), if_true]
  exact relativeStrength_first _

/-- **No index comes within the first `period` bars exactly when every close among them
that another of them follows is NaN.** -/
theorem RsiState.warmUp_iff (period : ℕ) (bars : List FloatBar) :
    (∀ k, k < period + 1 → (run (next RsiState.update) (RsiState.init period)
        (bars.take k)).value = nan) ↔
      ∀ j bar, bars[j]? = some bar → j + 2 ≤ min period bars.length → bar.close = nan := by
  constructor
  · intro h j
    induction j using Nat.strong_induction_on with
    | _ j ih =>
        intro bar hbar hj
        by_contra hnumber
        obtain ⟨follower, hfollower⟩ : ∃ follower, bars[j + 1]? = some follower :=
          ⟨bars[j + 1], List.getElem?_eq_getElem (by omega)⟩
        have htake : bars.take (j + 1) = bars.take j ++ [bar] := by
          rw [List.take_add_one, hbar]
          rfl
        have htakeNext : bars.take (j + 2) = bars.take (j + 1) ++ [follower] := by
          rw [List.take_add_one, hfollower]
          rfl
        have htracks := RsiState.tracks period (bars.take (j + 1))
        have hbefore : ∀ c ∈ ((bars.take (j + 1)).map FloatBar.close).dropLast, c = nan := by
          rw [htake, List.map_append, List.map_singleton, List.dropLast_concat]
          intro c hc
          obtain ⟨b, hb, rfl⟩ := List.mem_map.mp hc
          obtain ⟨i, hi, hget⟩ := List.getElem_of_mem hb
          rw [List.length_take] at hi
          refine ih i (by omega) b ?_ (by omega)
          rw [← hget, List.getElem_take]
          exact List.getElem?_eq_getElem _
        have hprev : (run (next RsiState.update) (RsiState.init period)
            (bars.take (j + 1))).prevClose ≠ nan := by
          rw [htracks.prevClose, htake, List.map_append, List.map_singleton,
            List.getLastD_concat]
          exact hnumber
        have hvalue := h (j + 2) (by omega)
        rw [htakeNext, run_append] at hvalue
        exact RsiState.value_first htracks hbefore hprev follower hvalue
  · intro h k hk
    refine RsiState.value_nan (RsiState.tracks period (bars.take k)) ?_
    intro c hc
    rw [← List.map_dropLast] at hc
    obtain ⟨b, hb, rfl⟩ := List.mem_map.mp hc
    obtain ⟨i, hi, hget⟩ := List.getElem_of_mem hb
    rw [List.length_dropLast, List.length_take] at hi
    refine h i b ?_ (by omega)
    rw [← hget, List.getElem_dropLast, List.getElem_take]
    exact List.getElem?_eq_getElem _

/-- **`RsiState` reports exactly when no index is lost to a NaN close and the first
`period` bars hold no number with a bar after it.** -/
theorem RsiState.reports_iff (period : ℕ) (bars : List FloatBar) :
    Reports RsiState.update RsiState.value (period + 1) (RsiState.init period) bars ↔
      Along (next RsiState.update) (fun s _ => s.prevClose = nan → s.value = nan)
          (RsiState.init period) bars ∧
        ∀ j bar, bars[j]? = some bar → j + 2 ≤ min period bars.length → bar.close = nan := by
  have hagrees : Along (next RsiState.update) (Agrees RsiState.update RsiState.value)
        (RsiState.init period) bars ↔
      Along (next RsiState.update) (fun s _ => s.prevClose = nan → s.value = nan)
        (RsiState.init period) bars :=
    along_iff (I := fun s => ∃ seen, RsiState.Tracks seen s)
      (fun s bar ⟨_, h⟩ => RsiState.agrees_iff h bar)
      (fun s bar ⟨seen, h⟩ _ => ⟨seen ++ [bar], h.update bar⟩) ⟨[], Tracks.init period⟩
  constructor
  · intro h
    exact ⟨hagrees.mp h.agrees, (RsiState.warmUp_iff period bars).mp h.warmUp⟩
  · intro h
    exact ⟨hagrees.mpr h.1, (RsiState.warmUp_iff period bars).mpr h.2⟩

/-! ## §4 `AdxState` -/

/-- The bar completes the first `period` directional indices, and all of them are
numbers or infinite. -/
def AdxState.Seeds (s : AdxState) (bar : FloatBar) : Prop :=
  s.prev.high ≠ nan ∧ (s.takeIn bar).2 = true ∧
    let pushed := (s.takeIn bar).1.dxValues.push (directionalIndex (s.takeIn bar).1.sm)
    pushed.length = (s.takeIn bar).1.period ∧
      (PyFloat.sum pushed.items).div (fin (s.takeIn bar).1.period) ≠ nan

theorem AdxState.takeIn_adx (s : AdxState) (bar : FloatBar) : (s.takeIn bar).1.adx = s.adx := by
  unfold AdxState.takeIn
  simp only
  split
  · rfl
  · split <;> rfl

/-- Without an average the update returns NaN, also at the bar that seeds it. -/
theorem AdxState.update_of_nan {s : AdxState} (h : s.adx = nan) (bar : FloatBar) :
    (s.update bar).2 = nan ∧ ((s.update bar).1.adx ≠ nan ↔ s.Seeds bar) := by
  have hadx : (s.takeIn bar).1.adx = nan := (AdxState.takeIn_adx s bar).trans h
  unfold AdxState.update Seeds
  by_cases hprev : s.prev.high = nan
  · rw [if_pos ((isNan_iff _).mpr hprev)]
    exact ⟨rfl, fun hne => absurd h hne, fun hseeds => absurd hprev hseeds.1⟩
  · rw [if_neg (by rw [isNan_iff]; exact hprev)]
    by_cases hruns : (s.takeIn bar).2 = true
    · rw [if_pos hruns]
      unfold updateAdx
      simp only [(isNan_iff _).mpr hadx, if_true]
      split
      · rename_i hfull
        exact ⟨rfl, fun hne => ⟨hprev, hruns, hfull, hne⟩, fun hseeds => hseeds.2.2.2⟩
      · rename_i hroom
        exact ⟨rfl, fun hne => absurd hadx hne, fun hseeds => absurd hseeds.2.2.1 hroom⟩
    · rw [if_neg hruns]
      exact ⟨rfl, fun hne => absurd hadx hne, fun hseeds => absurd hseeds.2.1 hruns⟩

/-- **`AdxState` agrees exactly on the runs in which no bar seeds it.** -/
theorem AdxState.agrees_iff_seeds (period : ℕ) (bars : List FloatBar) :
    Along (next AdxState.update) (Agrees AdxState.update AdxState.value)
        (AdxState.init period) bars ↔
      Along (next AdxState.update) (fun s bar => ¬ s.Seeds bar) (AdxState.init period) bars := by
  refine along_iff (I := fun s => s.adx = nan) ?_ ?_ rfl
  · intro s bar hI
    obtain ⟨hreturned, hseeds⟩ := AdxState.update_of_nan hI bar
    rw [Agrees, hreturned, ← hseeds, not_not]
    exact eq_comm
  · intro s bar hI hagrees
    rw [Agrees, (AdxState.update_of_nan hI bar).1] at hagrees
    exact hagrees.symm

/-- **It agrees exactly on the runs that never report.** -/
theorem AdxState.agrees_iff_never (period : ℕ) (bars : List FloatBar) :
    Along (next AdxState.update) (Agrees AdxState.update AdxState.value)
        (AdxState.init period) bars ↔
      ∀ k, (run (next AdxState.update) (AdxState.init period) (bars.take k)).adx = nan := by
  rw [← along_next_iff (P := fun s : AdxState => s.adx = nan) rfl]
  refine along_iff (I := fun s => s.adx = nan) ?_ ?_ rfl
  · intro s bar hI
    rw [Agrees, (AdxState.update_of_nan hI bar).1]
    exact eq_comm
  · intro s bar hI hagrees
    rw [Agrees, (AdxState.update_of_nan hI bar).1] at hagrees
    exact hagrees.symm

/-- What an `AdxState` of period `P` is after at most `n` bars. -/
structure AdxState.Counts (P n : ℕ) (s : AdxState) : Prop where
  period : s.period = P
  maxlen : s.seedDmp.maxlen = P
  dxMaxlen : s.dxValues.maxlen = P
  pos : 2 ≤ P
  seeding : s.seeded = false → s.adx = nan ∧ s.dxValues.length = 0 ∧ s.seedDmp.length ≤ n - 1
  first : s.prev.high ≠ nan → 0 < n
  seeded : s.seeded = true → s.dxValues.length + P ≤ n
  reported : s.adx ≠ nan → 2 * P ≤ n

theorem AdxState.Counts.init (period : ℕ) : Counts (max 2 period) 0 (AdxState.init period) where
  period := rfl
  maxlen := rfl
  dxMaxlen := rfl
  pos := le_max_left 2 period
  seeding := fun _ => ⟨rfl, rfl, le_refl 0⟩
  first := fun h => absurd rfl h
  seeded := fun h => Bool.noConfusion h
  reported := fun h => absurd rfl h

/-- `_update_adx` with `n` bars, one directional index fewer than there may be. -/
theorem AdxState.updateAdx_counts {P n : ℕ} {s : AdxState} (hperiod : s.period = P)
    (hmaxlen : s.seedDmp.maxlen = P) (hdxMaxlen : s.dxValues.maxlen = P) (hpos : 2 ≤ P)
    (hseeded : s.seeded = true) (hdx : s.dxValues.length + 1 + P ≤ n)
    (hreported : s.adx ≠ nan → 2 * P ≤ n) : Counts P n s.updateAdx.1 := by
  have hlength := length_push_of_maxlen hdxMaxlen (directionalIndex s.sm)
  have hcount : (s.dxValues.push (directionalIndex s.sm)).length + P ≤ n := by omega
  unfold updateAdx
  simp only
  split
  · split
    · rename_i hfull
      refine ⟨hperiod, hmaxlen, hdxMaxlen, hpos, ?_, fun _ => by omega, fun _ => hcount, ?_⟩
      · intro hnot
        exact Bool.noConfusion (hseeded.symm.trans hnot)
      · intro _
        rw [hperiod] at hfull
        omega
    · refine ⟨hperiod, hmaxlen, hdxMaxlen, hpos, ?_, fun _ => by omega, fun _ => hcount, hreported⟩
      intro hnot
      exact Bool.noConfusion (hseeded.symm.trans hnot)
  · rename_i hnumber
    refine ⟨hperiod, hmaxlen, hdxMaxlen, hpos, ?_, fun _ => by omega, fun _ => hcount, ?_⟩
    · intro hnot
      exact Bool.noConfusion (hseeded.symm.trans hnot)
    · intro _
      exact hreported fun hnan => hnumber ((isNan_iff _).mpr hnan)

theorem AdxState.Counts.update {P n : ℕ} {s : AdxState} (h : Counts P n s) (bar : FloatBar) :
    Counts P (n + 1) (s.update bar).1 := by
  unfold AdxState.update
  by_cases hprev : s.prev.high.isNan = true
  · rw [if_pos hprev]
    refine ⟨h.period, h.maxlen, h.dxMaxlen, h.pos, ?_, fun _ => Nat.succ_pos n, ?_, ?_⟩
    · intro hnot
      obtain ⟨hadx, hdx, hseed⟩ := h.seeding hnot
      exact ⟨hadx, hdx, by show s.seedDmp.length ≤ n + 1 - 1; omega⟩
    · intro hseeded
      have := h.seeded hseeded
      show s.dxValues.length + P ≤ n + 1
      omega
    · intro hne
      have := h.reported hne
      omega
  · have hn : 0 < n := h.first fun hnan => hprev ((isNan_iff _).mpr hnan)
    rw [if_neg hprev]
    unfold takeIn
    by_cases hseeded : s.seeded = true
    · have hdx := h.seeded hseeded
      simp only [hseeded, if_true]
      refine AdxState.updateAdx_counts h.period h.maxlen h.dxMaxlen h.pos rfl ?_ ?_
      · show s.dxValues.length + 1 + P ≤ n + 1
        omega
      · intro hne
        have := h.reported hne
        omega
    · obtain ⟨hadx, hdx, hseed⟩ := h.seeding (by simpa using hseeded)
      have hlength := length_push_of_maxlen h.maxlen (movement s.prev bar).dmp
      simp only [hseeded, Bool.false_eq_true, if_false]
      by_cases hfull : (s.seedDmp.push (movement s.prev bar).dmp).length = s.period
      · simp only [hfull, if_true]
        refine AdxState.updateAdx_counts h.period h.maxlen h.dxMaxlen h.pos rfl ?_ ?_
        · show s.dxValues.length + 1 + P ≤ n + 1
          rw [h.period] at hfull
          omega
        · intro hne
          exact absurd hadx hne
      · simp only [hfull, if_false, Bool.false_eq_true]
        refine ⟨h.period, h.maxlen, h.dxMaxlen, h.pos, ?_, fun _ => Nat.succ_pos n, ?_, ?_⟩
        · intro _
          refine ⟨hadx, hdx, ?_⟩
          show (s.seedDmp.push (movement s.prev bar).dmp).length ≤ n + 1 - 1
          omega
        · intro htrue
          exact Bool.noConfusion htrue
        · intro hne
          exact absurd hadx hne

/-- **No average comes before `2 * period` bars.** -/
theorem AdxState.warmUp (period : ℕ) {bars : List FloatBar}
    (hlength : bars.length < 2 * max 2 period) :
    (run (next AdxState.update) (AdxState.init period) bars).adx = nan := by
  have h : AdxState.Counts (max 2 period) bars.length
      (run (next AdxState.update) (AdxState.init period) bars) :=
    run_seen (I := fun s seen => AdxState.Counts (max 2 period) seen.length s)
      (fun s seen bar h => by
        rw [List.length_append, List.length_singleton]
        exact h.update bar)
      (AdxState.Counts.init period) bars
  by_contra hne
  have := h.reported hne
  omega

/-- **`AdxState` reports exactly when no bar seeds its average.** -/
theorem AdxState.reports_iff (period : ℕ) (bars : List FloatBar) :
    Reports AdxState.update AdxState.value (2 * period) (AdxState.init period) bars ↔
      Along (next AdxState.update) (fun s bar => ¬ s.Seeds bar) (AdxState.init period) bars := by
  rw [← AdxState.agrees_iff_seeds]
  refine ⟨fun h => h.agrees, fun h => ⟨h, fun k hk => AdxState.warmUp period ?_⟩⟩
  have := List.length_take_le k bars
  omega

/-! ## §5 `KamaState` -/

/-- **The update agrees unless the efficiency ratio is missing after an average.** -/
theorem KamaState.agrees_iff (s : KamaState) (bar : FloatBar) :
    Agrees KamaState.update KamaState.value s bar ↔
      ((s.ker.update bar).2 = nan → s.kama = nan) := by
  unfold Agrees KamaState.update KamaState.value
  by_cases her : (s.ker.update bar).2 = nan
  · simp only [her, isNan_nan, if_true, true_implies]
    exact eq_comm
  · have hnan : ¬ (s.ker.update bar).2.isNan = true := by rwa [isNan_iff]
    simp only [hnan]
    refine ⟨fun _ hnot => absurd hnot her, fun _ => ?_⟩
    split
    · rename_i h
      exact absurd h Bool.false_ne_true
    · split <;> rfl

/-- **`KamaState` reports exactly when no efficiency ratio is lost after an average.** -/
theorem KamaState.reports_iff (period fastPeriod slowPeriod : ℕ) (bars : List FloatBar) :
    Reports KamaState.update KamaState.value 0 (KamaState.init period fastPeriod slowPeriod)
        bars ↔
      Along (next KamaState.update) (fun s bar => (s.ker.update bar).2 = nan → s.kama = nan)
        (KamaState.init period fastPeriod slowPeriod) bars := by
  have hagrees : Along (next KamaState.update) (Agrees KamaState.update KamaState.value)
        (KamaState.init period fastPeriod slowPeriod) bars ↔
      Along (next KamaState.update) (fun s bar => (s.ker.update bar).2 = nan → s.kama = nan)
        (KamaState.init period fastPeriod slowPeriod) bars :=
    along_iff (I := fun _ => True) (fun s bar _ => KamaState.agrees_iff s bar)
      (fun _ _ _ _ => trivial) trivial
  exact ⟨fun h => hagrees.mp h.agrees,
    fun h => ⟨hagrees.mpr h, fun k hk => absurd hk (Nat.not_lt_zero k)⟩⟩

/-! ## §6 Bars of numbers -/

/-- On bars of numbers a state runs like its exact counterpart. -/
theorem run_ofExact {σ τ : Type} {update : σ → FloatBar → σ × PyFloat}
    {exact : τ → StreamBar → τ} {ofExact : τ → σ}
    (h : ∀ s bar, (update (ofExact s) (FloatBar.ofBar bar)).1 = ofExact (exact s bar)) (s : τ)
    (bars : List StreamBar) :
    run (next update) (ofExact s) (bars.map FloatBar.ofBar) = ofExact (bars.foldl exact s) := by
  induction bars generalizing s with
  | nil => rfl
  | cons bar bars ih =>
      rw [List.map_cons, run_cons, next, h, ih, List.foldl_cons]

/-- **On numbers `RsiState` reports only where it cannot report at all, or its period is
at most 1.** -/
theorem RsiState.reports_numbers_iff (period : ℕ) (bars : List StreamBar) :
    Reports RsiState.update RsiState.value (period + 1) (RsiState.init period)
        (bars.map FloatBar.ofBar) ↔
      bars.length ≤ 1 ∨ period ≤ 1 := by
  rw [RsiState.reports_iff]
  constructor
  · rintro ⟨-, h⟩
    by_contra hnot
    rw [not_or] at hnot
    cases bars with
    | nil => exact hnot.1 (Nat.zero_le 1)
    | cons bar bars =>
        have hzero := h 0 (FloatBar.ofBar bar) rfl
          (by rw [List.length_map]; omega)
        exact PyFloat.noConfusion hzero
  · intro h
    refine ⟨?_, ?_⟩
    · have hnumbers : Along (next RsiState.update)
          (fun _ bar => bar ∈ bars.map FloatBar.ofBar) (RsiState.init period)
          (bars.map FloatBar.ofBar) := along_of_forall fun _ hbar => hbar
      refine hnumbers.mono_seen [] (I := fun s seen => RsiState.Tracks seen s ∧
        ∀ bar ∈ seen, bar ∈ bars.map FloatBar.ofBar) ?_ ?_ ⟨Tracks.init period, ?_⟩
      · rintro s seen bar ⟨htracks, hseen⟩ hbar
        refine ⟨htracks.update bar, fun b hb => ?_⟩
        rcases List.mem_append.mp hb with hb | hb
        · exact hseen b hb
        · rw [List.mem_singleton.mp hb]
          exact hbar
      · rintro s seen bar ⟨htracks, hseen⟩ -
        -- the previous close of a bar of numbers is one of them
        intro hprev
        refine RsiState.value_nan htracks ?_
        rcases List.eq_nil_or_concat seen with rfl | ⟨before, last, rfl⟩
        · intro c hc
          exact absurd hc List.not_mem_nil
        · rw [htracks.prevClose, List.concat_eq_append, List.map_append, List.map_singleton,
            List.getLastD_concat] at hprev
          have hlast := hseen last (by rw [List.concat_eq_append]; simp)
          obtain ⟨b, -, rfl⟩ := List.mem_map.mp hlast
          exact PyFloat.noConfusion hprev
      · intro bar hbar
        exact absurd hbar List.not_mem_nil
    · intro j bar hbar hj
      rw [List.length_map] at hj
      omega

/-- What an exact `AdxState` of period `P` is after `n` bars. -/
structure AdxState.Exact (P n : ℕ) (s : Streaming.AdxState) : Prop where
  period : s.period = P
  maxlen : s.seedDmp.maxlen = P
  dxMaxlen : s.dxValues.maxlen = P
  pos : 2 ≤ P
  start : s.prev = none → n = 0 ∧ s.smoothed = none
  started : s.prev ≠ none → 0 < n
  seeding : s.smoothed = none →
    s.adx = none ∧ s.dxValues.length = 0 ∧ s.seedDmp.length = n - 1 ∧ n ≤ P
  seeded : s.smoothed ≠ none → s.adx = none → s.dxValues.length + P = n ∧ n < 2 * P

theorem AdxState.Exact.init (period : ℕ) :
    Exact (max 2 period) 0 (Streaming.AdxState.init period) where
  period := rfl
  maxlen := rfl
  dxMaxlen := rfl
  pos := le_max_left 2 period
  start := fun _ => ⟨rfl, rfl⟩
  started := fun h => absurd rfl h
  seeding := fun _ => ⟨rfl, rfl, rfl, Nat.zero_le _⟩
  seeded := fun h => absurd rfl h

/-- `_update_adx` with one directional index fewer than bars after the first `P`. -/
theorem AdxState.updateAdx_exact {P n : ℕ} {s : Streaming.AdxState} (m : Streaming.Movement)
    (hperiod : s.period = P) (hmaxlen : s.seedDmp.maxlen = P) (hdxMaxlen : s.dxValues.maxlen = P)
    (hpos : 2 ≤ P) (hprev : s.prev ≠ none) (hn : 0 < n)
    (hdx : s.adx = none → s.dxValues.length + 1 + P = n ∧ n ≤ 2 * P) :
    Exact P n (s.updateAdx m) := by
  have hlength := length_push_of_maxlen hdxMaxlen (Streaming.directionalIndex m)
  unfold Streaming.AdxState.updateAdx
  refine ⟨hperiod, hmaxlen, hdxMaxlen, hpos, fun hnone => absurd hnone hprev, fun _ => hn,
    fun hnone => absurd hnone (Option.some_ne_none _), ?_⟩
  intro _ hadx
  show (s.dxValues.push (Streaming.directionalIndex m)).length + P = n ∧ n < 2 * P
  cases hold : s.adx with
  | some adx =>
      rw [hold] at hadx
      exact absurd hadx (Option.some_ne_none _)
  | none =>
      obtain ⟨hcount, hle⟩ := hdx hold
      rw [hold] at hadx
      simp only at hadx
      split at hadx
      · exact absurd hadx (Option.some_ne_none _)
      · rename_i hroom
        rw [hlength, hperiod] at hroom
        rw [hlength]
        omega

theorem AdxState.Exact.update {P n : ℕ} {s : Streaming.AdxState} (h : Exact P n s)
    (bar : StreamBar) : Exact P (n + 1) (s.update bar) := by
  have hP := h.pos
  unfold Streaming.AdxState.update
  cases hprev : s.prev with
  | none =>
      obtain ⟨rfl, hsmoothed⟩ := h.start hprev
      obtain ⟨hadx, hdx, hseed, -⟩ := h.seeding hsmoothed
      refine ⟨h.period, h.maxlen, h.dxMaxlen, h.pos,
        fun hnone => absurd hnone (Option.some_ne_none _), fun _ => Nat.succ_pos 0,
        fun _ => ⟨hadx, hdx, hseed, by omega⟩, fun hne => ?_⟩
      exact absurd hsmoothed hne
  | some prev =>
      have hn : 0 < n := h.started (by rw [hprev]; exact Option.some_ne_none prev)
      cases hsmoothed : s.smoothed with
      | some smoothed =>
          refine AdxState.updateAdx_exact _ h.period h.maxlen h.dxMaxlen h.pos
            (Option.some_ne_none bar) (Nat.succ_pos n) ?_
          intro hadx
          have := h.seeded (by rw [hsmoothed]; exact Option.some_ne_none _) hadx
          show s.dxValues.length + 1 + P = n + 1 ∧ n + 1 ≤ 2 * P
          omega
      | none =>
          obtain ⟨hadx, hdx, hseed, hle⟩ := h.seeding hsmoothed
          have hlength := length_push_of_maxlen h.maxlen (Streaming.movement prev bar).dmp
          by_cases hfull : (s.seedDmp.push (Streaming.movement prev bar).dmp).length = s.period
          · simp only [hfull, if_true]
            refine AdxState.updateAdx_exact _ h.period h.maxlen h.dxMaxlen h.pos
              (Option.some_ne_none bar) (Nat.succ_pos n) ?_
            intro _
            rw [hlength, h.period, hseed] at hfull
            show s.dxValues.length + 1 + P = n + 1 ∧ n + 1 ≤ 2 * P
            omega
          · simp only [hfull, if_false]
            rw [hlength, h.period, hseed] at hfull
            refine ⟨h.period, h.maxlen, h.dxMaxlen, h.pos,
              fun hnone => absurd hnone (Option.some_ne_none _), fun _ => Nat.succ_pos n,
              fun _ => ⟨hadx, hdx, ?_, by omega⟩,
              fun hne => absurd rfl hne⟩
            show (s.seedDmp.push (Streaming.movement prev bar).dmp).length = n + 1 - 1
            rw [hlength, hseed]
            omega

/-- On numbers the average is there from `2 * P` bars on. -/
theorem AdxState.exact_adx_ne_none (period : ℕ) {bars : List StreamBar}
    (h : 2 * max 2 period ≤ bars.length) :
    (bars.foldl Streaming.AdxState.update (Streaming.AdxState.init period)).adx ≠ none := by
  have hexact : AdxState.Exact (max 2 period) bars.length
      (run Streaming.AdxState.update (Streaming.AdxState.init period) bars) :=
    run_seen (I := fun s seen => AdxState.Exact (max 2 period) seen.length s)
      (fun s seen bar h => by
        rw [List.length_append, List.length_singleton]
        exact h.update bar)
      (AdxState.Exact.init period) bars
  intro hadx
  by_cases hsmoothed : (run Streaming.AdxState.update (Streaming.AdxState.init period)
      bars).smoothed = none
  · have := (hexact.seeding hsmoothed).2.2.2
    omega
  · have := (hexact.seeded hsmoothed hadx).2
    omega

/-- **On numbers `AdxState` reports exactly while it has nothing to report.** -/
theorem AdxState.reports_numbers_iff (period : ℕ) (bars : List StreamBar) :
    Reports AdxState.update AdxState.value (2 * period) (AdxState.init period)
        (bars.map FloatBar.ofBar) ↔
      bars.length < 2 * max 2 period := by
  have hiff : Reports AdxState.update AdxState.value (2 * period) (AdxState.init period)
        (bars.map FloatBar.ofBar) ↔
      ∀ k, (run (next AdxState.update) (AdxState.init period)
        ((bars.map FloatBar.ofBar).take k)).adx = nan := by
    rw [AdxState.reports_iff, ← AdxState.agrees_iff_seeds, AdxState.agrees_iff_never]
  rw [hiff]
  constructor
  · intro h
    by_contra hlong
    have hnan := h bars.length
    rw [← @List.length_map _ _ bars FloatBar.ofBar, List.take_length] at hnan
    have hinit : AdxState.init period = AdxState.ofExact (Streaming.AdxState.init period) := rfl
    rw [hinit, run_ofExact AdxState.update_ofExact] at hnan
    have hsome := AdxState.exact_adx_ne_none period (not_lt.mp hlong)
    cases hadx : (bars.foldl Streaming.AdxState.update (Streaming.AdxState.init period)).adx with
    | none => exact hsome hadx
    | some adx =>
        unfold AdxState.ofExact at hnan
        rw [hadx] at hnan
        exact PyFloat.noConfusion hnan
  · intro h k
    refine AdxState.warmUp period ?_
    have := List.length_take_le k (bars.map FloatBar.ofBar)
    rw [List.length_take, List.length_map]
    omega

/-- `KerState` returns what it reports, from its second close on. -/
theorem KerState.update_returned (s : KerState) (bar : FloatBar) :
    (s.update bar).2 = if s.prevClose.isNan then nan else (s.update bar).1.value := by
  unfold KerState.update KerState.value
  by_cases hprev : s.prevClose.isNan = true
  · rw [if_pos hprev, if_pos hprev]
  · rw [if_neg hprev, if_neg hprev]
    simp only
    split <;> rfl

/-- What a `KamaState` is after some bars of numbers. -/
structure KamaState.Tracks (N : ℕ) (seen : List StreamBar) (s : KamaState) : Prop where
  ker : ∃ k, s.ker = KerState.ofExact k ∧ Streaming.KerState.Tracks N seen k
  warm : s.kama ≠ nan → N + 1 ≤ seen.length

/-- On numbers the ratio is missing exactly until its window is full. -/
theorem KamaState.Tracks.ratio_ne_nan_iff {N : ℕ} (hN : 2 ≤ N) {seen : List StreamBar}
    {s : KamaState} (h : KamaState.Tracks N seen s) (bar : StreamBar) :
    (s.ker.update (FloatBar.ofBar bar)).2 ≠ nan ↔ N + 1 ≤ seen.length + 1 := by
  obtain ⟨k, hker, htracks⟩ := h.ker
  have hnext := htracks.update hN bar
  have hvalue : (KerState.ofExact (k.update bar)).value =
      ofOption ((fullWindow (N + 1) ((seen ++ [bar]).map StreamBar.close)).map
        efficiencyRatio) := by
    rw [KerState.value_ofExact, hnext.value]
  have hlength : ((seen ++ [bar]).map StreamBar.close).length = seen.length + 1 := by
    rw [List.length_map, List.length_append, List.length_singleton]
  rw [KerState.update_returned, hker, KerState.update_ofExact, hvalue]
  unfold fullWindow
  rw [hlength]
  constructor
  · intro hne
    by_contra hshort
    rw [if_pos (not_le.mp hshort)] at hne
    simp at hne
  · intro hfull
    have hprev : (KerState.ofExact k).prevClose.isNan = false := by
      show (ofOption k.prevClose).isNan = false
      rw [htracks.prevClose, isNan_ofOption]
      cases hlast : (seen.map StreamBar.close).getLast? with
      | some _ => rfl
      | none =>
          have hlengths := congrArg List.length (List.getLast?_eq_none_iff.mp hlast)
          rw [List.length_map, List.length_nil] at hlengths
          omega
    rw [if_neg (not_lt.mpr hfull), if_neg (by rw [hprev]; exact Bool.false_ne_true),
      Option.map_some]
    exact PyFloat.noConfusion

theorem KamaState.Tracks.update {N : ℕ} (hN : 2 ≤ N) {seen : List StreamBar} {s : KamaState}
    (h : KamaState.Tracks N seen s) (bar : StreamBar) :
    KamaState.Tracks N (seen ++ [bar]) (s.update (FloatBar.ofBar bar)).1 := by
  obtain ⟨k, hker, htracks⟩ := h.ker
  have hratio := h.ratio_ne_nan_iff hN bar
  have hlength : (seen ++ [bar]).length = seen.length + 1 := by
    rw [List.length_append, List.length_singleton]
  have hnextKer : (s.update (FloatBar.ofBar bar)).1.ker =
      (s.ker.update (FloatBar.ofBar bar)).1 := by
    unfold KamaState.update
    simp only
    split
    · rfl
    · split <;> rfl
  refine ⟨⟨k.update bar, ?_, htracks.update hN bar⟩, ?_⟩
  · rw [hnextKer, hker, KerState.update_ofExact]
  · intro hne
    rw [hlength]
    by_cases her : (s.ker.update (FloatBar.ofBar bar)).2 = nan
    · have hkama : (s.update (FloatBar.ofBar bar)).1.kama = s.kama := by
        unfold KamaState.update
        simp only [(isNan_iff _).mpr her, if_true]
      rw [hkama] at hne
      have := h.warm hne
      omega
    · exact hratio.mp her

/-- **On numbers `KamaState` always reports.** -/
theorem KamaState.reports_numbers (period fastPeriod slowPeriod : ℕ) (bars : List StreamBar) :
    Reports KamaState.update KamaState.value 0 (KamaState.init period fastPeriod slowPeriod)
      (bars.map FloatBar.ofBar) := by
  rw [KamaState.reports_iff]
  have hN : 2 ≤ max 2 period := le_max_left 2 period
  have hinit : KamaState.Tracks (max 2 period) []
      (KamaState.init period fastPeriod slowPeriod) := by
    refine ⟨⟨Streaming.KerState.init (max 2 period), ?_, Streaming.KerState.Tracks.init hN⟩,
      fun hne => absurd rfl hne⟩
    unfold KamaState.init KerState.init Streaming.KerState.init
    rw [max_eq_right hN]
    rfl
  have hnumbers : Along (next KamaState.update)
      (fun _ bar => bar ∈ bars.map FloatBar.ofBar) (KamaState.init period fastPeriod slowPeriod)
      (bars.map FloatBar.ofBar) := along_of_forall fun _ hbar => hbar
  refine hnumbers.mono_seen [] (I := fun s _ => ∃ seen, KamaState.Tracks (max 2 period) seen s)
    ?_ ?_ ⟨[], hinit⟩
  · rintro s - bar ⟨seen, h⟩ hbar
    obtain ⟨b, -, rfl⟩ := List.mem_map.mp hbar
    exact ⟨seen ++ [b], h.update hN b⟩
  · rintro s - bar ⟨seen, h⟩ hbar her
    obtain ⟨b, -, rfl⟩ := List.mem_map.mp hbar
    by_contra hkama
    refine (h.ratio_ne_nan_iff hN b).mpr ?_ her
    have := h.warm hkama
    omega

/-! ## §7 All four -/

/-- Four bars of rising prices. -/
def risingBars : List StreamBar :=
  [⟨1, 2, 1, 1, 1, none, []⟩, ⟨2, 3, 2, 2, 1, none, []⟩, ⟨3, 4, 3, 3, 1, none, []⟩,
    ⟨4, 5, 4, 4, 1, none, []⟩]

end Finbar.Streaming.Floats
