/-
Finbar.Streaming.WindowStateTheorems — the streaming states that keep running sums
agree with their window definitions.

`fullWindow N xs` is the latest `N` of the values seen since the last reset, once
there are so many. `SmaState`, `BbState`, `RvolState` and `KerState` report the
mean, the mean and sample variance, the relative volume and the efficiency ratio
of that window (`windowStates_eq`). For each state an invariant says what its
buffer and sums are after the values seen; an update keeps it by
`Deque.sum_push`.

No `sorry`, no `axiom`.
-/
import Finbar.Lib.Moments
import Finbar.Lib.Resets
import Finbar.Lib.SlidingSum
import Finbar.Streaming.States
import Mathlib.Algebra.Order.BigOperators.Group.List
import Mathlib.Tactic.FieldSimp
import Mathlib.Tactic.Ring

namespace Finbar.Streaming

open Lib Lib.Moments

/-! ## §1 Window definitions -/

/-- The latest `N` values, once there are so many. -/
def fullWindow {α : Type} (N : ℕ) (xs : List α) : Option (List α) :=
  if xs.length < N then none else some (xs.rtake N)

/-- The latest volume over the mean, if that is not zero. -/
def relativeVolume (xs : List ℚ) : Option ℚ :=
  if mean xs = 0 then none else some (xs.getLastD 0 / mean xs)

/-- The absolute changes from each value to the next. -/
def absChanges (xs : List ℚ) : List ℚ :=
  List.zipWith (fun a b => |b - a|) xs xs.tail

/-- The net change over the sum of the absolute changes, 0 if nothing changes. -/
def efficiencyRatio (xs : List ℚ) : ℚ :=
  if (absChanges xs).sum = 0 then 0
  else |xs.getLastD 0 - xs.headD 0| / (absChanges xs).sum

/-! ## §2 Sums of changes -/

/-- **The path is at least as long as the way from its first to its last value.** -/
theorem net_le_sum_absChanges (xs : List ℚ) :
    |xs.getLastD 0 - xs.headD 0| ≤ (absChanges xs).sum := by
  induction xs with
  | nil => simp [absChanges]
  | cons x xs ih =>
      cases xs with
      | nil => simp [absChanges]
      | cons y ys =>
          have hsum : (absChanges (x :: y :: ys)).sum = |y - x| + (absChanges (y :: ys)).sum :=
            rfl
          have hlast : (x :: y :: ys).getLastD 0 = (y :: ys).getLastD 0 := rfl
          rw [hsum, hlast]
          have htriangle := abs_add_le ((y :: ys).getLastD 0 - y) (y - x)
          rw [sub_add_sub_cancel] at htriangle
          have hrest : |(y :: ys).getLastD 0 - y| ≤ (absChanges (y :: ys)).sum := ih
          show |(y :: ys).getLastD 0 - x| ≤ _
          linarith

theorem sum_absChanges_nonneg (xs : List ℚ) : 0 ≤ (absChanges xs).sum :=
  (abs_nonneg _).trans (net_le_sum_absChanges xs)

/-- **An efficiency ratio lies between 0 and 1.** -/
theorem efficiencyRatio_mem (xs : List ℚ) :
    0 ≤ efficiencyRatio xs ∧ efficiencyRatio xs ≤ 1 := by
  unfold efficiencyRatio
  split
  · exact ⟨le_refl 0, zero_le_one⟩
  · rename_i hne
    have hpos : 0 < (absChanges xs).sum := lt_of_le_of_ne (sum_absChanges_nonneg xs) (Ne.symm hne)
    exact ⟨div_nonneg (abs_nonneg _) hpos.le, (div_le_one hpos).mpr (net_le_sum_absChanges xs)⟩

theorem length_absChanges (xs : List ℚ) : (absChanges xs).length = xs.length - 1 := by
  unfold absChanges
  rw [List.length_zipWith, List.length_tail]
  omega

/-- One more value adds its change from the last one. -/
theorem absChanges_concat (xs : List ℚ) (last x : ℚ) (h : xs.getLast? = some last) :
    absChanges (xs ++ [x]) = absChanges xs ++ [|x - last|] := by
  induction xs with
  | nil => cases h
  | cons y ys ih =>
      cases ys with
      | nil =>
          cases h
          rfl
      | cons z zs =>
          have hlast : (z :: zs).getLast? = some last := by
            rw [List.getLast?_cons_cons] at h
            exact h
          show |z - y| :: absChanges ((z :: zs) ++ [x]) = |z - y| :: _
          rw [ih hlast]
          rfl

/-- The latest changes are those between the latest values. -/
theorem absChanges_drop (xs : List ℚ) (k : ℕ) :
    absChanges (xs.drop k) = (absChanges xs).drop k := by
  unfold absChanges
  rw [List.drop_zipWith, List.tail_drop, List.drop_tail]

/-! ## §3 Buffers -/

/-- The buffer holds the latest `N` of the values. -/
structure Buffers {α : Type} (N : ℕ) (xs : List α) (d : Deque α) : Prop where
  maxlen : d.maxlen = N
  items : d.items = xs.rtake N

section Buffers

variable {α : Type} {N : ℕ} {xs : List α} {d : Deque α}

theorem Buffers.empty (N : ℕ) : Buffers N ([] : List α) (Deque.empty N) where
  maxlen := rfl
  items := (List.rtake_nil N).symm

theorem Buffers.clear (h : Buffers N xs d) : Buffers N [] d.clear where
  maxlen := h.maxlen
  items := (List.rtake_nil N).symm

theorem Buffers.push (h : Buffers N xs d) (x : α) : Buffers N (xs ++ [x]) (d.push x) where
  maxlen := h.maxlen
  items := by
    have hitems : d.items = xs.rtake d.maxlen := by rw [h.items, h.maxlen]
    rw [Deque.items_push_of_rtake hitems, h.maxlen]

theorem Buffers.length (h : Buffers N xs d) : d.length = min N xs.length := by
  rw [Deque.length, h.items, length_rtake]

/-- The buffer is short exactly as long as fewer than `N` values came. -/
theorem Buffers.length_lt_iff (h : Buffers N xs d) : d.length < N ↔ xs.length < N := by
  rw [h.length, min_lt_iff]
  exact or_iff_right (lt_irrefl N)

end Buffers

theorem evicted_eq (d : Deque ℚ) : evicted d = d.leaving id := by
  unfold evicted Deque.leaving
  cases d.items <;> rfl

theorem evicted_sq (d : Deque ℚ) : evicted d * evicted d = d.leaving fun x => x * x := by
  unfold evicted Deque.leaving
  split
  · cases d.items <;> simp
  · exact mul_zero 0

/-- A running sum over a buffer moves by what enters and what leaves. -/
theorem sum_push (d : Deque ℚ) (h : 0 < d.maxlen) (x : ℚ) :
    (d.push x).items.sum = d.items.sum - evicted d + x := by
  have hsum := Deque.sum_push id h x
  rw [List.map_id, List.map_id] at hsum
  rw [hsum, evicted_eq]
  rfl

theorem length_rtake_of_full {xs : List ℚ} {N : ℕ} (h : ¬ xs.length < N) :
    (xs.rtake N).length = N := by
  rw [length_rtake]
  omega

/-! ## §4 The simple moving average -/

/-- What an `SmaState` is after some closes. -/
structure SmaState.Tracks (N : ℕ) (seen : List StreamBar) (s : SmaState) : Prop where
  period : s.period = N
  buffer : Buffers N (seen.map StreamBar.close) s.buffer
  sum : s.runningSum = s.buffer.items.sum

variable {N : ℕ}

theorem SmaState.Tracks.init (hN : 2 ≤ N) : Tracks N [] (SmaState.init N) where
  period := max_eq_right (by omega)
  buffer := by
    unfold SmaState.init
    rw [max_eq_right (by omega)]
    exact Buffers.empty N
  sum := rfl

theorem SmaState.Tracks.update (hN : 2 ≤ N) {seen : List StreamBar} {s : SmaState}
    (h : Tracks N seen s) (bar : StreamBar) : Tracks N (seen ++ [bar]) (s.update bar) where
  period := h.period
  buffer := by
    rw [List.map_append, List.map_singleton]
    exact h.buffer.push bar.close
  sum := by
    have hpos : 0 < s.buffer.maxlen := by rw [h.buffer.maxlen]; omega
    show s.runningSum - evicted s.buffer + bar.close = (s.buffer.push bar.close).items.sum
    rw [sum_push s.buffer hpos, h.sum]

theorem SmaState.Tracks.reset {seen : List StreamBar} {s : SmaState} (h : Tracks N seen s) :
    Tracks N [] s.reset where
  period := h.period
  buffer := h.buffer.clear
  sum := rfl

/-- The value is the mean of the window. -/
theorem SmaState.Tracks.value {seen : List StreamBar} {s : SmaState} (h : Tracks N seen s) :
    s.value = (fullWindow N (seen.map StreamBar.close)).map mean := by
  unfold SmaState.value fullWindow
  rw [h.period]
  by_cases hlt : (seen.map StreamBar.close).length < N
  · rw [if_pos (h.buffer.length_lt_iff.mpr hlt), if_pos hlt, Option.map_none]
  · rw [if_neg (mt h.buffer.length_lt_iff.mp hlt), if_neg hlt, Option.map_some, h.sum,
      Deque.length, h.buffer.items]
    rfl

/-! ## §5 Bollinger bands -/

/-- The variance under the root of `_std`. -/
def BbState.variance (s : BbState) : ℚ :=
  let n : ℚ := s.buffer.length
  let mean := s.sum / n
  max (s.sumSq / n - mean * mean) 0 * n / (n - 1)

/-- What a `BbState` is after some closes. -/
structure BbState.Tracks (N : ℕ) (seen : List StreamBar) (s : BbState) : Prop where
  period : s.period = N
  buffer : Buffers N (seen.map StreamBar.close) s.buffer
  sum : s.sum = s.buffer.items.sum
  sumSq : s.sumSq = (s.buffer.items.map fun x => x * x).sum

theorem BbState.Tracks.init (hN : 2 ≤ N) : Tracks N [] (BbState.init N) where
  period := max_eq_right hN
  buffer := by
    unfold BbState.init
    rw [max_eq_right hN]
    exact Buffers.empty N
  sum := rfl
  sumSq := rfl

theorem BbState.Tracks.update (hN : 2 ≤ N) {seen : List StreamBar} {s : BbState}
    (h : Tracks N seen s) (bar : StreamBar) : Tracks N (seen ++ [bar]) (s.update bar) := by
  have hpos : 0 < s.buffer.maxlen := by rw [h.buffer.maxlen]; omega
  refine ⟨h.period, ?_, ?_, ?_⟩
  · rw [List.map_append, List.map_singleton]
    exact h.buffer.push bar.close
  · show s.sum - evicted s.buffer + bar.close = (s.buffer.push bar.close).items.sum
    rw [sum_push s.buffer hpos, h.sum]
  · show s.sumSq - evicted s.buffer * evicted s.buffer + bar.close * bar.close =
      ((s.buffer.push bar.close).items.map fun x => x * x).sum
    rw [Deque.sum_push _ hpos, h.sumSq, evicted_sq]

theorem BbState.Tracks.reset {seen : List StreamBar} {s : BbState} (h : Tracks N seen s) :
    Tracks N [] s.reset where
  period := h.period
  buffer := h.buffer.clear
  sum := rfl
  sumSq := rfl

theorem BbState.Tracks.middle {seen : List StreamBar} {s : BbState} (h : Tracks N seen s) :
    s.middle = (fullWindow N (seen.map StreamBar.close)).map mean := by
  unfold BbState.middle fullWindow
  rw [h.period]
  by_cases hlt : (seen.map StreamBar.close).length < N
  · rw [if_pos (h.buffer.length_lt_iff.mpr hlt), if_pos hlt, Option.map_none]
  · rw [if_neg (mt h.buffer.length_lt_iff.mp hlt), if_neg hlt, Option.map_some, h.sum,
      Deque.length, h.buffer.items]
    rfl

/-- The mean of the squares less the squared mean, with the divisor corrected, is the
sample variance; so the clamp at zero does nothing. -/
theorem variance_of_sums {xs : List ℚ} (h : 2 ≤ xs.length) :
    max ((xs.map fun x => x * x).sum / xs.length - xs.sum / xs.length * (xs.sum / xs.length)) 0
        * xs.length / (xs.length - 1) = sampleVariance xs := by
  have hne : xs ≠ [] := by
    rintro rfl
    cases h
  have hlength : (0 : ℚ) < xs.length := by exact_mod_cast (by omega : 0 < xs.length)
  have hdeviations := sum_deviations_sq hne
  have hnonneg : 0 ≤ (xs.map fun x => (x - mean xs) ^ 2).sum := by
    refine List.sum_nonneg fun y hy => ?_
    obtain ⟨x, -, rfl⟩ := List.mem_map.mp hy
    exact sq_nonneg _
  have hpopulation :
      (xs.map fun x => x * x).sum / xs.length - xs.sum / xs.length * (xs.sum / xs.length) =
        (xs.map fun x => (x - mean xs) ^ 2).sum / xs.length := by
    rw [hdeviations]
    unfold mean
    field_simp
  rw [hpopulation, max_eq_left (div_nonneg hnonneg hlength.le), div_mul_cancel₀ _ hlength.ne']
  rfl

/-- **The variance is that of the window.** -/
theorem BbState.Tracks.variance (hN : 2 ≤ N) {seen : List StreamBar} {s : BbState}
    (h : Tracks N seen s) (hfull : N ≤ seen.length) :
    s.variance = sampleVariance ((seen.map StreamBar.close).rtake N) := by
  have hlength : ((seen.map StreamBar.close).rtake N).length = N :=
    length_rtake_of_full (by rw [List.length_map]; omega)
  unfold BbState.variance
  rw [h.sum, h.sumSq, Deque.length, h.buffer.items]
  exact variance_of_sums (by omega)

/-- `_std` is the root of the variance. -/
theorem BbState.std_eq (sqrt : ℚ → ℚ) {s : BbState} (h : 2 ≤ s.buffer.length) :
    s.std sqrt = sqrt s.variance := by
  unfold BbState.std
  rw [if_neg (by omega)]
  rfl

/-- **A band lies its deviations off the mean of the window.** -/
theorem BbState.Tracks.band (hN : 2 ≤ N) (sqrt : ℚ → ℚ) {seen : List StreamBar} {s : BbState}
    (h : Tracks N seen s) (deviations : ℚ) :
    s.band sqrt deviations = (fullWindow N (seen.map StreamBar.close)).map fun window =>
      mean window + deviations * sqrt (sampleVariance window) := by
  unfold BbState.band
  rw [h.middle]
  unfold fullWindow
  by_cases hlt : (seen.map StreamBar.close).length < N
  · rw [if_pos hlt]
    rfl
  · rw [if_neg hlt]
    have hseen : N ≤ seen.length := by
      rw [List.length_map] at hlt
      omega
    have hbuffer : 2 ≤ s.buffer.length := by
      rw [h.buffer.length, List.length_map]
      omega
    rw [Option.map_some, Option.map_some, Option.map_some, BbState.std_eq sqrt hbuffer,
      h.variance hN hseen]
    split
    · rename_i hzero
      rw [hzero, mul_zero, add_zero]
    · rfl

/-! ## §6 Relative volume -/

/-- What an `RvolState` is after some volumes. -/
structure RvolState.Tracks (N : ℕ) (seen : List StreamBar) (s : RvolState) : Prop where
  period : s.period = N
  buffer : Buffers N (seen.map StreamBar.volume) s.volBuffer
  sum : s.volSum = s.volBuffer.items.sum

theorem RvolState.Tracks.init (hN : 2 ≤ N) : Tracks N [] (RvolState.init N) where
  period := max_eq_right (by omega)
  buffer := by
    unfold RvolState.init
    rw [max_eq_right (by omega)]
    exact Buffers.empty N
  sum := rfl

theorem RvolState.Tracks.update (hN : 2 ≤ N) {seen : List StreamBar} {s : RvolState}
    (h : Tracks N seen s) (bar : StreamBar) : Tracks N (seen ++ [bar]) (s.update bar) where
  period := h.period
  buffer := by
    rw [List.map_append, List.map_singleton]
    exact h.buffer.push bar.volume
  sum := by
    have hpos : 0 < s.volBuffer.maxlen := by rw [h.buffer.maxlen]; omega
    show s.volSum - evicted s.volBuffer + bar.volume = (s.volBuffer.push bar.volume).items.sum
    rw [sum_push s.volBuffer hpos, h.sum]

theorem RvolState.Tracks.reset {seen : List StreamBar} {s : RvolState} (h : Tracks N seen s) :
    Tracks N [] s.reset where
  period := h.period
  buffer := h.buffer.clear
  sum := rfl

/-- The value is the relative volume of the window. -/
theorem RvolState.Tracks.value (hN : 2 ≤ N) {seen : List StreamBar} {s : RvolState}
    (h : Tracks N seen s) :
    s.value = (fullWindow N (seen.map StreamBar.volume)).bind relativeVolume := by
  unfold RvolState.value fullWindow
  rw [h.period]
  by_cases hlt : (seen.map StreamBar.volume).length < N
  · rw [if_pos (h.buffer.length_lt_iff.mpr hlt), if_pos hlt, Option.bind_none]
  · rw [if_neg (mt h.buffer.length_lt_iff.mp hlt), if_neg hlt, Option.bind_some, h.sum,
      Deque.length, h.buffer.items]
    have hlength := length_rtake_of_full hlt
    unfold relativeVolume mean
    cases hlast : ((seen.map StreamBar.volume).rtake N).getLast? with
    | none =>
        rw [List.getLast?_eq_none_iff.mp hlast, List.length_nil] at hlength
        omega
    | some last =>
        rw [List.getLastD_eq_getLast?, hlast]
        rfl

/-! ## §7 The efficiency ratio -/

/-- What a `KerState` is after some closes. -/
structure KerState.Tracks (N : ℕ) (seen : List StreamBar) (s : KerState) : Prop where
  period : s.period = N
  closes : Buffers (N + 1) (seen.map StreamBar.close) s.closes
  changes : Buffers N (Streaming.absChanges (seen.map StreamBar.close)) s.absChanges
  sum : s.absChangesSum = s.absChanges.items.sum
  prevClose : s.prevClose = (seen.map StreamBar.close).getLast?

theorem KerState.Tracks.init (hN : 2 ≤ N) : Tracks N [] (KerState.init N) := by
  unfold KerState.init
  rw [max_eq_right hN]
  exact ⟨rfl, Buffers.empty (N + 1), Buffers.empty N, rfl, rfl⟩

theorem KerState.Tracks.update (hN : 2 ≤ N) {seen : List StreamBar} {s : KerState}
    (h : Tracks N seen s) (bar : StreamBar) : Tracks N (seen ++ [bar]) (s.update bar) := by
  have hpos : 0 < s.absChanges.maxlen := by rw [h.changes.maxlen]; omega
  have hcloses := h.closes.push bar.close
  have hlast : some bar.close = (seen.map StreamBar.close ++ [bar.close]).getLast? := by
    rw [List.getLast?_append, List.getLast?_singleton, Option.some_or]
  have hprev := h.prevClose
  unfold KerState.update
  cases hprevious : s.prevClose with
  | none =>
      -- the first close has no change
      rw [hprevious] at hprev
      have hnil : seen.map StreamBar.close = [] := List.getLast?_eq_none_iff.mp hprev.symm
      have hchanges := h.changes
      rw [hnil] at hchanges hcloses hlast
      refine ⟨h.period, ?_, ?_, h.sum, ?_⟩ <;>
        rw [List.map_append, List.map_singleton, hnil]
      · exact hcloses
      · exact hchanges
      · exact hlast
  | some prev =>
      rw [hprevious] at hprev
      have hchanges := h.changes.push |bar.close - prev|
      rw [← absChanges_concat _ prev bar.close hprev.symm] at hchanges
      refine ⟨h.period, ?_, ?_, ?_, ?_⟩
      · rw [List.map_append, List.map_singleton]
        exact hcloses
      · rw [List.map_append, List.map_singleton]
        exact hchanges
      · show s.absChangesSum - evicted s.absChanges + |bar.close - prev| =
          (s.absChanges.push |bar.close - prev|).items.sum
        rw [sum_push s.absChanges hpos, h.sum]
      · rw [List.map_append, List.map_singleton]
        exact hlast

theorem KerState.Tracks.reset {seen : List StreamBar} {s : KerState} (h : Tracks N seen s) :
    Tracks N [] s.reset where
  period := h.period
  closes := h.closes.clear
  changes := h.changes.clear
  sum := rfl
  prevClose := rfl

/-- The value is the efficiency ratio of the window; a sum of changes that is zero
leaves no net change, so its second missing value never shows. -/
theorem KerState.Tracks.value {seen : List StreamBar} {s : KerState} (h : Tracks N seen s) :
    s.value = (fullWindow (N + 1) (seen.map StreamBar.close)).map efficiencyRatio := by
  unfold KerState.value fullWindow
  rw [h.period]
  by_cases hlt : (seen.map StreamBar.close).length < N + 1
  · rw [if_pos (h.closes.length_lt_iff.mpr hlt), if_pos hlt, Option.map_none]
  · rw [if_neg (mt h.closes.length_lt_iff.mp hlt), if_neg hlt, Option.map_some]
    have hwindow : Streaming.absChanges ((seen.map StreamBar.close).rtake (N + 1)) =
        s.absChanges.items := by
      rw [h.changes.items, List.rtake, List.rtake, absChanges_drop, length_absChanges]
      congr 1
      omega
    have hnet := net_le_sum_absChanges ((seen.map StreamBar.close).rtake (N + 1))
    rw [hwindow] at hnet
    unfold efficiencyRatio
    simp only [hwindow, h.sum, h.closes.items]
    by_cases hzero : s.absChanges.items.sum = 0
    · rw [hzero] at hnet
      rw [if_pos hzero, if_pos hzero, if_pos (le_antisymm hnet (abs_nonneg _))]
    · rw [if_neg hzero, if_neg hzero]

/-! ## §8 Any updates and resets -/

/-- **After any updates and resets the states report the definitions on the window of
the values since the last reset**, and nothing before that window is full; efficiency
ratios lie between 0 and 1. -/
theorem windowStates_eq (hN : 2 ≤ N) (calls : List (Call StreamBar)) :
    let closes := (Call.sinceReset calls).map StreamBar.close
    let volumes := (Call.sinceReset calls).map StreamBar.volume
    let sma := Call.run SmaState.update SmaState.reset (SmaState.init N) calls
    let bb := Call.run BbState.update BbState.reset (BbState.init N) calls
    let rvol := Call.run RvolState.update RvolState.reset (RvolState.init N) calls
    let ker := Call.run KerState.update KerState.reset (KerState.init N) calls
    sma.value = (fullWindow N closes).map mean ∧
      (bb.middle = (fullWindow N closes).map mean ∧
        (N ≤ closes.length → bb.variance = sampleVariance (closes.rtake N)) ∧
        ∀ sqrt : ℚ → ℚ,
          (N ≤ closes.length → bb.std sqrt = sqrt bb.variance) ∧
          bb.upper sqrt = ((fullWindow N closes).map fun window =>
            mean window + 2 * sqrt (sampleVariance window)) ∧
          bb.lower sqrt = ((fullWindow N closes).map fun window =>
            mean window - 2 * sqrt (sampleVariance window))) ∧
      rvol.value = (fullWindow N volumes).bind relativeVolume ∧
      ker.value = (fullWindow (N + 1) closes).map efficiencyRatio ∧
      ∀ er ∈ ker.value, 0 ≤ er ∧ er ≤ 1 := by
  have hsma := Call.run_invariant (I := SmaState.Tracks N) (SmaState.Tracks.init hN)
    (fun _ _ bar h => h.update hN bar) (fun _ _ h => h.reset) calls
  have hbb := Call.run_invariant (I := BbState.Tracks N) (BbState.Tracks.init hN)
    (fun _ _ bar h => h.update hN bar) (fun _ _ h => h.reset) calls
  have hrvol := Call.run_invariant (I := RvolState.Tracks N) (RvolState.Tracks.init hN)
    (fun _ _ bar h => h.update hN bar) (fun _ _ h => h.reset) calls
  have hker := Call.run_invariant (I := KerState.Tracks N) (KerState.Tracks.init hN)
    (fun _ _ bar h => h.update hN bar) (fun _ _ h => h.reset) calls
  refine ⟨hsma.value, ⟨hbb.middle, ?_, ?_⟩, hrvol.value hN, hker.value, ?_⟩
  · intro hfull
    rw [List.length_map] at hfull
    exact hbb.variance hN hfull
  · intro sqrt
    refine ⟨?_, hbb.band hN sqrt 2, (hbb.band hN sqrt (-2)).trans ?_⟩
    · intro hfull
      refine BbState.std_eq sqrt ?_
      rw [hbb.buffer.length]
      omega
    · congr 1
      funext window
      rw [neg_mul, ← sub_eq_add_neg]
  · intro er her
    rw [hker.value, Option.mem_def, Option.map_eq_some_iff] at her
    obtain ⟨window, -, rfl⟩ := her
    exact efficiencyRatio_mem window

/-- Bars that differ in close and volume only. -/
def tradedBar (close volume : ℚ) : StreamBar where
  openPrice := close
  high := close
  low := close
  close := close
  volume := volume

/-- Over the closes 1, 3, 2 after a reset, windows of two see 3 and 2, and the efficiency
ratio, with its extra close, sees all three. -/
theorem windowStates_eq_after_reset :
    let calls := [.update (tradedBar 9 9), .reset, .update (tradedBar 1 4),
      .update (tradedBar 3 1), .update (tradedBar 2 3)]
    (Call.run SmaState.update SmaState.reset (SmaState.init 2) calls).value = some (5 / 2) ∧
      (Call.run BbState.update BbState.reset (BbState.init 2) calls).variance = 1 / 2 ∧
      (Call.run RvolState.update RvolState.reset (RvolState.init 2) calls).value
        = some (3 / 2) ∧
      (Call.run KerState.update KerState.reset (KerState.init 2) calls).value
        = some (1 / 3) := by
  have h := windowStates_eq (N := 2) (le_refl 2)
    [.update (tradedBar 9 9), .reset, .update (tradedBar 1 4), .update (tradedBar 3 1),
      .update (tradedBar 2 3)]
  refine ⟨h.1.trans ?_, (h.2.1.2.1 ?_).trans ?_, h.2.2.1.trans ?_, h.2.2.2.1.trans ?_⟩
  all_goals decide +kernel

end Finbar.Streaming
