/-
Finbar.Lib.Drawdown — drawdowns of a sequence of values from its running peak.

`drawdowns start values` has, for each value, how far it is below the largest
of `start` and the values up to it, as a fraction of that peak. A peak that is
kept online gives the same drawdowns, and so does a fold that keeps the largest
one; `drawdownFrom_max_eq_iff` says when a peak may have seen one value more.

No `sorry`, no `axiom`.
-/
import Mathlib.Algebra.Order.Field.Basic
import Mathlib.Data.List.MinMax
import Mathlib.Tactic.FieldSimp
import Mathlib.Tactic.Linarith

namespace Lib.Drawdown

/-! ## §1 The running peak -/

section Order

variable {K : Type} [LinearOrder K]

/-- The largest of a start and some values. -/
def peakOf (start : K) (values : List K) : K :=
  values.foldl max start

theorem peakOf_concat (start : K) (values : List K) (value : K) :
    peakOf start (values ++ [value]) = max (peakOf start values) value := by
  unfold peakOf
  rw [List.foldl_append]
  rfl

theorem le_peakOf (start : K) (values : List K) : start ≤ peakOf start values := by
  induction values generalizing start with
  | nil => exact le_rfl
  | cons value values ih => exact (le_max_left start value).trans (ih _)

theorem le_peakOf_of_mem {start : K} {values : List K} :
    ∀ value ∈ values, value ≤ peakOf start values := by
  induction values generalizing start with
  | nil => exact List.forall_mem_nil _
  | cons value values ih =>
      exact List.forall_mem_cons.mpr
        ⟨(le_max_right start value).trans (le_peakOf _ values), ih⟩

theorem peakOf_mem (start : K) (values : List K) :
    peakOf start values = start ∨ peakOf start values ∈ values := by
  induction values generalizing start with
  | nil => exact .inl rfl
  | cons value values ih =>
      rcases ih (max start value) with heq | hmem
      · rcases max_choice start value with hmax | hmax
        · exact .inl (heq.trans hmax)
        · exact .inr (List.mem_cons.mpr (.inl (heq.trans hmax)))
      · exact .inr (List.mem_cons_of_mem _ hmem)

/-- The larger of two, as a test written the other way. -/
theorem ite_lt_eq_max (a b : K) : (if a < b then b else a) = max a b := by
  rcases lt_or_ge a b with h | h
  · rw [if_pos h, max_eq_right h.le]
  · rw [if_neg h.not_gt, max_eq_left h]

end Order

/-! ## §2 Drawdowns -/

section Field

variable {K : Type} [Field K] [LinearOrder K]

/-- How far a value is below a peak, as a fraction of it. -/
def drawdownFrom (peak value : K) : K :=
  if 0 < peak then (peak - value) / peak else 0

theorem drawdownFrom_self (peak : K) : drawdownFrom peak peak = 0 := by
  unfold drawdownFrom
  split
  · rw [sub_self, zero_div]
  · rfl

/-- The drawdown of each value from the peak up to it. -/
def drawdowns (start : K) : List K → List K
  | [] => []
  | value :: values =>
      drawdownFrom (max start value) value :: drawdowns (max start value) values

theorem drawdowns_concat (start : K) (values : List K) (value : K) :
    drawdowns start (values ++ [value])
      = drawdowns start values ++ [drawdownFrom (max (peakOf start values) value) value] := by
  induction values generalizing start with
  | nil => rfl
  | cons first values ih =>
      simp only [List.cons_append, drawdowns, ih]
      rfl

/-- From a first value that is the start, nothing is lost. -/
theorem zero_mem_drawdowns (start : K) (values : List K) :
    0 ∈ drawdowns start (start :: values) := by
  simp only [drawdowns, max_self, drawdownFrom_self]
  exact List.mem_cons_self

/-- One step of a fold that keeps the peak and the largest drawdown. -/
def peakStep (acc : K × K) (value : K) : K × K :=
  let peak := max acc.1 value
  (peak, max acc.2 (drawdownFrom peak value))

theorem foldl_peakStep (start largest : K) (values : List K) :
    values.foldl peakStep (start, largest)
      = (peakOf start values, peakOf largest (drawdowns start values)) := by
  induction values generalizing start largest with
  | nil => rfl
  | cons value values ih =>
      rw [List.foldl_cons, peakStep]
      exact ih _ _

/-- **The largest drawdown** of values that begin at the start is one of them,
and none is larger. -/
theorem isGreatest_drawdowns (start : K) (values : List K) :
    IsGreatest {d | d ∈ drawdowns start (start :: values)}
      ((start :: values).foldl peakStep (start, 0)).2 := by
  rw [foldl_peakStep]
  refine ⟨?_, fun d hd => le_peakOf_of_mem d hd⟩
  rcases peakOf_mem 0 (drawdowns start (start :: values)) with heq | hmem
  · exact Set.mem_ofPred.mpr (heq.symm ▸ zero_mem_drawdowns start values)
  · exact hmem

/-- Two peaks give a value the same drawdown when they are the same, or the
value is zero. -/
theorem drawdownFrom_left_inj {p q value : K} (hp : 0 < p) (hq : 0 < q) :
    drawdownFrom p value = drawdownFrom q value ↔ p = q ∨ value = 0 := by
  unfold drawdownFrom
  rw [if_pos hp, if_pos hq, sub_div, sub_div, div_self hp.ne', div_self hq.ne', sub_right_inj]
  constructor
  · intro h
    rw [div_eq_div_iff hp.ne' hq.ne'] at h
    rcases mul_eq_mul_left_iff.mp h with heq | hzero
    · exact .inl heq.symm
    · exact .inr hzero
  · rintro (rfl | rfl)
    · rfl
    · rw [zero_div, zero_div]

/-- A peak that has also seen another value gives the same drawdown when that
value was no new peak. -/
theorem drawdownFrom_max_eq_iff {peak seen value : K} (hpeak : 0 < peak) :
    drawdownFrom (max (max peak seen) value) value = drawdownFrom (max peak value) value
      ↔ seen ≤ peak ∨ seen ≤ value ∨ value = 0 := by
  have hmax : max (max peak seen) value = max peak value ↔ seen ≤ peak ∨ seen ≤ value := by
    rw [max_right_comm, max_eq_left_iff, le_max_iff]
  have hleft : 0 < max (max peak seen) value := lt_max_of_lt_left (lt_max_of_lt_left hpeak)
  rw [drawdownFrom_left_inj hleft (lt_max_of_lt_left hpeak), hmax, or_assoc]

variable [IsStrictOrderedRing K]

/-- From a peak that has seen the value there is no negative drawdown. -/
theorem drawdownFrom_max_nonneg (peak value : K) : 0 ≤ drawdownFrom (max peak value) value := by
  unfold drawdownFrom
  split
  · next hpos => exact div_nonneg (sub_nonneg.mpr (le_max_right peak value)) hpos.le
  · exact le_rfl

theorem drawdowns_nonneg (start : K) (values : List K) : ∀ d ∈ drawdowns start values, 0 ≤ d := by
  induction values generalizing start with
  | nil => exact List.forall_mem_nil _
  | cons value values ih =>
      exact List.forall_mem_cons.mpr ⟨drawdownFrom_max_nonneg start value, ih _⟩

end Field

end Lib.Drawdown
