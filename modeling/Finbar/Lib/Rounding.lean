/-
Finbar.Lib.Rounding — `round` to decimal digits: how far it moves a number,
and what it makes of small ones.

A number is rounded by at most half a unit of its last digit, and to zero
exactly when it is at most half a unit away from it; so a positive number
stays positive exactly when it is more than half a unit.

No `sorry`, no `axiom`.
-/
import Finbar.Lib.Python
import Mathlib.Algebra.BigOperators.Group.List.Basic
import Mathlib.Tactic.FieldSimp
import Mathlib.Tactic.Linarith

namespace Lib.Python

/-! ## §1 Rounding to an integer -/

/-- Rounding moves a number by at most one half. -/
theorem abs_sub_roundHalfEven_le (x : ℚ) : |x - roundHalfEven x| ≤ 1 / 2 := by
  have hdown := Int.floor_le x
  have hup := Int.lt_floor_add_one x
  unfold roundHalfEven
  simp only
  split
  · rename_i hbelow
    rw [abs_le]
    constructor <;> linarith
  · rename_i hbelow
    have hhalf : 1 / 2 ≤ x - ⌊x⌋ := not_lt.mp hbelow
    split
    · rw [abs_le]
      push_cast
      constructor <;> linarith
    · rename_i habove
      have htie : x - ⌊x⌋ = 1 / 2 := le_antisymm (not_lt.mp habove) hhalf
      split
      · rw [htie, abs_of_pos (by norm_num)]
      · push_cast
        rw [abs_le]
        constructor <;> linarith

/-- A number is rounded to zero from at most one half away. -/
theorem roundHalfEven_eq_zero_iff (x : ℚ) : roundHalfEven x = 0 ↔ |x| ≤ 1 / 2 := by
  constructor
  · intro h
    have hmove := abs_sub_roundHalfEven_le x
    rwa [h, Int.cast_zero, sub_zero] at hmove
  · intro h
    obtain ⟨hlow, hhigh⟩ := abs_le.mp h
    unfold roundHalfEven
    simp only
    by_cases hneg : x < 0
    · have hfloor : ⌊x⌋ = -1 := by
        rw [Int.floor_eq_iff]
        push_cast
        constructor <;> linarith
      rw [hfloor]
      push_cast
      rw [if_neg (by linarith)]
      split
      · rfl
      · rfl
    · have hfloor : ⌊x⌋ = 0 := by
        rw [Int.floor_eq_iff]
        push_cast
        constructor <;> linarith
      rw [hfloor]
      push_cast
      rw [if_neg (show ¬ 1 / 2 < x - 0 by linarith)]
      split
      · rfl
      · rfl

/-- A number is rounded to a positive one from more than one half. -/
theorem roundHalfEven_pos_iff (x : ℚ) : 0 < roundHalfEven x ↔ 1 / 2 < x := by
  obtain ⟨hlow, hhigh⟩ := abs_le.mp (abs_sub_roundHalfEven_le x)
  constructor
  · intro h
    have hone : (1 : ℚ) ≤ roundHalfEven x := by exact_mod_cast h
    have hhalf : 1 / 2 ≤ x := by linarith
    refine lt_of_le_of_ne hhalf fun heq => h.ne' ?_
    rw [roundHalfEven_eq_zero_iff, ← heq, abs_of_pos (by norm_num)]
  · intro h
    have hpos : (0 : ℚ) < roundHalfEven x := by linarith
    exact_mod_cast hpos

/-- A number halfway between two integers is rounded to the even one. -/
theorem roundHalfEven_half (n : ℤ) :
    roundHalfEven (n + 1 / 2) = if n % 2 = 0 then n else n + 1 := by
  have hfloor : ⌊(n : ℚ) + 1 / 2⌋ = n := by
    rw [Int.floor_eq_iff]
    constructor <;> linarith
  unfold roundHalfEven
  simp only [hfloor]
  rw [if_neg (by linarith), if_neg (by linarith)]

/-- A number is rounded above an integer from more than one half above it, and from
one half above an odd one. -/
theorem lt_roundHalfEven_iff (x : ℚ) (n : ℤ) :
    n < roundHalfEven x ↔ n + 1 / 2 < x ∨ x = n + 1 / 2 ∧ n % 2 = 1 := by
  obtain ⟨hlow, hhigh⟩ := abs_le.mp (abs_sub_roundHalfEven_le x)
  rcases lt_trichotomy x (n + 1 / 2) with hbelow | htie | habove
  · have hle : roundHalfEven x < n + 1 := by
      have : (roundHalfEven x : ℚ) < n + 1 := by linarith
      exact_mod_cast this
    constructor
    · omega
    · rintro (h | ⟨h, -⟩)
      · exact absurd h hbelow.not_gt
      · exact absurd h hbelow.ne
  · rw [htie, roundHalfEven_half]
    split <;> simp <;> omega
  · have hlt : (n : ℚ) < roundHalfEven x := by linarith
    exact iff_of_true (by exact_mod_cast hlt) (.inl habove)

/-- A number is rounded below an integer from more than one half below it, and from
one half below an odd one. -/
theorem roundHalfEven_lt_iff (x : ℚ) (n : ℤ) :
    roundHalfEven x < n ↔ x < n - 1 / 2 ∨ x = n - 1 / 2 ∧ n % 2 = 1 := by
  have hcast : ((n - 1 : ℤ) : ℚ) + 1 / 2 = n - 1 / 2 := by
    push_cast
    ring
  obtain ⟨hlow, hhigh⟩ := abs_le.mp (abs_sub_roundHalfEven_le x)
  rcases lt_trichotomy x (n - 1 / 2) with hbelow | htie | habove
  · have hlt : (roundHalfEven x : ℚ) < n := by linarith
    exact iff_of_true (by exact_mod_cast hlt) (.inl hbelow)
  · rw [htie, ← hcast, roundHalfEven_half]
    split <;> simp <;> omega
  · have hge : n - 1 < roundHalfEven x := by
      have : ((n : ℚ) - 1) < roundHalfEven x := by linarith
      exact_mod_cast this
    constructor
    · omega
    · rintro (h | ⟨h, -⟩)
      · exact absurd h habove.not_gt
      · exact absurd h habove.ne'

/-- `x` is rounded to an integer below `y`: it is more than one half below the first
integer from `y` on, or one half when that one is odd. -/
def RoundsBelow (x y : ℚ) : Prop :=
  x < ⌈y⌉ - 1 / 2 ∨ x = ⌈y⌉ - 1 / 2 ∧ ⌈y⌉ % 2 = 1

instance (x y : ℚ) : Decidable (RoundsBelow x y) := inferInstanceAs (Decidable (_ ∨ _))

theorem roundHalfEven_lt_iff_roundsBelow (x y : ℚ) :
    (roundHalfEven x : ℚ) < y ↔ RoundsBelow x y := by
  rw [← Int.lt_ceil, roundHalfEven_lt_iff, RoundsBelow]

/-! ## §2 Rounding to digits -/

/-- A number is rounded below another by what the scaled numbers are. -/
theorem pyRound_lt_iff (x y : ℚ) (ndigits : ℕ) :
    pyRound x ndigits < y ↔ RoundsBelow (x * 10 ^ ndigits) (y * 10 ^ ndigits) := by
  have hscale : (0 : ℚ) < 10 ^ ndigits := pow_pos (by norm_num) ndigits
  rw [pyRound, div_lt_iff₀ hscale, roundHalfEven_lt_iff_roundsBelow]

theorem pyRound_eq_zero_iff (x : ℚ) (ndigits : ℕ) :
    pyRound x ndigits = 0 ↔ |x| * 10 ^ ndigits ≤ 1 / 2 := by
  have hscale : (0 : ℚ) < 10 ^ ndigits := pow_pos (by norm_num) ndigits
  unfold pyRound
  rw [div_eq_zero_iff, or_iff_left hscale.ne', Int.cast_eq_zero, roundHalfEven_eq_zero_iff,
    abs_mul, abs_of_pos hscale]

theorem pyRound_pos_iff (x : ℚ) (ndigits : ℕ) :
    0 < pyRound x ndigits ↔ 1 / 2 < x * 10 ^ ndigits := by
  have hscale : (0 : ℚ) < 10 ^ ndigits := pow_pos (by norm_num) ndigits
  unfold pyRound
  rw [div_pos_iff_of_pos_right hscale, Int.cast_pos, roundHalfEven_pos_iff]

theorem pyRound_nonneg {x : ℚ} (h : 0 ≤ x) (ndigits : ℕ) : 0 ≤ pyRound x ndigits := by
  have hscale : (0 : ℚ) < 10 ^ ndigits := pow_pos (by norm_num) ndigits
  by_contra hneg
  have hround : pyRound x ndigits < 0 := not_le.mp hneg
  rw [pyRound_lt_iff, zero_mul] at hround
  have hx : 0 ≤ x * 10 ^ ndigits := mul_nonneg h hscale.le
  rcases hround with hlt | ⟨heq, -⟩
  · norm_num at hlt
    linarith
  · norm_num at heq
    linarith

theorem abs_pyRound_sub_le (x : ℚ) (ndigits : ℕ) :
    |pyRound x ndigits - x| ≤ 1 / 2 / 10 ^ ndigits := by
  have hscale : (0 : ℚ) < 10 ^ ndigits := pow_pos (by norm_num) ndigits
  have hmove := abs_sub_roundHalfEven_le (x * 10 ^ ndigits)
  have heq : pyRound x ndigits - x
      = -((x * 10 ^ ndigits - roundHalfEven (x * 10 ^ ndigits)) / 10 ^ ndigits) := by
    rw [pyRound]
    field_simp
    ring
  rw [heq, abs_neg, abs_div, abs_of_pos hscale]
  exact div_le_div_of_nonneg_right hmove hscale.le

/-- An integer is rounded to itself. -/
theorem roundHalfEven_intCast (n : ℤ) : roundHalfEven n = n := by
  unfold roundHalfEven
  simp only [Int.floor_intCast, sub_self]
  rw [if_pos (by norm_num)]

/-- Rounding a second time does nothing. -/
theorem pyRound_pyRound (x : ℚ) (ndigits : ℕ) :
    pyRound (pyRound x ndigits) ndigits = pyRound x ndigits := by
  have hscale : (10 : ℚ) ^ ndigits ≠ 0 := pow_ne_zero ndigits (by norm_num)
  rw [pyRound, pyRound, div_mul_cancel₀ _ hscale, roundHalfEven_intCast]

/-- Rounding moves a sum by at most the sum of the moves. -/
theorem abs_sum_pyRound_sub_le (qs : List ℚ) (ndigits : ℕ) :
    |(qs.map fun q => pyRound q ndigits).sum - qs.sum| ≤ qs.length * (1 / 2 / 10 ^ ndigits) := by
  induction qs with
  | nil => simp
  | cons q qs ih =>
      have hmove := abs_pyRound_sub_le q ndigits
      rw [List.map_cons, List.sum_cons, List.sum_cons, List.length_cons, add_sub_add_comm]
      push_cast
      calc |pyRound q ndigits - q + ((qs.map fun q => pyRound q ndigits).sum - qs.sum)|
          ≤ |pyRound q ndigits - q| + |(qs.map fun q => pyRound q ndigits).sum - qs.sum| :=
            abs_add_le _ _
        _ ≤ 1 / 2 / 10 ^ ndigits + qs.length * (1 / 2 / 10 ^ ndigits) := add_le_add hmove ih
        _ = (qs.length + 1) * (1 / 2 / 10 ^ ndigits) := by ring

end Lib.Python
