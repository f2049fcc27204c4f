/-
Finbar.Lib.Binary64 — rounding to IEEE binary64, ties to the even one.

A number is rounded to 53 significant bits, or to a multiple of `2 ^ -1074`
where these are finer, and to an infinity beyond the range. Rounding keeps
the order, so a float rounded to decimal digits (`round(x, ndigits)`, whose
decimal is read back as a float) is below another exactly when it is
rounded no higher than some decimal that is.

No `sorry`, no `axiom`.
-/
import Finbar.Lib.PyValue
import Finbar.Lib.Rounding
import Mathlib.Data.Int.Log

namespace Lib.Python

/-! ## §1 Rounding to an integer keeps the order -/

/-- A number is rounded to at most an integer from at most one half above it, and from
one half above an even one. -/
theorem roundHalfEven_le_iff (x : ℚ) (n : ℤ) :
    roundHalfEven x ≤ n ↔ x < n + 1 / 2 ∨ x = n + 1 / 2 ∧ n % 2 = 0 := by
  rw [← not_lt, lt_roundHalfEven_iff]
  rcases lt_trichotomy x (n + 1 / 2) with hbelow | htie | habove
  · exact iff_of_true (by rintro (h | ⟨h, -⟩) <;> linarith) (.inl hbelow)
  · rw [htie]
    simp
  · refine iff_of_false (not_not_intro (.inl habove)) ?_
    rintro (h | ⟨h, -⟩) <;> linarith

/-- A number is rounded to at least an integer from at most one half below it, and from
one half below an even one. -/
theorem le_roundHalfEven_iff (x : ℚ) (n : ℤ) :
    n ≤ roundHalfEven x ↔ n - 1 / 2 < x ∨ x = n - 1 / 2 ∧ n % 2 = 0 := by
  rw [← not_lt, roundHalfEven_lt_iff]
  rcases lt_trichotomy x (n - 1 / 2) with hbelow | htie | habove
  · refine iff_of_false (not_not_intro (.inl hbelow)) ?_
    rintro (h | ⟨h, -⟩) <;> linarith
  · rw [htie]
    simp
  · exact iff_of_true (by rintro (h | ⟨h, -⟩) <;> linarith) (.inl habove)

theorem roundHalfEven_mono {x y : ℚ} (h : x ≤ y) : roundHalfEven x ≤ roundHalfEven y := by
  rw [roundHalfEven_le_iff]
  rcases (roundHalfEven_le_iff y _).mp le_rfl with hlt | ⟨heq, heven⟩
  · exact .inl (h.trans_lt hlt)
  · rcases (heq ▸ h).lt_or_eq with hlt | hxy
    · exact .inl hlt
    · exact .inr ⟨hxy, heven⟩

theorem roundHalfEven_neg (x : ℚ) : roundHalfEven (-x) = -roundHalfEven x := by
  refine eq_of_forall_le_iff fun n => ?_
  rw [le_roundHalfEven_iff, le_neg, roundHalfEven_le_iff, Int.cast_neg, Int.neg_emod_two]
  constructor <;>
  · rintro (h | ⟨h, heven⟩)
    · exact .inl (by linarith)
    · exact .inr ⟨by linarith, heven⟩

/-! ## §2 Rounding to a double -/

/-- The exponent of the last bit that a double near `x` has. -/
def lastBit (x : ℚ) : ℤ := max (Int.log 2 |x| - 52) (-1074)

/-- The double nearest to `x`, for a range without an upper end. -/
def binary64 (x : ℚ) : ℚ := roundHalfEven (x / 2 ^ lastBit x) * 2 ^ lastBit x

@[simp] theorem binary64_zero : binary64 0 = 0 := by
  unfold binary64
  rw [zero_div, (roundHalfEven_eq_zero_iff 0).mpr (by norm_num), Int.cast_zero, zero_mul]

theorem binary64_neg (x : ℚ) : binary64 (-x) = -binary64 x := by
  unfold binary64 lastBit
  rw [abs_neg, neg_div, roundHalfEven_neg, Int.cast_neg, neg_mul]

/-- A double lies within the power of two above the number. -/
theorem binary64_le_zpow {x : ℚ} (hx : 0 < x) : binary64 x ≤ 2 ^ (lastBit x + 53) := by
  have hunit : (0 : ℚ) < 2 ^ lastBit x := zpow_pos two_pos _
  have hlt : x < 2 ^ (lastBit x + 53) := by
    have hlog := Int.lt_zpow_succ_log_self (b := 2) one_lt_two x
    refine hlog.trans_le (zpow_le_zpow_right₀ one_le_two ?_)
    have hbit : Int.log 2 |x| - 52 ≤ lastBit x := le_max_left _ _
    rw [abs_of_pos hx] at hbit
    omega
  have hround : roundHalfEven (x / 2 ^ lastBit x) ≤ 2 ^ 53 := by
    refine (roundHalfEven_mono ?_).trans (roundHalfEven_intCast (2 ^ 53)).le
    rw [div_le_iff₀ hunit]
    calc x ≤ 2 ^ (lastBit x + 53) := hlt.le
      _ = ((2 ^ 53 : ℤ) : ℚ) * 2 ^ lastBit x := by
        rw [zpow_add₀ two_ne_zero, mul_comm]
        norm_num
  calc binary64 x ≤ ((2 ^ 53 : ℤ) : ℚ) * 2 ^ lastBit x :=
        mul_le_mul_of_nonneg_right (Int.cast_le.mpr hround) hunit.le
    _ = 2 ^ (lastBit x + 53) := by
      rw [zpow_add₀ two_ne_zero, mul_comm]
      norm_num

/-- Above the finest exponent a double reaches the power of two below the number. -/
theorem zpow_le_binary64 {x : ℚ} (hx : 0 < x) (hbit : -1074 < lastBit x) :
    2 ^ (lastBit x + 52) ≤ binary64 x := by
  have hunit : (0 : ℚ) < 2 ^ lastBit x := zpow_pos two_pos _
  have hlog : lastBit x = Int.log 2 x - 52 := by
    unfold lastBit at hbit ⊢
    rw [abs_of_pos hx] at hbit ⊢
    omega
  have hscale : ((2 ^ 52 : ℤ) : ℚ) * 2 ^ lastBit x = 2 ^ (lastBit x + 52) := by
    rw [zpow_add₀ two_ne_zero, mul_comm]
    norm_num
  have hround : 2 ^ 52 ≤ roundHalfEven (x / 2 ^ lastBit x) := by
    refine (roundHalfEven_intCast (2 ^ 52)).ge.trans (roundHalfEven_mono ?_)
    rw [le_div_iff₀ hunit, hscale, hlog, sub_add_cancel]
    exact Int.zpow_log_le_self one_lt_two hx
  calc (2 : ℚ) ^ (lastBit x + 52) = ((2 ^ 52 : ℤ) : ℚ) * 2 ^ lastBit x := hscale.symm
    _ ≤ binary64 x := mul_le_mul_of_nonneg_right (Int.cast_le.mpr hround) hunit.le

theorem binary64_nonneg {x : ℚ} (hx : 0 ≤ x) : 0 ≤ binary64 x := by
  have hunit : (0 : ℚ) < 2 ^ lastBit x := zpow_pos two_pos _
  have hround : 0 ≤ roundHalfEven (x / 2 ^ lastBit x) := by
    rw [← roundHalfEven_intCast 0]
    exact roundHalfEven_mono (by simpa using div_nonneg hx hunit.le)
  exact mul_nonneg (Int.cast_nonneg hround) hunit.le

/-- Numbers with one last bit are rounded to multiples of it; a number with a finer
one stays within the power of two that the other reaches. -/
theorem binary64_le_of_pos {x y : ℚ} (hx : 0 < x) (h : x ≤ y) : binary64 x ≤ binary64 y := by
  have hy : 0 < y := hx.trans_le h
  have hbit : lastBit x ≤ lastBit y := by
    unfold lastBit
    rw [abs_of_pos hx, abs_of_pos hy]
    have hlog := Int.log_mono_right (b := 2) hx h
    omega
  rcases hbit.eq_or_lt with heq | hlt
  · have hunit : (0 : ℚ) < 2 ^ lastBit y := zpow_pos two_pos _
    unfold binary64
    rw [heq]
    exact mul_le_mul_of_nonneg_right
      (Int.cast_le.mpr (roundHalfEven_mono (div_le_div_of_nonneg_right h hunit.le))) hunit.le
  · have hfine : -1074 ≤ lastBit x := le_max_right _ _
    calc binary64 x ≤ 2 ^ (lastBit x + 53) := binary64_le_zpow hx
      _ ≤ 2 ^ (lastBit y + 52) := zpow_le_zpow_right₀ one_le_two (by omega)
      _ ≤ binary64 y := zpow_le_binary64 hy (by omega)

/-- **Rounding to a double keeps the order.** -/
theorem binary64_mono {x y : ℚ} (h : x ≤ y) : binary64 x ≤ binary64 y := by
  rcases lt_or_ge 0 x with hx | hx
  · exact binary64_le_of_pos hx h
  have hnonpos : ∀ {z : ℚ}, z ≤ 0 → binary64 z ≤ 0 := fun {z} hz => by
    have := binary64_nonneg (neg_nonneg.mpr hz)
    rw [binary64_neg] at this
    linarith
  rcases le_or_gt 0 y with hy | hy
  · exact (hnonpos hx).trans (binary64_nonneg hy)
  · have := binary64_le_of_pos (neg_pos.mpr hy) (neg_le_neg h)
    rwa [binary64_neg, binary64_neg, neg_le_neg_iff] at this

/-- Half a unit of the last bit is a `2 ^ -53` of the number, or half the finest unit. -/
theorem half_zpow_lastBit_le (x : ℚ) : 2 ^ lastBit x / 2 ≤ (|x| + 1) / 2 ^ 53 := by
  have habs := abs_nonneg x
  unfold lastBit
  rcases max_cases (Int.log 2 |x| - 52) (-1074) with ⟨hmax, -⟩ | ⟨hmax, -⟩
  · rw [hmax]
    rcases habs.eq_or_lt with hzero | hpos
    · rw [← hzero]
      norm_num
    · have hlog := Int.zpow_log_le_self (b := 2) one_lt_two hpos
      rw [zpow_sub₀ two_ne_zero, div_div, div_le_div_iff₀ (by norm_num) (by norm_num)]
      norm_num at hlog ⊢
      linarith
  · rw [hmax]
    calc (2 : ℚ) ^ (-1074 : ℤ) / 2 ≤ 2 ^ (-52 : ℤ) / 2 :=
          div_le_div_of_nonneg_right (zpow_le_zpow_right₀ one_le_two (by norm_num)) two_pos.le
      _ = 1 / 2 ^ 53 := by norm_num
      _ ≤ (|x| + 1) / 2 ^ 53 := div_le_div_of_nonneg_right (by linarith) (by norm_num)

/-- **Rounding to a double moves a number by at most a `2 ^ -53` of it**, up to the finest unit. -/
theorem abs_binary64_sub_le (x : ℚ) : |binary64 x - x| ≤ (|x| + 1) / 2 ^ 53 := by
  have hunit : (0 : ℚ) < 2 ^ lastBit x := zpow_pos two_pos _
  have hmove := abs_sub_roundHalfEven_le (x / 2 ^ lastBit x)
  have heq : binary64 x - x
      = -((x / 2 ^ lastBit x - roundHalfEven (x / 2 ^ lastBit x)) * 2 ^ lastBit x) := by
    rw [binary64, sub_mul, div_mul_cancel₀ _ hunit.ne']
    ring
  rw [heq, abs_neg, abs_mul, abs_of_pos hunit]
  calc _ ≤ 1 / 2 * 2 ^ lastBit x := mul_le_mul_of_nonneg_right hmove hunit.le
    _ = 2 ^ lastBit x / 2 := by ring
    _ ≤ (|x| + 1) / 2 ^ 53 := half_zpow_lastBit_le x

/-! ## §3 Arithmetic of doubles -/

namespace PyFloat

/-- Doubles end below this. -/
def doubleRange : ℚ := 2 ^ 1024

theorem doubleRange_pos : 0 < doubleRange := pow_pos two_pos _

/-- The nearest double; an infinity beyond their range. -/
def double : PyFloat → PyFloat
  | fin q =>
      if doubleRange ≤ binary64 q then posInf
      else if binary64 q ≤ -doubleRange then negInf
      else fin (binary64 q)
  | x => x

/-- `x + y` of doubles. -/
def addDouble (x y : PyFloat) : PyFloat := (x.add y).double

/-- `x - y` of doubles. -/
def subDouble (x y : PyFloat) : PyFloat := (x.sub y).double

/-- `x * y` of doubles. -/
def mulDouble (x y : PyFloat) : PyFloat := (x.mul y).double

/-- `round(x, ndigits)` of a double: the decimal is read as a double. -/
def roundDouble (x : PyFloat) (ndigits : ℕ) : PyFloat := (x.round ndigits).double

/-- `n` units of the last of `ndigits` decimals. -/
def decimal (n : ℤ) (ndigits : ℕ) : PyFloat := (fin (n / 10 ^ ndigits)).double

theorem lt_of_le_of_lt {x y z : PyFloat} (h : x.le y) (h' : y.lt z) : x.lt z := by
  cases x <;> cases y <;> cases z <;> simp_all [le, lt]
  exact h.trans_lt h'

theorem lt_of_lt_of_le {x y z : PyFloat} (h : x.lt y) (h' : y.le z) : x.lt z := by
  cases x <;> cases y <;> cases z <;> simp_all [le, lt]
  exact h.trans_le h'

theorem lt_trans {x y z : PyFloat} (h : x.lt y) (h' : y.lt z) : x.lt z := by
  cases x <;> cases y <;> cases z <;> simp_all [lt]
  exact h.trans h'

theorem double_le {q r : ℚ} (h : q ≤ r) : (fin q).double.le (fin r).double := by
  have hround := binary64_mono h
  simp only [double]
  split_ifs <;> simp only [le, decide_eq_true_eq] <;> linarith

@[simp] theorem double_zero : (fin 0).double = fin 0 := by
  have hrange := doubleRange_pos
  simp only [double, binary64_zero]
  rw [if_neg hrange.not_ge, if_neg (by linarith)]

/-- In the middle of the range a double is finite and near the number. -/
theorem double_near {q : ℚ} (h : |q| ≤ 2 ^ 42) :
    ∃ r, (fin q).double = fin r ∧ |r - q| ≤ (|q| + 1) / 2 ^ 53 := by
  have hmove := abs_binary64_sub_le q
  have hsmall : (|q| + 1) / 2 ^ 53 ≤ 1 := by
    rw [div_le_one (by norm_num)]
    norm_num at h ⊢
    linarith
  have hrange : (2 : ℚ) ^ 43 ≤ doubleRange := pow_le_pow_right₀ one_le_two (by norm_num)
  obtain ⟨hlow, hhigh⟩ := abs_le.mp h
  obtain ⟨hbelow, habove⟩ := abs_le.mp (hmove.trans hsmall)
  norm_num at hrange hlow hhigh
  refine ⟨binary64 q, ?_, hmove⟩
  simp only [double]
  rw [if_neg (by linarith), if_neg (by linarith)]

theorem roundDouble_fin (q : ℚ) (ndigits : ℕ) :
    (fin q).roundDouble ndigits = decimal (roundHalfEven (q * 10 ^ ndigits)) ndigits := rfl

theorem decimal_le {m n : ℤ} (h : m ≤ n) (ndigits : ℕ) :
    (decimal m ndigits).le (decimal n ndigits) := by
  have hscale : (0 : ℚ) < 10 ^ ndigits := pow_pos (by norm_num) ndigits
  exact double_le (div_le_div_of_nonneg_right (Int.cast_le.mpr h) hscale.le)

/-! ## §4 On which side a rounded double lies -/

/-- `x` is rounded at `ndigits` to at most some decimal that is, as a double, below
`y`. -/
def RoundsUnder (x y : PyFloat) (ndigits : ℕ) : Prop :=
  match x with
  | fin q => ∃ n : ℤ, (decimal n ndigits).lt y ∧
      (q * 10 ^ ndigits < n + 1 / 2 ∨ q * 10 ^ ndigits = n + 1 / 2 ∧ n % 2 = 0)
  | x => x.lt y

/-- `x` is rounded at `ndigits` to at least some decimal that is, as a double, above
`y`. -/
def RoundsOver (x y : PyFloat) (ndigits : ℕ) : Prop :=
  match x with
  | fin q => ∃ n : ℤ, y.lt (decimal n ndigits) ∧
      (n - 1 / 2 < q * 10 ^ ndigits ∨ q * 10 ^ ndigits = n - 1 / 2 ∧ n % 2 = 0)
  | x => y.lt x

/-- **A double is rounded below another** exactly when it is rounded no higher than
some decimal that is below it. -/
theorem roundDouble_lt_iff (x y : PyFloat) (ndigits : ℕ) :
    (x.roundDouble ndigits).lt y ↔ RoundsUnder x y ndigits := by
  cases x with
  | fin q =>
      constructor
      · exact fun h => ⟨_, h, (roundHalfEven_le_iff _ _).mp le_rfl⟩
      · rintro ⟨n, hn, hround⟩
        exact lt_of_le_of_lt (decimal_le ((roundHalfEven_le_iff _ _).mpr hround) _) hn
  | _ => rfl

/-- A double is rounded above another exactly when it is rounded no lower than some
decimal that is above it. -/
theorem lt_roundDouble_iff (x y : PyFloat) (ndigits : ℕ) :
    y.lt (x.roundDouble ndigits) ↔ RoundsOver x y ndigits := by
  cases x with
  | fin q =>
      constructor
      · exact fun h => ⟨_, h, (le_roundHalfEven_iff _ _).mp le_rfl⟩
      · rintro ⟨n, hn, hround⟩
        exact lt_of_lt_of_le hn (decimal_le ((le_roundHalfEven_iff _ _).mpr hround) _)
  | _ => rfl

/-- `x` is rounded at `ndigits` to a positive double: it is more than one half of the
last decimal. -/
def RoundsPositive (x : PyFloat) (ndigits : ℕ) : Prop :=
  match x with
  | fin q => 1 / 2 < q * 10 ^ ndigits
  | x => (fin 0).lt x

theorem RoundsPositive.pos {x : PyFloat} {ndigits : ℕ} (h : RoundsPositive x ndigits) :
    (fin 0).lt x := by
  cases x with
  | fin q =>
      have hscale : (0 : ℚ) < 10 ^ ndigits := pow_pos (by norm_num) ndigits
      have hq : 0 < q * 10 ^ ndigits := one_half_pos.trans h
      exact decide_eq_true ((mul_pos_iff_of_pos_right hscale).mp hq)
  | _ => exact h

/-- Where one unit of the last decimal is not rounded to zero, a double is rounded to
a positive one exactly when it is more than one half of it. -/
theorem roundDouble_pos_iff {ndigits : ℕ} (hunit : (fin 0).lt (decimal 1 ndigits))
    (x : PyFloat) : (fin 0).lt (x.roundDouble ndigits) ↔ RoundsPositive x ndigits := by
  cases x with
  | fin q =>
      show _ ↔ 1 / 2 < q * 10 ^ ndigits
      rw [← roundHalfEven_pos_iff, roundDouble_fin]
      constructor
      · intro hpos
        by_contra hle
        have hzero : decimal 0 ndigits = fin 0 := by simp [decimal]
        have := lt_of_lt_of_le hpos (decimal_le (not_lt.mp hle) ndigits)
        rw [hzero] at this
        simp [lt] at this
      · exact fun h => lt_of_lt_of_le hunit (decimal_le (by omega) ndigits)
  | _ => rfl

end PyFloat

end Lib.Python
