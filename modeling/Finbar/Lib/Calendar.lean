/-
Finbar.Lib.Calendar — dates of the Gregorian calendar, and texts of fixed width.

A date is what a count of days from the first of January of the year 1 falls
on, and a fixed-width text writes a number with leading zeros. Both determine
what they stand for: `dateOf_injective`, `digits_injective`. Both keep the order:
`dateOf_mono`, `digits_lt`.

No `sorry`, no `axiom`.
-/
import Mathlib.Data.List.Basic
import Mathlib.Data.List.Lex
import Mathlib.Algebra.Order.Group.Nat
import Mathlib.Tactic.Ring

namespace Lib.Calendar

/-! ## §1 Dates -/

/-- A date. -/
@[ext]
structure Date where
  year : ℕ
  month : ℕ
  day : ℕ
  deriving DecidableEq, Repr

/-- A leap year of the Gregorian calendar. -/
def isLeap (year : ℕ) : Bool :=
  decide (year % 4 = 0 ∧ (year % 100 ≠ 0 ∨ year % 400 = 0))

/-- The days of the months. -/
def monthLengths (leap : Bool) : List ℕ :=
  [31, if leap then 29 else 28, 31, 30, 31, 30, 31, 31, 30, 31, 30, 31]

/-- The section that a count falls into, and what is left of the count there. -/
def locate : List ℕ → ℕ → ℕ × ℕ
  | [], n => (0, n)
  | length :: lengths, n =>
      if n < length then (0, n)
      else ((locate lengths (n - length)).1 + 1, (locate lengths (n - length)).2)

/-- The year of a day, and the day's place in it, both counted from 0: by
periods of 400, 100, 4 years and single years. -/
def splitYear (n : ℕ) : ℕ × ℕ :=
  let r400 := n % 146097
  let n100 := min (r400 / 36524) 3
  let r100 := r400 - 36524 * n100
  let r4 := r100 % 1461
  let n1 := min (r4 / 365) 3
  (400 * (n / 146097) + 100 * n100 + 4 * (r100 / 1461) + n1, r4 - 365 * n1)

/-- The date of the day that many days after the first of January of the year 1. -/
def dateOf (n : ℕ) : Date :=
  let year := (splitYear n).1 + 1
  let place := locate (monthLengths (isLeap year)) (splitYear n).2
  { year := year, month := place.1 + 1, day := place.2 + 1 }

/-- The section and the rest give the count back. -/
theorem locate_sum (lengths : List ℕ) (n : ℕ) :
    (lengths.take (locate lengths n).1).sum + (locate lengths n).2 = n := by
  induction lengths generalizing n with
  | nil => simp [locate]
  | cons length lengths ih =>
      rw [locate]
      split
      · simp
      · have hrest := ih (n - length)
        rw [List.take_succ_cons, List.sum_cons]
        omega

theorem locate_injective {lengths : List ℕ} {m n : ℕ} (h : locate lengths m = locate lengths n) :
    m = n := by
  rw [← locate_sum lengths m, ← locate_sum lengths n, h]

theorem locate_fst_le (lengths : List ℕ) (n : ℕ) : (locate lengths n).1 ≤ lengths.length := by
  induction lengths generalizing n with
  | nil => simp [locate]
  | cons length lengths ih =>
      rw [locate]
      split
      · simp
      · have hrest := ih (n - length)
        rw [List.length_cons]
        omega

/-- The rest is smaller than a section, or than what is beyond them all. -/
theorem locate_snd_lt {lengths : List ℕ} {bound n : ℕ} (h : ∀ length ∈ lengths, length ≤ bound)
    (hn : n < lengths.sum + bound) : (locate lengths n).2 < bound := by
  induction lengths generalizing n with
  | nil => simpa [locate] using hn
  | cons length lengths ih =>
      rw [List.sum_cons] at hn
      obtain ⟨hfirst, hrest⟩ := List.forall_mem_cons.mp h
      rw [locate]
      split
      · dsimp only
        omega
      · exact ih hrest (by omega)

theorem splitYear_snd_lt (n : ℕ) : (splitYear n).2 < 366 := by
  unfold splitYear
  dsimp only
  omega

/-- The periods that a day is split into. -/
theorem splitYear_periods (n : ℕ) :
    ∃ n400 n100 n4 n1, n100 < 4 ∧ n4 < 25 ∧ n1 < 4 ∧
      (splitYear n).1 = 400 * n400 + 100 * n100 + 4 * n4 + n1 ∧
      n = 146097 * n400 + 36524 * n100 + 1461 * n4 + 365 * n1 + (splitYear n).2 := by
  unfold splitYear
  dsimp only
  refine ⟨_, _, _, _, ?_, ?_, ?_, rfl, ?_⟩
  · omega
  · omega
  · omega
  · omega

/-- The years before and the place give the day back. -/
theorem splitYear_injective {m n : ℕ} (h : splitYear m = splitYear n) : m = n := by
  obtain ⟨a, b, c, d, hb, hc, hd, hyear, hm⟩ := splitYear_periods m
  obtain ⟨a', b', c', d', hb', hc', hd', hyear', hn⟩ := splitYear_periods n
  rw [h, hyear'] at hyear
  rw [h] at hm
  omega

/-- **A date has one day.** -/
theorem dateOf_injective {m n : ℕ} (h : dateOf m = dateOf n) : m = n := by
  unfold dateOf at h
  obtain ⟨hyear, hmonth, hday⟩ := Date.mk.inj h
  have hsplit : (splitYear m).1 = (splitYear n).1 := Nat.succ.inj hyear
  rw [hsplit] at hmonth hday
  have hplace : locate (monthLengths (isLeap ((splitYear n).1 + 1))) (splitYear m).2
      = locate (monthLengths (isLeap ((splitYear n).1 + 1))) (splitYear n).2 :=
    Prod.ext (Nat.succ.inj hmonth) (Nat.succ.inj hday)
  exact splitYear_injective (Prod.ext hsplit (locate_injective hplace))

theorem dateOf_month_lt (n : ℕ) : (dateOf n).month < 100 := by
  have hle := locate_fst_le (monthLengths (isLeap ((splitYear n).1 + 1))) (splitYear n).2
  have hlength : (monthLengths (isLeap ((splitYear n).1 + 1))).length = 12 := rfl
  unfold dateOf
  dsimp only
  omega

theorem dateOf_day_lt (n : ℕ) : (dateOf n).day < 100 := by
  have hlengths : ∀ leap, (∀ length ∈ monthLengths leap, length ≤ 31) ∧
      365 ≤ (monthLengths leap).sum := by decide
  obtain ⟨hmonths, hsum⟩ := hlengths (isLeap ((splitYear n).1 + 1))
  have hplace : (splitYear n).2
      < (monthLengths (isLeap ((splitYear n).1 + 1))).sum + 31 := by
    have := splitYear_snd_lt n
    omega
  have hlt := locate_snd_lt hmonths hplace
  unfold dateOf
  dsimp only
  omega

example : dateOf 738885 = { year := 2024, month := 1, day := 1 } := by decide

/-! ## §2 Fixed width -/

/-- The last `width` decimal digits of a number. -/
def digits : ℕ → ℕ → List Char
  | 0, _ => []
  | width + 1, n => digits width (n / 10) ++ [Nat.digitChar (n % 10)]

@[simp] theorem length_digits (width n : ℕ) : (digits width n).length = width := by
  induction width generalizing n with
  | zero => rfl
  | succ width ih => rw [digits, List.length_append, ih, List.length_singleton]

theorem digitChar_injective {m n : ℕ} (hm : m < 10) (hn : n < 10)
    (h : Nat.digitChar m = Nat.digitChar n) : m = n := by
  have hall : ∀ m < 10, ∀ n < 10, Nat.digitChar m = Nat.digitChar n → m = n := by decide
  exact hall m hm n hn h

/-- **The digits determine a number** that they are enough for. -/
theorem digits_injective {width m n : ℕ} (hm : m < 10 ^ width) (hn : n < 10 ^ width)
    (h : digits width m = digits width n) : m = n := by
  induction width generalizing m n with
  | zero => omega
  | succ width ih =>
      rw [digits, digits] at h
      obtain ⟨hfront, hlast⟩ := List.append_inj' h rfl
      have hdigit := digitChar_injective (Nat.mod_lt m (by decide)) (Nat.mod_lt n (by decide))
        (List.singleton_inj.mp hlast)
      rw [pow_succ] at hm hn
      have hrest := ih (Nat.div_lt_of_lt_mul (by omega)) (Nat.div_lt_of_lt_mul (by omega)) hfront
      omega

/-! ## §3 Order -/

/-- The years before a day do not go back. -/
theorem splitYear_fst_mono {m n : ℕ} (h : m ≤ n) : (splitYear m).1 ≤ (splitYear n).1 := by
  unfold splitYear
  dsimp only
  have hm : m % 146097 < 146097 := Nat.mod_lt m (by decide)
  have hn : n % 146097 < 146097 := Nat.mod_lt n (by decide)
  rcases (by omega : m / 146097 < n / 146097 ∨
    m / 146097 = n / 146097 ∧ m % 146097 ≤ n % 146097) with hlt | ⟨heq, hle⟩
  · omega
  · rw [heq]
    generalize m % 146097 = r at *
    generalize n % 146097 = r' at *
    rcases (by omega : min (r / 36524) 3 < min (r' / 36524) 3 ∨
      min (r / 36524) 3 = min (r' / 36524) 3) with hlt | heq
    · omega
    · rw [heq]
      have hs : r - 36524 * min (r' / 36524) 3 ≤ r' - 36524 * min (r' / 36524) 3 := by omega
      generalize r - 36524 * min (r' / 36524) 3 = s at *
      generalize r' - 36524 * min (r' / 36524) 3 = s' at *
      rcases (by omega : s / 1461 < s' / 1461 ∨ s / 1461 = s' / 1461 ∧ s % 1461 ≤ s' % 1461)
        with hlt | ⟨heq, hle⟩
      · omega
      · have hquot : s % 1461 / 365 ≤ s' % 1461 / 365 := Nat.div_le_div_right hle
        omega

theorem splitYear_snd_mono {m n : ℕ} (h : m ≤ n) (hyear : (splitYear m).1 = (splitYear n).1) :
    (splitYear m).2 ≤ (splitYear n).2 := by
  obtain ⟨a, b, c, d, hb, hc, hd, hym, hm⟩ := splitYear_periods m
  obtain ⟨a', b', c', d', hb', hc', hd', hyn, hn⟩ := splitYear_periods n
  rw [hym, hyn] at hyear
  omega

theorem locate_fst_mono (lengths : List ℕ) {m n : ℕ} (h : m ≤ n) :
    (locate lengths m).1 ≤ (locate lengths n).1 := by
  induction lengths generalizing m n with
  | nil => exact Nat.le_refl _
  | cons length lengths ih =>
      rw [locate, locate]
      split
      · exact Nat.zero_le _
      · rw [if_neg (by omega)]
        exact Nat.succ_le_succ (ih (by omega))

/-- Days in order have years and months in order. -/
theorem dateOf_mono {m n : ℕ} (h : m ≤ n) :
    (dateOf m).year < (dateOf n).year ∨
      (dateOf m).year = (dateOf n).year ∧ (dateOf m).month ≤ (dateOf n).month := by
  have hyear := splitYear_fst_mono h
  rcases hyear.lt_or_eq with hlt | heq
  · exact .inl (Nat.succ_lt_succ hlt)
  · refine .inr ⟨congrArg Nat.succ heq, Nat.succ_le_succ ?_⟩
    rw [heq]
    exact locate_fst_mono _ (splitYear_snd_mono h heq)

/-- **Days in order have dates in order.** -/
theorem dateOf_lt {m n : ℕ} (h : m < n) :
    (dateOf m).year < (dateOf n).year ∨ (dateOf m).year = (dateOf n).year ∧
      ((dateOf m).month < (dateOf n).month ∨
        (dateOf m).month = (dateOf n).month ∧ (dateOf m).day < (dateOf n).day) := by
  refine (dateOf_mono h.le).imp_right fun ⟨hyear, hmonth⟩ => ⟨hyear, ?_⟩
  refine hmonth.lt_or_eq.imp_right fun hmonth => ⟨hmonth, Nat.succ_lt_succ ?_⟩
  have hsplit : (splitYear m).1 = (splitYear n).1 := Nat.succ.inj hyear
  have hplace : (splitYear m).2 < (splitYear n).2 := by
    refine (splitYear_snd_mono h.le hsplit).lt_of_ne fun heq => ?_
    exact h.ne (splitYear_injective (Prod.ext hsplit heq))
  have hm := locate_sum (monthLengths (isLeap ((splitYear m).1 + 1))) (splitYear m).2
  have hn := locate_sum (monthLengths (isLeap ((splitYear n).1 + 1))) (splitYear n).2
  rw [Nat.succ.inj hmonth, hsplit] at hm
  rw [hsplit]
  omega

/-- Texts of one length decide the order of what begins with them. -/
theorem lex_append {α : Type} [LT α] {a b : List α} (hlength : a.length = b.length)
    (h : List.Lex (· < ·) a b) (c d : List α) : List.Lex (· < ·) (a ++ c) (b ++ d) := by
  induction h with
  | nil => cases hlength
  | cons _ ih => exact .cons (ih (Nat.succ.inj hlength))
  | rel hlt => exact .rel hlt

theorem digitChar_lt {m n : ℕ} (h : m < n) (hn : n < 10) : Nat.digitChar m < Nat.digitChar n := by
  have hall : ∀ n < 10, ∀ m < n, Nat.digitChar m < Nat.digitChar n := by decide
  exact hall n hn m h

/-- Numbers in order have digits in order. -/
theorem digits_lt {width m n : ℕ} (h : m < n) (hn : n < 10 ^ width) :
    List.Lex (· < ·) (digits width m) (digits width n) := by
  induction width generalizing m n with
  | zero => omega
  | succ width ih =>
      rw [pow_succ] at hn
      rw [digits, digits]
      rcases (Nat.div_le_div_right h.le : m / 10 ≤ n / 10).lt_or_eq with hlt | heq
      · exact lex_append (by simp) (ih hlt (Nat.div_lt_of_lt_mul (by omega))) _ _
      · rw [heq]
        exact List.Lex.append_left _ (.rel (digitChar_lt (by omega) (Nat.mod_lt n (by decide)))) _

/-- A number of fixed width decides the order of two texts; where it is the same, what
comes after it does. -/
theorem lex_digits {width m n : ℕ} {c d : List Char} (hn : n < 10 ^ width)
    (h : m < n ∨ m = n ∧ List.Lex (· < ·) c d) :
    List.Lex (· < ·) (digits width m ++ c) (digits width n ++ d) := by
  rcases h with hlt | ⟨rfl, hrest⟩
  · exact lex_append (by simp) (digits_lt hlt hn) c d
  · exact List.Lex.append_left _ hrest _

end Lib.Calendar
