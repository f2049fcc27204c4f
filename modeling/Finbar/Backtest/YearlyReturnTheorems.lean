/-
Finbar.Backtest.YearlyReturnTheorems — the yearly returns of a chronological
equity curve.

A month's return is its growth less one, rounded to four decimals
(`calculateMonthlyReturns_items`). A year compounds the rounded returns of its
months, so its return is the growth of the year up to its own rounding and to
what the rounding of its months adds to the product (`yearlyReturns_compound`).

No `sorry`, no `axiom`.
-/
import Finbar.Backtest.ProjectionTheorems
import Finbar.Backtest.RollingMetrics
import Finbar.Lib.Compounding
import Finbar.Lib.Rounding
import Mathlib.Data.String.Basic

namespace Finbar.Backtest

open Lib Lib.Python Lib.Compounding Finbar.Simulation

/-! ## §1 Months and years -/

/-- The year of a date, its first four characters. -/
def CurveEntry.year (e : CurveEntry) : String := firstChars 4 e.dateText

/-- A chronological curve: its dates have a month, `YYYY-MM`, and the months never go back. -/
structure Chronological (curve : List CurveEntry) : Prop where
  dated : ∀ e ∈ curve, 7 ≤ e.dateText.length
  sorted : (curve.map CurveEntry.month).Pairwise (· ≤ ·)

/-- The growth of a month: its last value over the last one of the month before, for the first
month over the curve's first value. -/
def monthGrowth (curve : List CurveEntry) (month : String) : ℚ :=
  growth CurveEntry.month CurveEntry.worth curve month

/-- The growth of a year: its last value over the last one of the year before, for the first
year over the curve's first value. -/
def yearGrowth (curve : List CurveEntry) (year : String) : ℚ :=
  growth CurveEntry.year CurveEntry.worth curve year

/-- The months of a year in a curve. -/
def monthsOf (curve : List CurveEntry) (year : String) : List String :=
  ((curve.filter fun e => decide (e.year = year)).map CurveEntry.month).dedup

/-- What the first characters decide, the texts decide. -/
theorem lex_of_lex_take {a b : List Char} {n : ℕ}
    (h : List.Lex (· < ·) (a.take n) (b.take n)) : List.Lex (· < ·) a b := by
  induction n generalizing a b with
  | zero =>
      rw [List.take_zero, List.take_zero] at h
      cases h
  | succ n ih =>
      cases b with
      | nil => exact absurd h List.not_lex_nil
      | cons y b =>
          cases a with
          | nil => exact .nil
          | cons x a =>
              rw [List.take_succ_cons, List.take_succ_cons] at h
              cases h with
              | rel hlt => exact .rel hlt
              | cons hrest => exact .cons (ih hrest)

/-- The first characters of texts in order are in order. -/
theorem firstChars_mono (n : ℕ) : Monotone (firstChars n) := by
  intro s t h
  rw [← not_lt] at h ⊢
  intro hlt
  rw [String.lt_iff_toList_lt, firstChars, firstChars, String.toList_ofList,
    String.toList_ofList] at hlt
  exact h (String.lt_iff_toList_lt.mpr (lex_of_lex_take hlt))

theorem firstChars_firstChars {m n : ℕ} (h : m ≤ n) (text : String) :
    firstChars m (firstChars n text) = firstChars m text := by
  unfold firstChars
  rw [String.toList_ofList, List.take_take, Nat.min_eq_left h]

theorem year_eq : firstChars 4 ∘ CurveEntry.month = CurveEntry.year :=
  funext fun e => firstChars_firstChars (by decide) e.dateText

theorem Chronological.years {curve : List CurveEntry} (h : Chronological curve) :
    (curve.map CurveEntry.year).Pairwise (· ≤ ·) := by
  rw [← year_eq, ← List.map_map, List.pairwise_map]
  exact h.sorted.imp fun hle => firstChars_mono 4 hle

/-! ## §2 The engine's curves -/

open Lib.Calendar in
/-- The first seven characters of a moment are its year and its month. -/
theorem take_dateChars (day : ℕ) : (dateChars day).take 7 =
    digits 4 (dateOf day).year ++ '-' :: digits 2 (dateOf day).month := by
  have hlength : (digits 4 (dateOf day).year ++ '-' :: digits 2 (dateOf day).month).length = 7 := by
    simp
  unfold dateChars
  dsimp only
  rw [← List.cons_append, ← List.append_assoc, List.take_left' hlength]

theorem month_entryOfPoint (p : DatedPoint) :
    (entryOfPoint p.point).month = String.ofList ((dateChars p.day).take 7) := by
  show firstChars 7 p.point.date = _
  rw [p.date_eq, firstChars, DatedPoint.day, ← take_text p.moment, List.take_take]
  rfl

open Lib.Calendar in
/-- Days in order are of months in order. -/
theorem monthText_le {m n : Moment} (h : m.day ≤ n.day) :
    String.ofList ((dateChars m.day).take 7) ≤ String.ofList ((dateChars n.day).take 7) := by
  rw [take_dateChars, take_dateChars]
  rcases dateOf_mono h with hyear | ⟨hyear, hmonth⟩
  · refine le_of_lt (String.lt_iff_toList_lt.mpr ?_)
    rw [String.toList_ofList, String.toList_ofList]
    exact lex_append (by simp) (digits_lt hyear n.year_lt) _ _
  · rw [hyear]
    rcases hmonth.lt_or_eq with hlt | heq
    · refine le_of_lt (String.lt_iff_toList_lt.mpr ?_)
      rw [String.toList_ofList, String.toList_ofList]
      exact List.Lex.append_left _ (.cons (digits_lt hlt (dateOf_month_lt n.day))) _
    · rw [heq]

/-- **The curves of the engine** are chronological. -/
theorem Curve.chronological_entries (c : Curve) : Chronological (c.equity.map entryOfPoint) where
  dated := by
    intro e he
    obtain ⟨point, hpoint, rfl⟩ := List.mem_map.mp he
    obtain ⟨p, -, rfl⟩ := List.mem_map.mp hpoint
    have hlength := ten_le_length_text p.moment
    show 7 ≤ p.point.date.length
    rw [p.date_eq]
    omega
  sorted := by
    unfold Curve.equity
    rw [List.map_map, List.map_map, List.pairwise_map]
    refine c.pairwise_day.imp fun {p q} hday => ?_
    show (entryOfPoint p.point).month ≤ (entryOfPoint q.point).month
    rw [month_entryOfPoint, month_entryOfPoint]
    exact monthText_le hday

/-- The curve of a run over bars dated by a chronological index is chronological. -/
theorem runLoop_chronological {σ : Type} {settings : RunSettings σ} {memory : σ}
    {initialCash : ℚ} {bars : List Bar} {books : Books} {index : List Moment}
    (h : runLoop settings memory initialCash bars = .ok books)
    (hdates : bars.map Bar.date = precomputeDates index)
    (hindex : index.Pairwise Moment.Before) :
    Chronological (books.state.equityCurve.map entryOfPoint) := by
  obtain ⟨c, hc⟩ := runLoop_curve h hdates hindex
  rw [← hc]
  exact c.chronological_entries

/-! ## §3 Monthly returns -/

section Months

variable {curve : List CurveEntry} {ks : List String}

theorem monthValues_pairs (h : Chronological curve) :
    monthValues curve = OrderedDict.collect (curve.map fun e => (e.month, e.worth)) := by
  unfold monthValues
  rw [List.filter_eq_self.mpr fun e he => decide_eq_true (h.dated e he)]

theorem monthValues_get (h : Chronological curve) (month : String) :
    ((monthValues curve).get month).getD [] =
      (curve.filter fun e => decide (e.month = month)).map CurveEntry.worth := by
  rw [monthValues_pairs h, OrderedDict.get_collect, List.filter_map, List.map_map]
  rfl

theorem mem_keys_monthValues (h : Chronological curve) (month : String) :
    month ∈ (monthValues curve).keys ↔ month ∈ curve.map CurveEntry.month := by
  rw [monthValues_pairs h, OrderedDict.mem_keys_collect, List.map_map]
  rfl

theorem periods_months (h : Chronological curve) :
    Periods CurveEntry.month curve ((monthValues curve).keys.insertionSort (· ≤ ·)) :=
  periods_insertionSort (monthValues curve).nodup (mem_keys_monthValues h)

/-- What the loop has after the first months. -/
def afterMonths (curve : List CurveEntry) (done : List String) : List (String × ℚ) × Option ℚ :=
  (done.map fun month => (month, pyRound (monthGrowth curve month - 1) 4),
    done.getLast?.map (closing CurveEntry.month CurveEntry.worth curve))

theorem afterMonths_concat (curve : List CurveEntry) (done : List String) (month : String) :
    afterMonths curve (done ++ [month]) =
      ((afterMonths curve done).1 ++ [(month, pyRound (monthGrowth curve month - 1) 4)],
        some (closing CurveEntry.month CurveEntry.worth curve month)) := by
  unfold afterMonths
  rw [List.map_append, List.getLast?_concat]
  rfl

/-- A month of the loop opens where the one before it closed. -/
theorem monthStart_eq (h : Chronological curve) (hks : Periods CurveEntry.month curve ks)
    {done rest : List String} {month : String} (hsplit : ks = done ++ month :: rest)
    {first : ℚ} {others : List ℚ}
    (hvalues : (curve.filter fun e => decide (e.month = month)).map CurveEntry.worth =
      first :: others) :
    (afterMonths curve done).2.getD first =
      opening CurveEntry.month CurveEntry.worth curve month := by
  unfold afterMonths
  rw [opening_eq_reached hks hsplit]
  induction done using List.reverseRecOn with
  | nil =>
      have hhead := congrArg List.head? hvalues
      rw [hsplit] at hks
      rw [List.head?_map, hks.head?_filter h.sorted,
        ← List.head?_map, List.head?_cons] at hhead
      rw [reached_of_none fun e _ => by simp, hhead]
      rfl
  | append_singleton done last _ =>
      rw [List.append_assoc, List.singleton_append] at hsplit
      rw [List.getLast?_concat, Option.map_some, Option.getD_some,
        closing_eq_reached_prefix hks h.sorted hsplit]

/-- **The loop after the first months.** -/
theorem foldl_monthStep (h : Chronological curve) (hpos : ∀ e ∈ curve, 0 < e.worth)
    (hks : Periods CurveEntry.month curve ks) {done rest : List String}
    (hsplit : ks = done ++ rest) :
    ((done.foldl (monthStep (monthValues curve)) ({}, none)).1.items,
      (done.foldl (monthStep (monthValues curve)) ({}, none)).2) = afterMonths curve done := by
  induction done using List.reverseRecOn generalizing rest with
  | nil => rfl
  | append_singleton done month ih =>
      rw [List.append_assoc, List.singleton_append] at hsplit
      have hstate := ih hsplit
      have hfresh : month ∉ (afterMonths curve done).1.map Prod.fst := by
        have hnodup := hks.nodup
        rw [hsplit, List.nodup_append] at hnodup
        unfold afterMonths
        rw [List.map_map]
        intro hmem
        obtain ⟨m, hm, heq⟩ := List.mem_map.mp hmem
        exact hnodup.2.2 m hm month List.mem_cons_self heq
      have hmonth : month ∈ curve.map CurveEntry.month := by
        rw [← hks.mem_iff, hsplit]
        exact List.mem_append_right _ List.mem_cons_self
      obtain ⟨e, he, hemonth⟩ := List.mem_map.mp hmonth
      have hne : curve ≠ [] := List.ne_nil_of_mem he
      rw [List.foldl_append, List.foldl_cons, List.foldl_nil]
      generalize done.foldl (monthStep (monthValues curve)) ({}, none) = s at hstate ⊢
      rw [monthStep, monthValues_get h]
      cases hvalues : (curve.filter fun e => decide (e.month = month)).map CurveEntry.worth with
      | nil =>
          rw [List.map_eq_nil_iff, List.filter_eq_nil_iff] at hvalues
          exact absurd (decide_eq_true hemonth) (hvalues e he)
      | cons first others =>
          have hopening := monthStart_eq h hks hsplit hvalues
          have hclosing : others.getLastD first =
              closing CurveEntry.month CurveEntry.worth curve month := by
            unfold closing reached
            rw [hvalues, List.getLast?_cons, Option.getD_some, List.getLastD_eq_getLast?]
          have hopen : 0 < opening CurveEntry.month CurveEntry.worth curve month :=
            reached_induction (P := fun v => 0 < v) hpos hne _
          have hchange : (closing CurveEntry.month CurveEntry.worth curve month -
                opening CurveEntry.month CurveEntry.worth curve month) /
              opening CurveEntry.month CurveEntry.worth curve month =
              monthGrowth curve month - 1 := by
            rw [sub_div, div_self hopen.ne']
            rfl
          rw [← hstate] at hopening hfresh
          simp only [hclosing, hopening, if_pos hopen, hchange]
          rw [afterMonths_concat, ← hstate]
          exact Prod.ext (OrderedDict.assignItems_of_not_mem hfresh _) rfl

/-- **The monthly returns**: the growth of each month less one, rounded to four decimals. -/
theorem calculateMonthlyReturns_items (h : Chronological curve)
    (hpos : ∀ e ∈ curve, 0 < e.worth) :
    (calculateMonthlyReturns curve).items =
      ((monthValues curve).keys.insertionSort (· ≤ ·)).map fun month =>
        (month, pyRound (monthGrowth curve month - 1) 4) :=
  congrArg Prod.fst (foldl_monthStep h hpos (periods_months h) (List.append_nil _).symm)

end Months

/-! ## §4 Yearly returns -/

section Years

variable {curve : List CurveEntry} {ks : List String} {year : String}

theorem compoundReturns_eq (rets : List ℚ) :
    compoundReturns rets = (rets.map fun r => 1 + r).prod := by
  rw [List.prod_eq_foldl, List.foldl_map]
  rfl

/-- The months of a year, in whatever order. -/
theorem filter_perm_monthsOf (hks : Periods CurveEntry.month curve ks) (year : String) :
    (ks.filter fun month => decide (firstChars 4 month = year)).Perm (monthsOf curve year) := by
  refine (List.perm_ext_iff_of_nodup (hks.nodup.filter _) (List.nodup_dedup _)).mpr fun month => ?_
  rw [List.mem_filter, hks.mem_iff, List.mem_dedup, decide_eq_true_eq]
  constructor
  · rintro ⟨hmonth, hyear⟩
    obtain ⟨e, he, rfl⟩ := List.mem_map.mp hmonth
    refine List.mem_map_of_mem (List.mem_filter.mpr ⟨he, decide_eq_true ?_⟩)
    rw [← hyear, ← year_eq]
    rfl
  · intro hmonth
    obtain ⟨e, he, rfl⟩ := List.mem_map.mp hmonth
    obtain ⟨hcurve, hyear⟩ := List.mem_filter.mp he
    refine ⟨List.mem_map_of_mem hcurve, ?_⟩
    rw [← of_decide_eq_true hyear, ← year_eq]
    rfl

theorem yearReturns_get (h : Chronological curve) (hpos : ∀ e ∈ curve, 0 < e.worth)
    (year : String) :
    (((yearReturns (calculateMonthlyReturns curve)).get year).getD []).Perm
      ((monthsOf curve year).map fun month => pyRound (monthGrowth curve month - 1) 4) := by
  unfold yearReturns
  rw [calculateMonthlyReturns_items h hpos, List.map_map, OrderedDict.get_collect,
    List.filter_map, List.map_map]
  exact (filter_perm_monthsOf (periods_months h) year).map _

theorem mem_keys_yearReturns (h : Chronological curve) (hpos : ∀ e ∈ curve, 0 < e.worth)
    (year : String) :
    year ∈ (yearReturns (calculateMonthlyReturns curve)).keys ↔
      year ∈ curve.map CurveEntry.year := by
  have hkeys : ((calculateMonthlyReturns curve).items.map fun entry =>
      (firstChars 4 entry.1, entry.2)).map Prod.fst =
      ((monthValues curve).keys.insertionSort (· ≤ ·)).map (firstChars 4) := by
    rw [calculateMonthlyReturns_items h hpos, List.map_map, List.map_map]
    rfl
  unfold yearReturns
  rw [OrderedDict.mem_keys_collect, hkeys, ← year_eq, ← List.map_map, List.mem_map, List.mem_map]
  exact exists_congr fun month => and_congr_left' ((periods_months h).mem_iff month)

theorem periods_years (h : Chronological curve) (hpos : ∀ e ∈ curve, 0 < e.worth) :
    Periods CurveEntry.year curve
      ((yearReturns (calculateMonthlyReturns curve)).keys.insertionSort (· ≤ ·)) :=
  periods_insertionSort (yearReturns (calculateMonthlyReturns curve)).nodup
    (mem_keys_yearReturns h hpos)

/-- The rounded returns of the months of a year compounded. -/
def roundedGrowth (curve : List CurveEntry) (year : String) : ℚ :=
  ((monthsOf curve year).map fun month => 1 + pyRound (monthGrowth curve month - 1) 4).prod

/-- The return of a year: the rounded returns of its months compounded, and rounded. -/
def compounded (curve : List CurveEntry) (year : String) : ℚ :=
  pyRound (roundedGrowth curve year - 1) 4

/-- **The yearly returns**: the rounded returns of the months of each year compounded. -/
theorem calculateYearlyReturns_items (h : Chronological curve)
    (hpos : ∀ e ∈ curve, 0 < e.worth) :
    (calculateYearlyReturns curve).items =
      ((yearReturns (calculateMonthlyReturns curve)).keys.insertionSort (· ≤ ·)).map fun year =>
        (year, compounded curve year) := by
  unfold calculateYearlyReturns
  rw [OrderedDict.items_foldl_keys (periods_years h hpos).nodup fun year =>
    pyRound (compoundReturns
      (((yearReturns (calculateMonthlyReturns curve)).get year).getD []) - 1) 4]
  refine List.map_congr_left fun year _ => ?_
  rw [compoundReturns_eq, ((yearReturns_get h hpos year).map _).prod_eq, List.map_map]
  rfl

/-- The growth of a year is that of its months compounded. -/
theorem prod_monthGrowth (h : Chronological curve) (hpos : ∀ e ∈ curve, 0 < e.worth)
    (hyear : year ∈ curve.map CurveEntry.year) :
    ((monthsOf curve year).map (monthGrowth curve)).prod = yearGrowth curve year := by
  have hks := periods_months h
  have hprod := prod_growth_fine (firstChars_mono 4) hks h.sorted (fun e he => (hpos e he).ne')
    (year_eq.symm ▸ hyear)
  rw [year_eq] at hprod
  rw [← ((filter_perm_monthsOf hks year).map _).prod_eq]
  exact hprod

theorem growth_pos {key : CurveEntry → String} (hpos : ∀ e ∈ curve, 0 < e.worth)
    (hne : curve ≠ []) (k : String) : 0 < growth key CurveEntry.worth curve k :=
  div_pos (reached_induction (P := fun v => 0 < v) hpos hne _)
    (reached_induction (P := fun v => 0 < v) hpos hne _)

/-! ## §5 How far the roundings go -/

/-- Half a unit of the fourth decimal. -/
def halfUnit : ℚ := 1 / 2 / 10 ^ 4

/-- How far the roundings can take a yearly return from the year's growth: half a unit, and
what half a unit of each month adds to the product of the months. -/
def yearDrift (curve : List CurveEntry) (year : String) : ℚ :=
  halfUnit + (((monthsOf curve year).map fun month => monthGrowth curve month + halfUnit).prod -
    yearGrowth curve year)

/-- **A yearly return** is the growth of the year less one, up to the roundings. -/
theorem abs_compounded_sub_le (h : Chronological curve) (hpos : ∀ e ∈ curve, 0 < e.worth)
    (hyear : year ∈ curve.map CurveEntry.year) :
    |compounded curve year - (yearGrowth curve year - 1)| ≤ yearDrift curve year := by
  have hne : curve ≠ [] := by
    rintro rfl
    cases hyear
  have hmonths : |roundedGrowth curve year - yearGrowth curve year| ≤
      ((monthsOf curve year).map fun month => monthGrowth curve month + halfUnit).prod -
        yearGrowth curve year := by
    rw [← prod_monthGrowth h hpos hyear]
    refine abs_prod_sub_prod_le (fun month _ => (growth_pos hpos hne month).le) fun month _ => ?_
    have hround := abs_pyRound_sub_le (monthGrowth curve month - 1) 4
    rwa [show 1 + pyRound (monthGrowth curve month - 1) 4 - monthGrowth curve month =
      pyRound (monthGrowth curve month - 1) 4 - (monthGrowth curve month - 1) by ring]
  have hround := abs_pyRound_sub_le (roundedGrowth curve year - 1) 4
  have hsplit : compounded curve year - (yearGrowth curve year - 1) =
      (pyRound (roundedGrowth curve year - 1) 4 - (roundedGrowth curve year - 1)) +
        (roundedGrowth curve year - yearGrowth curve year) := by
    unfold compounded
    ring
  rw [hsplit]
  exact (abs_add_le _ _).trans (add_le_add hround hmonths)

/-- The roundings of the months add nothing to their year: every month's return has four
decimals, or every month but one is unchanged. -/
def MonthsKeepYear (curve : List CurveEntry) (year : String) : Prop :=
  (∀ month ∈ monthsOf curve year,
      pyRound (monthGrowth curve month - 1) 4 = monthGrowth curve month - 1) ∨
    ∃ month ∈ monthsOf curve year,
      ∀ other ∈ monthsOf curve year, other ≠ month → monthGrowth curve other = 1

/-- Where all factors but one are one, the product is that factor. -/
theorem prod_map_eq_of_others {α : Type} [DecidableEq α] {l : List α} {f : α → ℚ} {a : α}
    (hnodup : l.Nodup) (ha : a ∈ l) (hothers : ∀ b ∈ l, b ≠ a → f b = 1) :
    (l.map f).prod = f a := by
  have hrest : ((l.erase a).map f).prod = 1 := by
    refine List.prod_eq_one fun factor hfactor => ?_
    obtain ⟨b, hb, rfl⟩ := List.mem_map.mp hfactor
    obtain ⟨hne, hmem⟩ := hnodup.mem_erase_iff.mp hb
    exact hothers b hmem hne
  rw [← List.prod_map_erase f ha, hrest, mul_one]

/-- A year whose months add nothing is rounded once. -/
theorem compounded_of_monthsKeepYear (h : Chronological curve) (hpos : ∀ e ∈ curve, 0 < e.worth)
    (hyear : year ∈ curve.map CurveEntry.year) (hkeep : MonthsKeepYear curve year) :
    compounded curve year = pyRound (yearGrowth curve year - 1) 4 := by
  have hgrowth := prod_monthGrowth h hpos hyear
  unfold compounded
  rcases hkeep with hgrid | ⟨month, hmonth, hothers⟩
  · have hrounded : roundedGrowth curve year = yearGrowth curve year := by
      rw [← hgrowth]
      unfold roundedGrowth
      refine congrArg List.prod (List.map_congr_left fun month hmonth => ?_)
      rw [hgrid month hmonth, add_sub_cancel]
    rw [hrounded]
  · have hnodup : (monthsOf curve year).Nodup := List.nodup_dedup _
    have hrounded : roundedGrowth curve year = 1 + pyRound (monthGrowth curve month - 1) 4 := by
      refine prod_map_eq_of_others hnodup hmonth fun other hother hne => ?_
      rw [hothers other hother hne, sub_self, (pyRound_eq_zero_iff 0 4).mpr (by norm_num), add_zero]
    rw [prod_map_eq_of_others hnodup hmonth hothers] at hgrowth
    rw [hrounded, add_sub_cancel_left, hgrowth, pyRound_pyRound]

/-- A year of one month is one whose months add nothing. -/
theorem monthsKeepYear_of_one_month (hone : (monthsOf curve year).length = 1) :
    MonthsKeepYear curve year := by
  obtain ⟨month, hmonths⟩ := List.length_eq_one_iff.mp hone
  refine .inr ⟨month, ?_, fun other hother hne => ?_⟩
  · rw [hmonths]
    exact List.mem_singleton_self month
  · rw [hmonths] at hother
    exact absurd (List.mem_singleton.mp hother) hne

/-- Where the roundings of the months add more than a unit of the fourth decimal, the year is
off by more than its own rounding. -/
theorem not_abs_compounded_sub_le
    (hdrift : 2 * halfUnit < |roundedGrowth curve year - yearGrowth curve year|) :
    ¬ |compounded curve year - (yearGrowth curve year - 1)| ≤ halfUnit := by
  intro hle
  have hround : |compounded curve year - (roundedGrowth curve year - 1)| ≤ halfUnit :=
    abs_pyRound_sub_le (roundedGrowth curve year - 1) 4
  have hsplit : roundedGrowth curve year - yearGrowth curve year =
      (compounded curve year - (yearGrowth curve year - 1)) -
        (compounded curve year - (roundedGrowth curve year - 1)) := by
    ring
  rw [hsplit] at hdrift
  have htriangle := abs_sub (compounded curve year - (yearGrowth curve year - 1))
    (compounded curve year - (roundedGrowth curve year - 1))
  linarith

/-- **The yearly returns of a chronological curve.** Every year of the curve has one, which
compounds the rounded returns of its months, and is the year's last value over the last one of
the year before, less one, up to its own rounding and those of its months. It is so up to its
own rounding alone if the months add nothing (so it is in a year of one month), and it is not if
they add more than a unit of the fourth decimal. The factors of the years multiply up to the
last value of the curve over the first, up to the same. The curve of every run over bars dated
by a chronological index is a chronological one. -/
theorem yearlyReturns_compound (h : Chronological curve) (hpos : ∀ e ∈ curve, 0 < e.worth) :
    (∀ year, year ∈ (calculateYearlyReturns curve).keys ↔ year ∈ curve.map CurveEntry.year) ∧
    (∀ year ret, (calculateYearlyReturns curve).get year = some ret →
      ret = compounded curve year ∧
      |ret - (yearGrowth curve year - 1)| ≤ yearDrift curve year ∧
      ((monthsOf curve year).length = 1 → MonthsKeepYear curve year) ∧
      (MonthsKeepYear curve year → ret = pyRound (yearGrowth curve year - 1) 4) ∧
      (2 * halfUnit < |roundedGrowth curve year - yearGrowth curve year| →
        ¬ |ret - (yearGrowth curve year - 1)| ≤ halfUnit)) ∧
    (∀ first last, curve.head? = some first → curve.getLast? = some last →
      |((calculateYearlyReturns curve).items.map fun entry => 1 + entry.2).prod -
          last.worth / first.worth| ≤
        ((calculateYearlyReturns curve).items.map fun entry =>
          yearGrowth curve entry.1 + yearDrift curve entry.1).prod - last.worth / first.worth) ∧
    ((∀ year ∈ curve.map CurveEntry.year, MonthsKeepYear curve year) →
      ∀ first last, curve.head? = some first → curve.getLast? = some last →
        |((calculateYearlyReturns curve).items.map fun entry => 1 + entry.2).prod -
            last.worth / first.worth| ≤
          ((calculateYearlyReturns curve).items.map fun entry =>
            yearGrowth curve entry.1 + halfUnit).prod - last.worth / first.worth) ∧
    (∀ {σ : Type} (settings : RunSettings σ) (memory : σ) (initialCash : ℚ) (bars : List Bar)
        (books : Books) (index : List Moment),
      runLoop settings memory initialCash bars = .ok books →
      bars.map Bar.date = precomputeDates index → index.Pairwise Moment.Before →
      Chronological (books.state.equityCurve.map entryOfPoint)) := by
  have hitems := calculateYearlyReturns_items h hpos
  have hyears := periods_years h hpos
  generalize (yearReturns (calculateMonthlyReturns curve)).keys.insertionSort (· ≤ ·) = years
    at hitems hyears
  have hproduct : ∀ drift : String → ℚ,
      (∀ year ∈ curve.map CurveEntry.year,
        |compounded curve year - (yearGrowth curve year - 1)| ≤ drift year) →
      ∀ first last, curve.head? = some first → curve.getLast? = some last →
        |((calculateYearlyReturns curve).items.map fun entry => 1 + entry.2).prod -
            last.worth / first.worth| ≤
          ((calculateYearlyReturns curve).items.map fun entry =>
            yearGrowth curve entry.1 + drift entry.1).prod - last.worth / first.worth := by
    intro drift hdrift first last hfirst hlast
    have hne : curve ≠ [] := by
      rintro rfl
      cases hfirst
    have hprod : (years.map (yearGrowth curve)).prod = last.worth / first.worth :=
      prod_growth hyears h.years (fun e he => (hpos e he).ne') hfirst hlast
    rw [hitems, List.map_map, List.map_map, ← hprod]
    refine abs_prod_sub_prod_le (fun year _ => (growth_pos hpos hne year).le) fun year hmem => ?_
    have hbound := hdrift year ((hyears.mem_iff year).mp hmem)
    rwa [show compounded curve year - (yearGrowth curve year - 1) =
      1 + compounded curve year - yearGrowth curve year by ring] at hbound
  refine ⟨fun year => ?_, fun year ret hret => ?_,
    hproduct (yearDrift curve) fun year hyear => abs_compounded_sub_le h hpos hyear,
    fun hkeep => hproduct (fun _ => halfUnit) fun year hyear => ?_,
    fun _ _ _ _ _ _ hrun hdates hindex => runLoop_chronological hrun hdates hindex⟩
  · rw [OrderedDict.keys, hitems, List.map_map, ← hyears.mem_iff]
    exact iff_of_eq (congrArg (year ∈ ·) (List.map_id years))
  · have hmem := OrderedDict.mem_of_get hret
    rw [hitems] at hmem
    obtain ⟨y, hy, heq⟩ := List.mem_map.mp hmem
    obtain ⟨rfl, rfl⟩ := Prod.mk.inj heq
    have hyear := (hyears.mem_iff y).mp hy
    exact ⟨rfl, abs_compounded_sub_le h hpos hyear, monthsKeepYear_of_one_month,
      compounded_of_monthsKeepYear h hpos hyear, not_abs_compounded_sub_le⟩
  · rw [compounded_of_monthsKeepYear h hpos hyear (hkeep year hyear)]
    exact abs_pyRound_sub_le (yearGrowth curve year - 1) 4

end Years

/-! ## §6 Months that round to nothing -/

/-- A curve that gains 4 on 100000 each month. -/
def slowCurve : List CurveEntry :=
  [{ date := some "2024-01-02", value := some 100000 },
    { date := some "2024-01-31", value := some 100004 },
    { date := some "2024-02-29", value := some 100008 },
    { date := some "2024-03-28", value := some 100012 }]

theorem slowCurve_chronological : Chronological slowCurve where
  dated := by decide +kernel
  sorted := by decide +kernel

theorem slowCurve_pos : ∀ e ∈ slowCurve, 0 < e.worth := by decide +kernel

/-- Its return of 2024 is within the roundings of three months and a year. -/
theorem yearlyReturns_compound_slow :
    |0 - (yearGrowth slowCurve "2024" - 1)| ≤ yearDrift slowCurve "2024" :=
  ((yearlyReturns_compound slowCurve_chronological slowCurve_pos).2.1 "2024" 0
    (by decide +kernel)).2.1

/-- **A year is off by more than its own rounding**: each month of the curve is reported as no
change, and so is the year, which gained 0.00012. -/
theorem slow_year_not_growth :
    Chronological slowCurve ∧ (∀ e ∈ slowCurve, 0 < e.worth) ∧
      (calculateYearlyReturns slowCurve).items = [("2024", 0)] ∧
      yearGrowth slowCurve "2024" = 100012 / 100000 ∧
      ¬ |0 - (yearGrowth slowCurve "2024" - 1)| ≤ halfUnit ∧
      ¬ |((calculateYearlyReturns slowCurve).items.map fun entry => 1 + entry.2).prod -
          100012 / 100000| ≤ halfUnit :=
  ⟨slowCurve_chronological, slowCurve_pos, by decide +kernel, by decide +kernel,
    by decide +kernel, by decide +kernel⟩

end Finbar.Backtest
