/-
Finbar.Indicators.TrendStructureTheorems — what the Dow patterns compare.

A swing confirmed at a bar has its pivot `n` bars before (`mem_confirmations`). The
patterns read the prices at the confirming bars. So a pattern is that of the pivot
prices exactly if the two pairs of prices are ordered alike (`patterns_iff`); the two
patterns exclude each other, and negating and swapping the series exchanges them
(`patternOf_mirror`).

No `sorry`, no `axiom`.
-/
import Finbar.Indicators.TrendStructure
import Finbar.Lib.Series
import Mathlib.Data.List.GetD
import Mathlib.Tactic.Linarith

namespace Finbar.Indicators

open Lib

/-! ## §1 Confirmed swings -/

/-- The loop marks the place `n` bars after each pivot that has such a bar. -/
theorem markConfirmed_eq (length n : ℕ) (pivot : ℕ → Bool) :
    markConfirmed length n pivot
      = (List.range' n (length - n - n)).foldl
        (fun result i => if pivot i && decide (i + n < length) then result.set (i + n) true
          else result) (List.replicate length false) := by
  unfold markConfirmed
  congr
  funext result i
  cases pivot i with
  | false => rfl
  | true => simp

/-- A bar is marked exactly if the bar `n` before it is a pivot with `n` bars on each
side. -/
theorem markConfirmed_getD (length n : ℕ) (pivot : ℕ → Bool) (c : ℕ) :
    (markConfirmed length n pivot).getD c false = true ↔
      2 * n ≤ c ∧ c < length ∧ pivot (c - n) = true := by
  rw [List.getD_eq_getElem?_getD, markConfirmed_eq,
    Series.foldl_mark_getElem? (fun i => i + n), List.getElem?_replicate]
  by_cases hc : c < length
  · rw [if_pos hc, Option.map_some, Option.getD_some, Bool.false_or]
    simp only [List.any_eq_true, List.mem_range'_1, Bool.and_eq_true, decide_eq_true_eq]
    constructor
    · rintro ⟨i, hi, ⟨hpivot, -⟩, rfl⟩
      rw [Nat.add_sub_cancel]
      exact ⟨by omega, hc, hpivot⟩
    · rintro ⟨hlow, -, hpivot⟩
      exact ⟨c - n, by omega, ⟨hpivot, by omega⟩, by omega⟩
  · rw [if_neg hc]
    refine iff_of_false ?_ fun h => hc h.2.1
    simp

theorem length_markConfirmed (length n : ℕ) (pivot : ℕ → Bool) :
    (markConfirmed length n pivot).length = length := by
  rw [markConfirmed_eq, Series.length_foldl_mark (fun i => i + n), List.length_replicate]

/-! ## §2 The window of a bar -/

/-- The bars of the window that confirm a swing. -/
def confirmations (swings : List Bool) (lookback i : ℕ) : List ℕ :=
  (List.range' (i - lookback) (i + 1 - (i - lookback))).filter fun c => swings.getD c false

/-- The recent prices are those at the confirming bars. -/
theorem recentPrices_eq {prices : List ℚ} {swings : List Bool} (lookback : ℕ) {i : ℕ}
    (hprices : i < prices.length) (hswings : swings.length = prices.length) :
    recentPrices prices swings lookback i =
      (confirmations swings lookback i).map fun c => prices.getD c 0 := by
  have hrows : ((prices.zip swings).take (i + 1)).drop (i - lookback) =
      (List.range' (i - lookback) (i + 1 - (i - lookback))).map fun c =>
        (prices.getD c 0, swings.getD c false) := by
    refine List.ext_getElem ?_ fun k hk hk' => ?_
    · rw [List.length_drop, List.length_take, List.length_zip, List.length_map,
        List.length_range']
      omega
    · rw [List.length_map, List.length_range'] at hk'
      rw [List.getElem_drop, List.getElem_take, List.getElem_zip, List.getElem_map,
        List.getElem_range', Nat.one_mul, List.getD_eq_getElem _ _ (by omega),
        List.getD_eq_getElem _ _ (by omega)]
  unfold recentPrices confirmations
  rw [hrows, List.filterMap_map]
  induction List.range' (i - lookback) (i + 1 - (i - lookback)) with
  | nil => rfl
  | cons c rest ih =>
      by_cases hc : swings.getD c false = true
      · have hcell : ((fun row : ℚ × Bool => if row.2 then some row.1 else none) ∘
            fun c => (prices.getD c 0, swings.getD c false)) c = some (prices.getD c 0) := if_pos hc
        have hkept : (c :: rest).filter (fun c => swings.getD c false) =
            c :: rest.filter fun c => swings.getD c false := List.filter_cons_of_pos hc
        rw [List.filterMap_cons_some hcell, hkept, List.map_cons, ih]
      · have hcell : ((fun row : ℚ × Bool => if row.2 then some row.1 else none) ∘
            fun c => (prices.getD c 0, swings.getD c false)) c = none := if_neg hc
        have hdropped : (c :: rest).filter (fun c => swings.getD c false) =
            rest.filter fun c => swings.getD c false := List.filter_cons_of_neg hc
        rw [List.filterMap_cons_none hcell, hdropped, ih]

theorem latestTwo_map {α β : Type} (f : α → β) (xs : List α) :
    latestTwo (xs.map f) = (latestTwo xs).map (Prod.map f f) := by
  unfold latestTwo
  rw [← List.map_reverse]
  cases xs.reverse with
  | nil => rfl
  | cons latest rest => cases rest <;> rfl

/-! ## §3 Patterns -/

/-- Highs and lows, bar by bar. -/
abbrev PriceRows := List (ℚ × ℚ)

/-- The bar's high. -/
def highAt (bars : PriceRows) (c : ℕ) : ℚ := (bars.map Prod.fst).getD c 0

/-- The bar's low. -/
def lowAt (bars : PriceRows) (c : ℕ) : ℚ := (bars.map Prod.snd).getD c 0

/-- The bars that confirm a swing high in the window that ends at a bar. -/
def confirmedHighs (bars : PriceRows) (lookback i : ℕ) : List ℕ :=
  confirmations (swingHighN (bars.map Prod.fst) (swingWindow lookback)) lookback i

/-- The bars that confirm a swing low there. -/
def confirmedLows (bars : PriceRows) (lookback i : ℕ) : List ℕ :=
  confirmations (swingLowN (bars.map Prod.snd) (swingWindow lookback)) lookback i

/-- **Swings of a window**: confirmed `n` bars after a price that exceeds all `n` prices on each
side. -/
theorem mem_confirmations (exceeds : ℚ → List ℚ → Bool) (prices : List ℚ) (n lookback : ℕ) {i : ℕ}
    (hi : i < prices.length) (c : ℕ) :
    c ∈ confirmations (markConfirmed prices.length n (isPivot exceeds prices n)) lookback i ↔
      i - lookback ≤ c ∧ c ≤ i ∧ 2 * n ≤ c ∧ isPivot exceeds prices n (c - n) = true := by
  unfold confirmations
  rw [List.mem_filter, List.mem_range'_1, markConfirmed_getD]
  constructor
  · rintro ⟨hwindow, hlow, hc, hpivot⟩
    exact ⟨hwindow.1, by omega, hlow, hpivot⟩
  · rintro ⟨hstart, hle, hlow, hpivot⟩
    exact ⟨⟨hstart, by omega⟩, hlow, by omega, hpivot⟩

/-- The window is complete and confirms two swings on both sides, and the latest of them
advance on the ones before, in the prices `back` bars before those that confirm. -/
def Advances (advances : ℚ → ℚ → Prop) (back : ℕ) (bars : PriceRows) (lookback i : ℕ) : Prop :=
  lookback ≤ i ∧ ∃ h h' l l',
    latestTwo (confirmedHighs bars lookback i) = some (h, h') ∧
    latestTwo (confirmedLows bars lookback i) = some (l, l') ∧
    advances (highAt bars (h - back)) (highAt bars (h' - back)) ∧
    advances (lowAt bars (l - back)) (lowAt bars (l' - back))

/-- Higher highs and higher lows, in the prices of the pivots. -/
def HigherSwings (bars : PriceRows) (lookback i : ℕ) : Prop :=
  Advances (fun latest prior => prior < latest) (swingWindow lookback) bars lookback i

/-- Lower highs and lower lows. -/
def LowerSwings (bars : PriceRows) (lookback i : ℕ) : Prop :=
  Advances (fun latest prior => latest < prior) (swingWindow lookback) bars lookback i

theorem recentPrices_highs (bars : PriceRows) (lookback : ℕ) {i : ℕ} (hi : i < bars.length) :
    recentPrices (bars.map Prod.fst) (swingHighN (bars.map Prod.fst) (swingWindow lookback))
        lookback i =
      (confirmedHighs bars lookback i).map (highAt bars) :=
  recentPrices_eq lookback (by rwa [List.length_map]) (length_markConfirmed _ _ _)

theorem recentPrices_lows (bars : PriceRows) (lookback : ℕ) {i : ℕ} (hi : i < bars.length) :
    recentPrices (bars.map Prod.snd) (swingLowN (bars.map Prod.snd) (swingWindow lookback))
        lookback i =
      (confirmedLows bars lookback i).map (lowAt bars) :=
  recentPrices_eq lookback (by rwa [List.length_map]) (length_markConfirmed _ _ _)

/-- **The loop compares the prices of the bars that confirm.** -/
theorem patternOf_iff (advances : ℚ → ℚ → Bool) (bars : PriceRows) (lookback : ℕ) {i : ℕ}
    (hi : i < bars.length) :
    (patternOf advances (bars.map Prod.fst) (bars.map Prod.snd) lookback).getD i false = true ↔
      Advances (fun latest prior => advances latest prior = true) 0 bars lookback i := by
  have hlength : i < ((List.range (bars.map Prod.fst).length).map fun i =>
      decide (lookback ≤ i) &&
        patternAt advances (bars.map Prod.fst) (bars.map Prod.snd) lookback i).length := by
    rwa [List.length_map, List.length_range, List.length_map]
  unfold patternOf
  rw [List.getD_eq_getElem _ _ hlength, List.getElem_map, List.getElem_range, Bool.and_eq_true,
    decide_eq_true_iff]
  unfold Advances
  refine and_congr_right fun _ => ?_
  unfold patternAt
  simp only [recentPrices_highs bars lookback hi, recentPrices_lows bars lookback hi,
    latestTwo_map, Nat.sub_zero]
  cases latestTwo (confirmedHighs bars lookback i) with
  | none => simp
  | some highs =>
      cases latestTwo (confirmedLows bars lookback i) with
      | none => simp
      | some lows =>
          obtain ⟨h, h'⟩ := highs
          obtain ⟨l, l'⟩ := lows
          simp only [Option.map_some, Prod.map_apply, Bool.and_eq_true, Option.some_inj,
            Prod.mk.injEq]
          constructor
          · rintro ⟨hhigh, hlow⟩
            exact ⟨h, h', l, l', ⟨rfl, rfl⟩, ⟨rfl, rfl⟩, hhigh, hlow⟩
          · rintro ⟨_, _, _, _, ⟨rfl, rfl⟩, ⟨rfl, rfl⟩, hhigh, hlow⟩
            exact ⟨hhigh, hlow⟩

/-- The prices at the bars that confirm the latest two swings are ordered as those of
their pivots. -/
def PricesAgree (bars : PriceRows) (lookback i : ℕ) : Prop :=
  let n := swingWindow lookback
  lookback ≤ i → ∀ h h' l l',
    latestTwo (confirmedHighs bars lookback i) = some (h, h') →
    latestTwo (confirmedLows bars lookback i) = some (l, l') →
    ((highAt bars h' < highAt bars h ∧ lowAt bars l' < lowAt bars l) ↔
      (highAt bars (h' - n) < highAt bars (h - n) ∧ lowAt bars (l' - n) < lowAt bars (l - n))) ∧
    ((highAt bars h < highAt bars h' ∧ lowAt bars l < lowAt bars l') ↔
      (highAt bars (h - n) < highAt bars (h' - n) ∧ lowAt bars (l - n) < lowAt bars (l' - n)))

/-- Two ways of reading the prices back give the same pattern exactly if they order the
latest two swings alike. -/
theorem advances_iff (advances : ℚ → ℚ → Prop) (bars : PriceRows) (lookback i back : ℕ) :
    (Advances advances 0 bars lookback i ↔ Advances advances back bars lookback i) ↔
      (lookback ≤ i → ∀ h h' l l',
        latestTwo (confirmedHighs bars lookback i) = some (h, h') →
        latestTwo (confirmedLows bars lookback i) = some (l, l') →
        ((advances (highAt bars h) (highAt bars h') ∧ advances (lowAt bars l) (lowAt bars l')) ↔
          (advances (highAt bars (h - back)) (highAt bars (h' - back)) ∧
            advances (lowAt bars (l - back)) (lowAt bars (l' - back))))) := by
  unfold Advances
  constructor
  · intro hiff hlookback h h' l l' hhighs hlows
    constructor
    · rintro hprices
      obtain ⟨-, g, g', k, k', hg, hk, hpivots⟩ :=
        hiff.mp ⟨hlookback, h, h', l, l', hhighs, hlows, hprices⟩
      rw [hhighs] at hg
      rw [hlows] at hk
      cases hg
      cases hk
      exact hpivots
    · rintro hpivots
      obtain ⟨-, g, g', k, k', hg, hk, hprices⟩ :=
        hiff.mpr ⟨hlookback, h, h', l, l', hhighs, hlows, hpivots⟩
      rw [hhighs] at hg
      rw [hlows] at hk
      cases hg
      cases hk
      exact hprices
  · intro hagree
    constructor
    · rintro ⟨hlookback, h, h', l, l', hhighs, hlows, hprices⟩
      exact ⟨hlookback, h, h', l, l', hhighs, hlows,
        (hagree hlookback h h' l l' hhighs hlows).mp hprices⟩
    · rintro ⟨hlookback, h, h', l, l', hhighs, hlows, hpivots⟩
      exact ⟨hlookback, h, h', l, l', hhighs, hlows,
        (hagree hlookback h h' l l' hhighs hlows).mpr hpivots⟩

/-! ## §4 Negating and swapping -/

/-- The series with `high' = -low` and `low' = -high`. -/
def mirror (bars : PriceRows) : PriceRows :=
  bars.map fun bar => (-bar.2, -bar.1)

theorem slice_map_neg (prices : List ℚ) (start stop : ℕ) :
    slice (prices.map fun p => -p) start stop = (slice prices start stop).map fun p => -p := by
  unfold slice
  rw [List.map_drop, List.map_take]

theorem getD_map_neg (prices : List ℚ) (i : ℕ) :
    (prices.map fun p => -p).getD i 0 = -prices.getD i 0 := by
  rw [List.getD_eq_getElem?_getD, List.getD_eq_getElem?_getD, List.getElem?_map]
  cases prices[i]? <;> simp

theorem aboveAll_neg (val : ℚ) (side : List ℚ) :
    aboveAll (-val) (side.map fun p => -p) = belowAll val side := by
  unfold aboveAll belowAll
  rw [List.all_map, List.isEmpty_map]
  congr 2
  funext price
  simp only [Function.comp_apply, neg_lt_neg_iff]

theorem belowAll_neg (val : ℚ) (side : List ℚ) :
    belowAll (-val) (side.map fun p => -p) = aboveAll val side := by
  unfold aboveAll belowAll
  rw [List.all_map, List.isEmpty_map]
  congr 2
  funext price
  simp only [Function.comp_apply, neg_lt_neg_iff]

theorem swingHighN_neg (prices : List ℚ) (n : ℕ) :
    swingHighN (prices.map fun p => -p) n = swingLowN prices n := by
  unfold swingHighN swingLowN
  rw [List.length_map]
  congr 1
  funext i
  unfold isPivot
  rw [getD_map_neg, slice_map_neg, slice_map_neg, aboveAll_neg, aboveAll_neg]

theorem swingLowN_neg (prices : List ℚ) (n : ℕ) :
    swingLowN (prices.map fun p => -p) n = swingHighN prices n := by
  unfold swingHighN swingLowN
  rw [List.length_map]
  congr 1
  funext i
  unfold isPivot
  rw [getD_map_neg, slice_map_neg, slice_map_neg, belowAll_neg, belowAll_neg]

theorem recentPrices_neg (prices : List ℚ) (swings : List Bool) (lookback i : ℕ) :
    recentPrices (prices.map fun p => -p) swings lookback i =
      (recentPrices prices swings lookback i).map fun p => -p := by
  unfold recentPrices
  rw [List.zip_map_left, ← List.map_take, ← List.map_drop, List.filterMap_map,
    List.map_filterMap]
  congr 1
  funext row
  obtain ⟨price, swing⟩ := row
  cases swing <;> rfl

/-- **A pattern of the mirrored series is the mirrored pattern**: its comparison with the
signs changed, highs and lows swapped. -/
theorem patternOf_mirror {advances mirrored : ℚ → ℚ → Bool}
    (h : ∀ a b, mirrored (-a) (-b) = advances a b) (bars : PriceRows) (lookback : ℕ) :
    patternOf mirrored ((mirror bars).map Prod.fst) ((mirror bars).map Prod.snd) lookback =
      patternOf advances (bars.map Prod.fst) (bars.map Prod.snd) lookback := by
  have hfst : (mirror bars).map Prod.fst = (bars.map Prod.snd).map fun p => -p := by
    unfold mirror
    rw [List.map_map, List.map_map]
    rfl
  have hsnd : (mirror bars).map Prod.snd = (bars.map Prod.fst).map fun p => -p := by
    unfold mirror
    rw [List.map_map, List.map_map]
    rfl
  unfold patternOf
  rw [hfst, hsnd, List.length_map, List.length_map, List.length_map]
  refine List.map_congr_left fun i _ => ?_
  congr 1
  unfold patternAt
  rw [swingHighN_neg, swingLowN_neg]
  simp only [recentPrices_neg, latestTwo_map]
  cases latestTwo (recentPrices (bars.map Prod.fst)
      (swingHighN (bars.map Prod.fst) (swingWindow lookback)) lookback i) with
  | none =>
      cases latestTwo (recentPrices (bars.map Prod.snd)
        (swingLowN (bars.map Prod.snd) (swingWindow lookback)) lookback i) <;> rfl
  | some highs =>
      cases latestTwo (recentPrices (bars.map Prod.snd)
          (swingLowN (bars.map Prod.snd) (swingWindow lookback)) lookback i) with
      | none => rfl
      | some lows =>
          obtain ⟨latestHigh, priorHigh⟩ := highs
          obtain ⟨latestLow, priorLow⟩ := lows
          simp only [Option.map_some, Prod.map_apply]
          rw [h, h, Bool.and_comm]

/-! ## §5 Both patterns -/

/-- **The patterns are those of the pivot prices exactly if the confirming bars order the
latest two swings alike.** The swings are the pivots confirmed in the window; the patterns
are never true together, and negating and swapping the series exchanges them. -/
theorem patterns_iff (bars : PriceRows) (lookback : ℕ) {i : ℕ} (hi : i < bars.length) :
    let hhHl := fun bars : PriceRows => hhHlPattern (bars.map Prod.fst) (bars.map Prod.snd) lookback
    let lhLl := fun bars : PriceRows => lhLlPattern (bars.map Prod.fst) (bars.map Prod.snd) lookback
    (((hhHl bars).getD i false = true ↔ HigherSwings bars lookback i) ∧
        ((lhLl bars).getD i false = true ↔ LowerSwings bars lookback i) ↔
      PricesAgree bars lookback i) ∧
    (∀ c, c ∈ confirmedHighs bars lookback i ↔
      i - lookback ≤ c ∧ c ≤ i ∧ 2 * swingWindow lookback ≤ c ∧
        isPivot aboveAll (bars.map Prod.fst) (swingWindow lookback)
          (c - swingWindow lookback) = true) ∧
    (∀ c, c ∈ confirmedLows bars lookback i ↔
      i - lookback ≤ c ∧ c ≤ i ∧ 2 * swingWindow lookback ≤ c ∧
        isPivot belowAll (bars.map Prod.snd) (swingWindow lookback)
          (c - swingWindow lookback) = true) ∧
    ¬ ((hhHl bars).getD i false = true ∧ (lhLl bars).getD i false = true) ∧
    hhHl (mirror bars) = lhLl bars ∧ lhLl (mirror bars) = hhHl bars := by
  intro hhHl lhLl
  have hhigher : (hhHl bars).getD i false = true ↔
      Advances (fun latest prior => prior < latest) 0 bars lookback i := by
    refine (patternOf_iff _ bars lookback hi).trans ?_
    simp only [decide_eq_true_iff]
  have hlower : (lhLl bars).getD i false = true ↔
      Advances (fun latest prior => latest < prior) 0 bars lookback i := by
    refine (patternOf_iff _ bars lookback hi).trans ?_
    simp only [decide_eq_true_iff]
  refine ⟨?_, mem_confirmations aboveAll _ _ lookback (by rwa [List.length_map]),
    mem_confirmations belowAll _ _ lookback (by rwa [List.length_map]), ?_, ?_, ?_⟩
  · rw [hhigher, hlower]
    unfold HigherSwings LowerSwings
    rw [advances_iff, advances_iff]
    constructor
    · rintro ⟨hup, hdown⟩ hlookback h h' l l' hhighs hlows
      exact ⟨hup hlookback h h' l l' hhighs hlows, hdown hlookback h h' l l' hhighs hlows⟩
    · intro h
      exact ⟨fun hlookback g g' k k' hg hk => (h hlookback g g' k k' hg hk).1,
        fun hlookback g g' k k' hg hk => (h hlookback g g' k k' hg hk).2⟩
  · rw [hhigher, hlower]
    rintro ⟨⟨-, h, h', l, l', hhighs, -, hup, -⟩, -, g, g', k, k', hg, -, hdown, -⟩
    rw [hhighs] at hg
    cases hg
    exact lt_asymm hup hdown
  · refine patternOf_mirror (fun a b => ?_) bars lookback
    simp only [neg_lt_neg_iff]
  · refine patternOf_mirror (fun a b => ?_) bars lookback
    simp only [neg_lt_neg_iff]

/-- Fifteen bars with rising pivots: highs 10 and 12 at bars 4 and 10, lows 1 and 2 at bars
7 and 11. They are confirmed at bars 7 and 13, 10 and 14, with the highs `first` and
`second` and the lows 3 and `last`. -/
def risingPivots (first second last : ℚ) : PriceRows :=
  [(5, 3), (5, 3), (5, 3), (5, 3), (10, 3), (5, 3), (5, 3), (first, 1), (5, 3), (5, 3), (12, 3),
    (5, 2), (5, 3), (second, 3), (5, last)]

/-- Where the confirming bars rise as well, only the first pattern shows. -/
theorem patterns_rising :
    (hhHlPattern ((risingPivots 6 7 4).map Prod.fst) ((risingPivots 6 7 4).map Prod.snd)
        12).getD 14 false = true ∧
      ¬ (lhLlPattern ((risingPivots 6 7 4).map Prod.fst) ((risingPivots 6 7 4).map Prod.snd)
        12).getD 14 false = true := by
  have hhigher : (hhHlPattern ((risingPivots 6 7 4).map Prod.fst)
      ((risingPivots 6 7 4).map Prod.snd) 12).getD 14 false = true := by decide +kernel
  exact ⟨hhigher, fun hlower =>
    (patterns_iff (risingPivots 6 7 4) 12 (i := 14) (by decide)).2.2.2.1 ⟨hhigher, hlower⟩⟩

/-- **Where they fall, the pivots rise and the code reports lower highs and lows.** -/
theorem patterns_not_pivots :
    HigherSwings (risingPivots 6 4 (5 / 2)) 12 14 ∧
      (hhHlPattern ((risingPivots 6 4 (5 / 2)).map Prod.fst)
        ((risingPivots 6 4 (5 / 2)).map Prod.snd) 12).getD 14 false = false ∧
      (lhLlPattern ((risingPivots 6 4 (5 / 2)).map Prod.fst)
        ((risingPivots 6 4 (5 / 2)).map Prod.snd) 12).getD 14 false = true := by
  refine ⟨⟨by decide, 13, 7, 14, 10, ?_, ?_, ?_, ?_⟩, ?_, ?_⟩
  all_goals decide +kernel

end Finbar.Indicators
