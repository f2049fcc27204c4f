/-
Finbar.Indicators.StructureBreakTheorems — when `bos` and `choch` fire.

The swing in force in a row is the latest one whose window is complete by then
(`LatestSwing`); its row does not decrease (`latestSwing_mono`), so that one remembered
swing is enough for the loop. `bos` fires in the first row above the swing high in
force, `choch` in the first row below the swing low in force once there are two swing
highs, and neither fires twice for a swing (`structure_breaks`).

No `sorry`, no `axiom`.
-/
import Finbar.Indicators.SmcPriceAction
import Finbar.Indicators.TrendStructureTheorems

namespace Finbar.Indicators

open Lib Lib.Latch

/-! ## §1 Pivots -/

/-- The swing at row `s` stands out from the `window` rows on each side of it. -/
def StandsOut (beats : ℚ → ℚ → Prop) (prices : List ℚ) (window s : ℕ) : Prop :=
  0 < window ∧ ∀ j, s - window ≤ j → j ≤ s + window → j ≠ s →
    beats (prices.getD s 0) (prices.getD j 0)

theorem mem_slice {prices : List ℚ} {start stop : ℕ} (hstop : stop ≤ prices.length) {price : ℚ} :
    price ∈ slice prices start stop ↔ ∃ j, start ≤ j ∧ j < stop ∧ prices.getD j 0 = price := by
  unfold slice
  rw [List.mem_iff_getElem?]
  constructor
  · rintro ⟨k, hk⟩
    rw [List.getElem?_drop, List.getElem?_take] at hk
    split at hk
    · rename_i hlt
      refine ⟨start + k, Nat.le_add_right _ _, hlt, ?_⟩
      rw [List.getD_eq_getElem?_getD, hk, Option.getD_some]
    · cases hk
  · rintro ⟨j, hstart, hj, rfl⟩
    refine ⟨j - start, ?_⟩
    rw [List.getElem?_drop, List.getElem?_take, if_pos (by omega),
      show start + (j - start) = j by omega, List.getElem?_eq_getElem (by omega),
      List.getD_eq_getElem _ _ (by omega)]

theorem slice_ne_nil {prices : List ℚ} {start stop : ℕ} (hstop : stop ≤ prices.length) :
    slice prices start stop ≠ [] ↔ start < stop := by
  rw [← List.length_pos_iff, slice, List.length_drop, List.length_take, Nat.min_eq_left hstop]
  omega

/-- A pivot stands out, as long as its window lies within the frame. -/
theorem isPivot_iff {exceeds : ℚ → List ℚ → Bool} {beats : ℚ → ℚ → Prop}
    (hexceeds : ∀ val side, exceeds val side = true ↔ side ≠ [] ∧ ∀ price ∈ side, beats val price)
    {prices : List ℚ} {window s : ℕ} (hs : window ≤ s) (hlast : s + window < prices.length) :
    isPivot exceeds prices window s = true ↔ StandsOut beats prices window s := by
  unfold isPivot StandsOut
  rw [Bool.and_eq_true, hexceeds, hexceeds, slice_ne_nil (by omega), slice_ne_nil (by omega)]
  simp only [mem_slice (show s ≤ prices.length by omega),
    mem_slice (show s + window + 1 ≤ prices.length by omega)]
  constructor
  · rintro ⟨⟨hwindow, hleft⟩, -, hright⟩
    refine ⟨by omega, fun j hlow hhigh hne => ?_⟩
    rcases Nat.lt_or_gt_of_ne hne with hlt | hgt
    · exact hleft _ ⟨j, hlow, hlt, rfl⟩
    · exact hright _ ⟨j, hgt, by omega, rfl⟩
  · rintro ⟨hwindow, hall⟩
    refine ⟨⟨by omega, ?_⟩, by omega, ?_⟩
    · rintro price ⟨j, hlow, hlt, rfl⟩
      exact hall j hlow (by omega) (by omega)
    · rintro price ⟨j, hlow, hlt, rfl⟩
      exact hall j (by omega) (by omega) (by omega)

theorem aboveAll_iff (val : ℚ) (side : List ℚ) :
    aboveAll val side = true ↔ side ≠ [] ∧ ∀ price ∈ side, price < val := by
  simp [aboveAll]

theorem belowAll_iff (val : ℚ) (side : List ℚ) :
    belowAll val side = true ↔ side ≠ [] ∧ ∀ price ∈ side, val < price := by
  simp [belowAll]

/-! ## §2 The swings that are confirmed -/

/-- The rows of the loop that are confirmed by a row. -/
theorem filter_range'_confirmed (window passes i : ℕ) :
    (List.range' window passes).filter (fun s => decide (s + window ≤ i)) =
      List.range' window (min passes (i + 1 - window - window)) := by
  induction passes with
  | zero => rw [Nat.zero_min, List.range'_zero, List.filter_nil]
  | succ passes ih =>
      rw [List.range'_1_concat, List.filter_append, ih]
      by_cases hlast : window + passes + window ≤ i
      · rw [List.filter_cons_of_pos (by simpa using hlast), List.filter_nil,
          Nat.min_eq_left (by omega), Nat.min_eq_left (by omega), List.range'_1_concat]
      · rw [List.filter_cons_of_neg (by simpa using hlast), List.filter_nil, List.append_nil,
          Nat.min_eq_right (by omega), Nat.min_eq_right (by omega)]

/-- The loop collects the pivots of either kind. -/
theorem findSwings_eq (high low : List ℚ) (window : ℕ) :
    findSwings high low window =
      ((List.range' window (min high.length low.length - window - window)).filter
          (isPivot aboveAll high window),
        (List.range' window (min high.length low.length - window - window)).filter
          (isPivot belowAll low window)) := by
  unfold findSwings
  dsimp only
  generalize min high.length low.length - window - window = passes
  induction passes with
  | zero => rfl
  | succ passes ih =>
      rw [List.range'_1_concat, List.foldl_append, ih, List.filter_append, List.filter_append,
        List.foldl_cons, List.foldl_nil]
      refine Prod.ext ?_ ?_
      · cases hhigh : isPivot aboveAll high window (window + passes) <;> simp [hhigh]
      · cases hlow : isPivot belowAll low window (window + passes) <;> simp [hlow]

/-- The pivots whose window is complete by a row. -/
def confirmedPivots (exceeds : ℚ → List ℚ → Bool) (prices : List ℚ) (window i : ℕ) : List ℕ :=
  (List.range' window (i + 1 - window - window)).filter (isPivot exceeds prices window)

theorem mem_confirmedPivots {exceeds : ℚ → List ℚ → Bool} {prices : List ℚ} {window i s : ℕ} :
    s ∈ confirmedPivots exceeds prices window i ↔
      window ≤ s ∧ s + window ≤ i ∧ isPivot exceeds prices window s = true := by
  unfold confirmedPivots
  rw [List.mem_filter, List.mem_range'_1]
  constructor
  · rintro ⟨hs, hpivot⟩
    exact ⟨hs.1, by omega, hpivot⟩
  · rintro ⟨hs, hi, hpivot⟩
    exact ⟨⟨hs, by omega⟩, hpivot⟩

/-- The swings that the loop of `bos` sees in a row. -/
theorem confirmedBy_filter (exceeds : ℚ → List ℚ → Bool) (prices : List ℚ) {n window i : ℕ}
    (hi : i < n) :
    confirmedBy ((List.range' window (n - window - window)).filter
        (isPivot exceeds prices window)) window i =
      confirmedPivots exceeds prices window i := by
  unfold confirmedBy confirmedPivots
  rw [List.filter_comm, filter_range'_confirmed, Nat.min_eq_right (by omega)]

/-- The rows of confirmed pivots increase. -/
theorem pairwise_confirmedPivots (exceeds : ℚ → List ℚ → Bool) (prices : List ℚ)
    (window i : ℕ) : (confirmedPivots exceeds prices window i).Pairwise (· < ·) :=
  List.Pairwise.filter _ List.pairwise_lt_range'

/-! ## §3 The swing in force -/

/-- The latest pivot whose window is complete by row `i`. -/
structure LatestSwing (beats : ℚ → ℚ → Prop) (prices : List ℚ) (window i s : ℕ) : Prop where
  left : window ≤ s
  confirmed : s + window ≤ i
  standsOut : StandsOut beats prices window s
  latest : ∀ t, window ≤ t → t + window ≤ i → StandsOut beats prices window t → t ≤ s

/-- The last of an increasing list is its greatest. -/
theorem getLast?_eq_some_iff_max {xs : List ℕ} (h : xs.Pairwise (· < ·)) (s : ℕ) :
    xs.getLast? = some s ↔ s ∈ xs ∧ ∀ t ∈ xs, t ≤ s := by
  constructor
  · intro hlast
    obtain ⟨init, rfl⟩ := List.getLast?_eq_some_iff.mp hlast
    refine ⟨by simp, fun t ht => ?_⟩
    rcases List.mem_append.mp ht with hinit | hself
    · exact ((List.pairwise_append.mp h).2.2 t hinit s List.mem_cons_self).le
    · exact (List.mem_singleton.mp hself).le
  · rintro ⟨hmem, hmax⟩
    obtain ⟨last, hlast⟩ : ∃ last, xs.getLast? = some last :=
      ⟨_, List.getLast?_eq_some_getLast (List.ne_nil_of_mem hmem)⟩
    obtain ⟨init, rfl⟩ := List.getLast?_eq_some_iff.mp hlast
    rw [hlast]
    refine congrArg some (Nat.le_antisymm (hmax last (by simp)) ?_)
    rcases List.mem_append.mp hmem with hinit | hself
    · exact ((List.pairwise_append.mp h).2.2 s hinit last List.mem_cons_self).le
    · exact (List.mem_singleton.mp hself).le

/-- The last confirmed pivot is the swing in force. -/
theorem getLast?_confirmedPivots {exceeds : ℚ → List ℚ → Bool} {beats : ℚ → ℚ → Prop}
    (hexceeds : ∀ val side, exceeds val side = true ↔ side ≠ [] ∧ ∀ price ∈ side, beats val price)
    {prices : List ℚ} {window i : ℕ} (hi : i < prices.length) (s : ℕ) :
    (confirmedPivots exceeds prices window i).getLast? = some s ↔
      LatestSwing beats prices window i s := by
  have hmem : ∀ t, t ∈ confirmedPivots exceeds prices window i ↔
      window ≤ t ∧ t + window ≤ i ∧ StandsOut beats prices window t := by
    intro t
    rw [mem_confirmedPivots]
    exact and_congr_right fun hleft => and_congr_right fun hconfirmed =>
      isPivot_iff hexceeds hleft (by omega)
  rw [getLast?_eq_some_iff_max (pairwise_confirmedPivots exceeds prices window i), hmem]
  simp only [hmem]
  constructor
  · rintro ⟨⟨hleft, hconfirmed, hout⟩, hmax⟩
    exact ⟨hleft, hconfirmed, hout, fun t h1 h2 h3 => hmax t ⟨h1, h2, h3⟩⟩
  · rintro ⟨hleft, hconfirmed, hout, hmax⟩
    exact ⟨⟨hleft, hconfirmed, hout⟩, fun t ht => hmax t ht.1 ht.2.1 ht.2.2⟩

/-- A swing in force is confirmed two windows after the start at the earliest. -/
theorem LatestSwing.start_le {beats : ℚ → ℚ → Prop} {prices : List ℚ} {window i s : ℕ}
    (h : LatestSwing beats prices window i s) : window * 2 ≤ i := by
  have := h.left
  have := h.confirmed
  omega

/-- One swing is in force at a time. -/
theorem LatestSwing.unique {beats : ℚ → ℚ → Prop} {prices : List ℚ} {window i s t : ℕ}
    (hs : LatestSwing beats prices window i s) (ht : LatestSwing beats prices window i t) : s = t :=
  Nat.le_antisymm (ht.latest s hs.left hs.confirmed hs.standsOut)
    (hs.latest t ht.left ht.confirmed ht.standsOut)

/-- The last swing that a row sees does not go back. -/
theorem last_confirmedBy_mono {swings : List ℕ} (hswings : swings.Pairwise (· < ·))
    {window i j s t : ℕ} (hij : i ≤ j) (hs : (confirmedBy swings window i).getLast? = some s)
    (ht : (confirmedBy swings window j).getLast? = some t) : s ≤ t := by
  have hincreasing : ∀ k, (confirmedBy swings window k).Pairwise (· < ·) :=
    fun k => hswings.filter _
  rw [getLast?_eq_some_iff_max (hincreasing _)] at hs ht
  refine ht.2 s ?_
  obtain ⟨hmem, hconfirmed⟩ := List.mem_filter.mp hs.1
  exact List.mem_filter.mpr ⟨hmem, decide_eq_true ((of_decide_eq_true hconfirmed).trans hij)⟩

/-- An increasing list has two items exactly if one of its items is below another. -/
theorem not_length_lt_two_iff {xs : List ℕ} (h : xs.Pairwise (· < ·)) :
    ¬ xs.length < 2 ↔ ∃ s t, s < t ∧ s ∈ xs ∧ t ∈ xs := by
  match xs, h with
  | [], _ => simp
  | [a], _ =>
      simp only [List.mem_singleton]
      refine iff_of_false (by simp) ?_
      rintro ⟨s, t, hlt, rfl, rfl⟩
      exact lt_irrefl _ hlt
  | a :: b :: rest, h =>
      refine iff_of_true (by simp) ⟨a, b, ?_, by simp, by simp⟩
      exact (List.pairwise_cons.mp h).1 b List.mem_cons_self

/-! ## §4 Breaks -/

section Breaks

variable (rows : PriceRows) (window : ℕ)

/-- The swing high in force. -/
def SwingHighInForce (i s : ℕ) : Prop :=
  LatestSwing (fun val price => price < val) (rows.map Prod.fst) window i s

/-- Two swing highs are confirmed. -/
def UptrendSeen (i : ℕ) : Prop :=
  ∃ s t, s < t ∧ (window ≤ s ∧ StandsOut (fun val price => price < val) (rows.map Prod.fst)
    window s) ∧ t + window ≤ i ∧
      StandsOut (fun val price => price < val) (rows.map Prod.fst) window t

/-- The swing low in force in an uptrend. -/
def SwingLowInForce (i s : ℕ) : Prop :=
  UptrendSeen rows window i ∧
    LatestSwing (fun val price => val < price) (rows.map Prod.snd) window i s

/-- Row `i` is the first to get beyond the swing in force in it. -/
def FirstBreakOf (inForce : ℕ → ℕ → Prop) (beyond : ℕ → ℕ → Prop) (i s : ℕ) : Prop :=
  inForce i s ∧ beyond i s ∧ ∀ j < i, inForce j s → ¬ beyond j s

variable {rows window}

/-- The loop fires in the first breaks, if it sees the swings in force. -/
theorem firstBeyond_iff {level : ℕ → Option ℕ} {beyond : ℕ → ℕ → Bool}
    (inForce : ℕ → ℕ → Prop) {n i : ℕ} (hi : i < n) (hlevel : ∀ j < n, ∀ s, level j = some s ↔ inForce j s)
    (hstart : ∀ j s, inForce j s → window * 2 ≤ j) :
    (window * 2 ≤ i ∧ FirstBeyond level beyond (window * 2) i) ↔
      ∃ s, FirstBreakOf inForce (fun j s => beyond j s = true) i s := by
  constructor
  · rintro ⟨-, s, hs, hbeyond, hfirst⟩
    refine ⟨s, (hlevel i hi s).mp hs, hbeyond, fun j hj hforce hbroken => hfirst ?_⟩
    exact ⟨j, hstart j s hforce, hj, (hlevel j (hj.trans hi) s).mpr hforce, hbroken⟩
  · rintro ⟨s, hforce, hbeyond, hfirst⟩
    refine ⟨hstart i s hforce, s, (hlevel i hi s).mpr hforce, hbeyond, ?_⟩
    rintro ⟨j, -, hj, hs, hbroken⟩
    exact hfirst j hj ((hlevel j (hj.trans hi) s).mp hs) hbroken

/-- A swing is broken for the first time in one row at most. -/
theorem FirstBreakOf.unique {inForce : ℕ → ℕ → Prop} {beyond : ℕ → ℕ → Prop} {i j s : ℕ}
    (hi : FirstBreakOf inForce beyond i s) (hj : FirstBreakOf inForce beyond j s) : i = j := by
  rcases Nat.lt_trichotomy i j with hlt | heq | hgt
  · exact absurd hi.2.1 (hj.2.2 i hlt hi.1)
  · exact heq
  · exact absurd hj.2.1 (hi.2.2 j hgt hj.1)

theorem findSwings_rows : findSwings (rows.map Prod.fst) (rows.map Prod.snd) window =
    ((List.range' window (rows.length - window - window)).filter
        (isPivot aboveAll (rows.map Prod.fst) window),
      (List.range' window (rows.length - window - window)).filter
        (isPivot belowAll (rows.map Prod.snd) window)) := by
  rw [findSwings_eq, List.length_map, List.length_map, Nat.min_self]

theorem highSwings_pairwise : ((List.range' window (rows.length - window - window)).filter
    (isPivot aboveAll (rows.map Prod.fst) window)).Pairwise (· < ·) :=
  List.Pairwise.filter _ List.pairwise_lt_range'

/-- `bos` fires in the first breaks of swing highs. -/
theorem bos_iff {i : ℕ} (hi : i < rows.length) :
    (bos (rows.map Prod.fst) (rows.map Prod.snd) window).getD i false = true ↔
      ∃ s, FirstBreakOf (SwingHighInForce rows window)
        (fun j s => highAt rows s < highAt rows j) i s := by
  have hincreasing := @highSwings_pairwise rows window
  unfold bos
  rw [findSwings_rows, List.length_map, firstBreaks_getD ?_ hi]
  · rw [firstBeyond_iff (SwingHighInForce rows window) hi ?_ fun j s h => h.start_le]
    · simp only [decide_eq_true_eq]
      rfl
    · intro j hj s
      rw [confirmedBy_filter aboveAll _ hj, getLast?_confirmedPivots aboveAll_iff
        (by rwa [List.length_map])]
      rfl
  · exact advancing_of_mono fun i j s t hij => last_confirmedBy_mono hincreasing hij

/-- Two swing highs are in the loop's list exactly if they are confirmed. -/
theorem uptrendSeen_iff {i : ℕ} (hi : i < rows.length) :
    ¬ (confirmedPivots aboveAll (rows.map Prod.fst) window i).length < 2 ↔
      UptrendSeen rows window i := by
  rw [not_length_lt_two_iff (pairwise_confirmedPivots _ _ _ _)]
  refine exists_congr fun s => exists_congr fun t => and_congr_right fun hlt => ?_
  rw [mem_confirmedPivots, mem_confirmedPivots]
  have hpivot : ∀ u, window ≤ u → u + window ≤ i →
      (isPivot aboveAll (rows.map Prod.fst) window u = true ↔
        StandsOut (fun val price => price < val) (rows.map Prod.fst) window u) :=
    fun u hleft hconfirmed => isPivot_iff aboveAll_iff hleft (by rw [List.length_map]; omega)
  constructor
  · rintro ⟨⟨hs, hsi, hps⟩, ht, hti, hpt⟩
    exact ⟨⟨hs, (hpivot s hs hsi).mp hps⟩, hti, (hpivot t ht hti).mp hpt⟩
  · rintro ⟨⟨hs, hps⟩, hti, hpt⟩
    exact ⟨⟨hs, by omega, (hpivot s hs (by omega)).mpr hps⟩, by omega, hti,
      (hpivot t (by omega) hti).mpr hpt⟩

/-- The swing low that `choch` looks at does not go back. -/
theorem choch_advancing : Advancing fun i =>
    if (confirmedBy ((List.range' window (rows.length - window - window)).filter
          (isPivot aboveAll (rows.map Prod.fst) window)) window i).length < 2 ∨
        (confirmedBy ((List.range' window (rows.length - window - window)).filter
          (isPivot belowAll (rows.map Prod.snd) window)) window i).length < 1 then none
    else (confirmedBy ((List.range' window (rows.length - window - window)).filter
      (isPivot belowAll (rows.map Prod.snd) window)) window i).getLast? := by
  refine advancing_of_mono fun i j s t hij hs ht => ?_
  split at hs
  · cases hs
  · split at ht
    · cases ht
    · exact last_confirmedBy_mono (List.Pairwise.filter _ List.pairwise_lt_range') hij hs ht

/-- `choch` fires in the first breaks of swing lows in an uptrend. -/
theorem choch_iff {i : ℕ} (hi : i < rows.length) :
    (choch (rows.map Prod.fst) (rows.map Prod.snd) window).getD i false = true ↔
      ∃ s, FirstBreakOf (SwingLowInForce rows window)
        (fun j s => lowAt rows j < lowAt rows s) i s := by
  unfold choch
  rw [findSwings_rows, List.length_map]
  simp only
  rw [firstBreaks_getD choch_advancing hi]
  · rw [firstBeyond_iff (SwingLowInForce rows window) hi ?_ fun j s h => h.2.start_le]
    · simp only [decide_eq_true_eq]
      rfl
    · intro j hj s
      rw [confirmedBy_filter aboveAll _ hj, confirmedBy_filter belowAll _ hj]
      have hlast : (confirmedPivots belowAll (rows.map Prod.snd) window j).getLast? = some s ↔
          LatestSwing (fun val price => val < price) (rows.map Prod.snd) window j s :=
        getLast?_confirmedPivots belowAll_iff (by rwa [List.length_map]) s
      unfold SwingLowInForce
      rw [← uptrendSeen_iff hj, ← hlast]
      by_cases hfew : (confirmedPivots aboveAll (rows.map Prod.fst) window j).length < 2
      · rw [if_pos (.inl hfew)]
        exact iff_of_false (fun h => nomatch h) fun h => h.1 hfew
      · by_cases hnone : (confirmedPivots belowAll (rows.map Prod.snd) window j).length < 1
        · rw [if_pos (.inr hnone), List.length_eq_zero_iff.mp (Nat.lt_one_iff.mp hnone)]
          exact iff_of_false (fun h => nomatch h) fun h => nomatch h.2
        · rw [if_neg (by tauto)]
          exact ⟨fun h => ⟨hfew, h⟩, fun h => h.2⟩

/-- Only the rows of the frame fire. -/
theorem getD_iff_of_length {marks : List Bool} {n : ℕ} {P : ℕ → Prop} (hlength : marks.length = n)
    (h : ∀ i < n, (marks.getD i false = true ↔ P i)) (i : ℕ) :
    marks.getD i false = true ↔ i < n ∧ P i := by
  by_cases hi : i < n
  · rw [h i hi, and_iff_right hi]
  · rw [List.getD_eq_default _ _ (by omega)]
    exact iff_of_false (by decide) fun hrow => hi hrow.1

/-- Two rows that break the same swing for the first time are one row. -/
theorem firstBreak_unique {marks : List Bool} {n : ℕ} {inForce beyond : ℕ → ℕ → Prop}
    (hinForce : ∀ i s t, inForce i s → inForce i t → s = t)
    (h : ∀ i, marks.getD i false = true ↔ i < n ∧ ∃ s, FirstBreakOf inForce beyond i s) (i j s : ℕ)
    (hi : marks.getD i false = true) (hj : marks.getD j false = true) (hsi : inForce i s)
    (hsj : inForce j s) : i = j := by
  obtain ⟨-, t, ht⟩ := (h i).mp hi
  obtain ⟨-, u, hu⟩ := (h j).mp hj
  obtain rfl := hinForce i t s ht.1 hsi
  obtain rfl := hinForce j u t hu.1 hsj
  exact ht.unique hu

theorem length_bos : (bos (rows.map Prod.fst) (rows.map Prod.snd) window).length = rows.length := by
  unfold bos
  rw [findSwings_rows]
  refine (length_firstBreaks ?_ _ _).trans (List.length_map _)
  exact advancing_of_mono fun i j s t hij => last_confirmedBy_mono highSwings_pairwise hij

theorem length_choch :
    (choch (rows.map Prod.fst) (rows.map Prod.snd) window).length = rows.length := by
  unfold choch
  rw [findSwings_rows]
  exact (length_firstBreaks choch_advancing _ _).trans (List.length_map _)

end Breaks

/-- **Breaks of structure.** In every frame and for every window, `bos` fires exactly in the
rows that are the first above the swing high in force, and `choch` in those that are the
first below the swing low in force, once two swing highs are confirmed. Neither fires twice
for a swing. -/
theorem structure_breaks (rows : PriceRows) (window : ℕ) :
    let up := bos (rows.map Prod.fst) (rows.map Prod.snd) window
    let down := choch (rows.map Prod.fst) (rows.map Prod.snd) window
    (∀ i, up.getD i false = true ↔ i < rows.length ∧ ∃ s, FirstBreakOf
      (SwingHighInForce rows window) (fun j s => highAt rows s < highAt rows j) i s) ∧
    (∀ i, down.getD i false = true ↔ i < rows.length ∧ ∃ s, FirstBreakOf
      (SwingLowInForce rows window) (fun j s => lowAt rows j < lowAt rows s) i s) ∧
    (∀ i j s, up.getD i false = true → up.getD j false = true →
      SwingHighInForce rows window i s → SwingHighInForce rows window j s → i = j) ∧
    (∀ i j s, down.getD i false = true → down.getD j false = true →
      SwingLowInForce rows window i s → SwingLowInForce rows window j s → i = j) := by
  have hup := getD_iff_of_length (@length_bos rows window) fun i => bos_iff
  have hdown := getD_iff_of_length (@length_choch rows window) fun i => choch_iff
  refine ⟨hup, hdown, firstBreak_unique (fun i s t hs ht => hs.unique ht) hup,
    firstBreak_unique (fun i s t hs ht => hs.2.unique ht.2) hdown⟩

end Finbar.Indicators
