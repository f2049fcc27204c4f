/-
Finbar.Indicators.VwapBands — the volume-weighted price of a session, and its bands.

`services/vwap_bands.py` keeps running sums of price and squared price, so that a session
takes one pass. `vwapBands_cells` says what the cells are: the bands lie around the
volume-weighted price of the session so far, at the root mean square distance of its prices.
`vwapBands_repaint_iff` says which cell later bars change.

No `sorry`, no `axiom`.
-/
import Finbar.Indicators.SessionColumns
import Mathlib.Algebra.BigOperators.Ring.List
import Mathlib.Algebra.Order.BigOperators.Group.List
import Mathlib.Data.Rat.Sqrt
import Mathlib.Tactic.FieldSimp
import Mathlib.Tactic.Ring

namespace Finbar.Indicators

open Lib Lib.Python Lib.Sessions Finbar.Streaming

/-! ## §1 The bands -/

/-- The typical price of a bar. -/
def vwapPrice (row : FrameRow) : ℚ := (row.bar.high + row.bar.low + row.bar.close) / 3

/-- The five cells of a row; NaN is `none`. -/
structure VwapBands where
  vwapSession : Option ℚ
  vwapUpper1 : Option ℚ
  vwapLower1 : Option ℚ
  vwapUpper2 : Option ℚ
  vwapLower2 : Option ℚ
  deriving DecidableEq

namespace VwapBands

def missing : VwapBands := ⟨none, none, none, none, none⟩

/-- The bands of a session of one bar. -/
def degenerate (price : ℚ) : VwapBands :=
  ⟨some price, some price, some price, some price, some price⟩

/-- The price plus and minus one and two deviations. -/
def around (vwap std : ℚ) : VwapBands :=
  { vwapSession := some vwap
    vwapUpper1 := some (vwap + std)
    vwapLower1 := some (vwap - std)
    vwapUpper2 := some (vwap + 2 * std)
    vwapLower2 := some (vwap - 2 * std) }

end VwapBands

/-- `np.cumsum`. -/
def cumsum (cells : List ℚ) : List ℚ := (cells.scanl (· + ·) 0).tail

/-- The cells of a session. -/
def sessionBands (sqrt : ℚ → ℚ) (group : List FrameRow) : List VwapBands :=
  let sessionTp := group.map vwapPrice
  if group.length < 2 then sessionTp.map VwapBands.degenerate
  else
    let sessionVol := group.map fun row => row.bar.volume
    let cumPv := cumsum (group.map fun row => vwapPrice row * row.bar.volume)
    let cumVol := cumsum sessionVol
    let cumP := cumsum sessionTp
    let cumP2 := cumsum (group.map fun row => vwapPrice row ^ 2)
    (List.range group.length).map fun i =>
      if 0 < cumVol.getD i 0 then
        let vwap := cumPv.getD i 0 / cumVol.getD i 0
        let n : ℚ := i + 1
        let meanP := cumP.getD i 0 / n
        let meanP2 := cumP2.getD i 0 / n
        let sqDev := max (meanP2 - 2 * vwap * meanP + vwap ^ 2) 0
        VwapBands.around vwap (sqrt (max sqDev 0))
      else VwapBands.missing

/-- `compute_vwap_session_bands(df)`. The rows of a session are addressed by their labels: two
rows with one label make the selection longer than the session, and an IndexError is raised
(`none`). -/
def computeVwapSessionBands (sqrt : ℚ → ℚ) (rows : List FrameRow) : Option (List VwapBands) :=
  if (rows.filterMap FrameRow.index).Nodup then
    some (sessionColumn rowDate (fun date group n =>
      match date with
      | none => VwapBands.missing
      | some _ => (sessionBands sqrt group).getD n VwapBands.missing) rows)
  else none

/-! ## §2 Running sums -/

variable {sqrt : ℚ → ℚ} {rows group : List FrameRow} {row : FrameRow} {i : ℕ}
  {bands : List VwapBands}

theorem getD_cumsum {cells : List ℚ} (h : i < cells.length) :
    (cumsum cells).getD i 0 = (cells.take (i + 1)).sum := by
  rw [cumsum, List.getD_eq_getElem?_getD, List.getElem?_tail, List.getElem?_scanl,
    if_pos (Nat.succ_le_of_lt h), Option.getD_some, List.sum_eq_foldl]

/-- The volume-weighted price of some bars. -/
def vwapOf (seen : List FrameRow) : ℚ :=
  (seen.map fun row => vwapPrice row * row.bar.volume).sum /
    (seen.map fun row => row.bar.volume).sum

/-- The mean squared distance of their prices from a level. -/
def meanSquaredDistance (seen : List FrameRow) (level : ℚ) : ℚ :=
  (seen.map fun row => (vwapPrice row - level) ^ 2).sum / seen.length

/-- The expanded square, summed up. -/
theorem sum_squaredDistance (seen : List FrameRow) (level : ℚ) :
    (seen.map fun row => (vwapPrice row - level) ^ 2).sum =
      (seen.map fun row => vwapPrice row ^ 2).sum - 2 * level * (seen.map vwapPrice).sum +
        seen.length * level ^ 2 := by
  induction seen with
  | nil => simp
  | cons row seen ih =>
      simp only [List.map_cons, List.sum_cons, List.length_cons, ih]
      push_cast
      ring

theorem meanSquaredDistance_eq {seen : List FrameRow} (h : seen ≠ []) (level : ℚ) :
    meanSquaredDistance seen level =
      (seen.map fun row => vwapPrice row ^ 2).sum / seen.length -
        2 * level * ((seen.map vwapPrice).sum / seen.length) + level ^ 2 := by
  have hlength : (seen.length : ℚ) ≠ 0 := by simpa using h
  rw [meanSquaredDistance, sum_squaredDistance]
  field_simp

theorem meanSquaredDistance_nonneg (seen : List FrameRow) (level : ℚ) :
    0 ≤ meanSquaredDistance seen level := by
  refine div_nonneg (List.sum_nonneg fun distance hdistance => ?_) (Nat.cast_nonneg _)
  obtain ⟨row, -, rfl⟩ := List.mem_map.mp hdistance
  exact sq_nonneg _

/-- The cells of a session, from the bars seen so far. -/
def bandsOf (sqrt : ℚ → ℚ) (seen : List FrameRow) : VwapBands :=
  if 0 < (seen.map fun row => row.bar.volume).sum then
    VwapBands.around (vwapOf seen) (sqrt (meanSquaredDistance seen (vwapOf seen)))
  else VwapBands.missing

/-- The running sums are those of the bars so far. -/
theorem getD_sessionBands (hlong : 2 ≤ group.length) (hi : i < group.length) :
    (sessionBands sqrt group).getD i VwapBands.missing = bandsOf sqrt (group.take (i + 1)) := by
  have hseen : group.take (i + 1) ≠ [] := by
    rw [← List.length_pos_iff, List.length_take]
    omega
  have hlength : ((group.take (i + 1)).length : ℚ) = i + 1 := by
    rw [List.length_take, Nat.min_eq_left hi]
    push_cast
    rfl
  have hcell : ∀ f : FrameRow → ℚ,
      (cumsum (group.map f)).getD i 0 = ((group.take (i + 1)).map f).sum := by
    intro f
    rw [getD_cumsum (by simpa using hi), List.map_take]
  have hvar := meanSquaredDistance_eq hseen (vwapOf (group.take (i + 1)))
  have hnonneg := meanSquaredDistance_nonneg (group.take (i + 1)) (vwapOf (group.take (i + 1)))
  rw [hlength] at hvar
  rw [hvar] at hnonneg
  unfold sessionBands bandsOf
  rw [if_neg (by omega), List.getD_eq_getElem?_getD, List.getElem?_map, List.getElem?_range hi,
    Option.map_some, Option.getD_some]
  simp only [hcell, hvar]
  unfold vwapOf at hnonneg ⊢
  rw [max_eq_left hnonneg, max_eq_left hnonneg]

/-! ## §3 The cells -/

/-- The cells of a row of a frame that is computed. -/
theorem getElem?_of_computeVwapSessionBands
    (hbands : computeVwapSessionBands sqrt rows = some bands) (h : rows[i]? = some row)
    {date : ℤ} (hdate : rowDate row = some date) :
    bands[i]? = some
      (if (session rowDate rows (some date)).length < 2 then .degenerate (vwapPrice row)
      else bandsOf sqrt (session rowDate (rows.take (i + 1)) (some date))) := by
  unfold computeVwapSessionBands at hbands
  obtain ⟨-, hbands⟩ := Option.ite_none_right_eq_some.mp hbands
  obtain rfl := Option.some.inj hbands
  rw [getElem?_sessionColumn h, hdate]
  have hsplit : session rowDate rows (some date) = _ := session_eq rows (i + 1) (some date)
  have hseen : session rowDate (rows.take (i + 1)) (rowDate row) = _ := session_take_succ h
  rw [hdate] at hseen
  rw [hseen] at hsplit ⊢
  generalize session rowDate rows (some date) = group at hsplit ⊢
  generalize session rowDate (rows.take i) (some date) = before at hsplit ⊢
  generalize session rowDate (rows.drop (i + 1)) (some date) = later at hsplit
  subst hsplit
  refine congrArg some ?_
  by_cases hshort : (before ++ [row] ++ later).length < 2
  · obtain ⟨rfl, rfl⟩ : before = [] ∧ later = [] := by
      simp only [List.length_append, List.length_cons, List.length_nil] at hshort
      exact ⟨List.length_eq_zero_iff.mp (by omega), List.length_eq_zero_iff.mp (by omega)⟩
    rfl
  · rw [if_neg hshort]
    show (sessionBands sqrt _).getD _ _ = _
    rw [getD_sessionBands (by omega) (by simp), List.take_append_of_le_length (by simp),
      List.take_of_length_le (by simp)]

/-- A row without a date has no bands. -/
theorem getElem?_of_rowDate_none (hbands : computeVwapSessionBands sqrt rows = some bands)
    (h : rows[i]? = some row) (hdate : rowDate row = none) :
    bands[i]? = some VwapBands.missing := by
  unfold computeVwapSessionBands at hbands
  obtain ⟨-, hbands⟩ := Option.ite_none_right_eq_some.mp hbands
  obtain rfl := Option.some.inj hbands
  rw [getElem?_sessionColumn h, hdate]

/-- A weighted mean of prices lies between them. -/
theorem vwapOf_between {seen : List FrameRow} {low high : ℚ}
    (hseen : ∀ row ∈ seen, 0 ≤ row.bar.volume ∧ low ≤ vwapPrice row ∧ vwapPrice row ≤ high)
    (hvolume : 0 < (seen.map fun row => row.bar.volume).sum) :
    low ≤ vwapOf seen ∧ vwapOf seen ≤ high := by
  have hlow : low * (seen.map fun row => row.bar.volume).sum ≤
      (seen.map fun row => vwapPrice row * row.bar.volume).sum := by
    rw [← List.sum_map_mul_left]
    exact List.sum_le_sum fun row hrow =>
      mul_le_mul_of_nonneg_right (hseen row hrow).2.1 (hseen row hrow).1
  have hhigh : (seen.map fun row => vwapPrice row * row.bar.volume).sum ≤
      high * (seen.map fun row => row.bar.volume).sum := by
    rw [← List.sum_map_mul_left]
    exact List.sum_le_sum fun row hrow =>
      mul_le_mul_of_nonneg_right (hseen row hrow).2.2 (hseen row hrow).1
  exact ⟨(le_div_iff₀ hvolume).mpr hlow, (div_le_iff₀ hvolume).mpr hhigh⟩

/-- **One pass gives the bands.** Every cell of a frame that is computed: a session of one bar
has its price in all five columns; otherwise the bands lie around the volume-weighted price of
the session so far, at the root of the mean squared distance from it, and are missing while
no volume was traded. Without negative volumes the price lies between those it is made of. -/
theorem vwapBands_cells (sqrt : ℚ → ℚ) (rows : List FrameRow) (bands : List VwapBands)
    (hbands : computeVwapSessionBands sqrt rows = some bands) (i : ℕ) (row : FrameRow)
    (h : rows[i]? = some row) (date : ℤ) (hdate : rowDate row = some date) :
    bands[i]? = some
        (if (session rowDate rows (some date)).length < 2 then .degenerate (vwapPrice row)
        else
          let seen := session rowDate (rows.take (i + 1)) (some date)
          if 0 < (seen.map fun row => row.bar.volume).sum then
            .around (vwapOf seen) (sqrt (meanSquaredDistance seen (vwapOf seen)))
          else .missing) ∧
      ∀ cells vwap low high, bands[i]? = some cells → cells.vwapSession = some vwap →
        (∀ bar ∈ session rowDate (rows.take (i + 1)) (some date),
          0 ≤ bar.bar.volume ∧ low ≤ vwapPrice bar ∧ vwapPrice bar ≤ high) →
        low ≤ vwap ∧ vwap ≤ high := by
  have hcell := getElem?_of_computeVwapSessionBands hbands h hdate
  refine ⟨hcell, ?_⟩
  intro cells vwap low high hcells hvwap hseen
  rw [hcell] at hcells
  obtain rfl := Option.some.inj hcells
  split at hvwap
  · obtain rfl := Option.some.inj hvwap
    refine (hseen row ?_).2
    rw [← hdate, session_take_succ h]
    exact List.mem_append_right _ List.mem_cons_self
  · unfold bandsOf at hvwap
    split at hvwap
    · next hvolume =>
        obtain rfl := Option.some.inj hvwap
        exact vwapOf_between hseen hvolume
    · cases hvwap

theorem vwapBands_cells_two :
    ∃ bands, computeVwapSessionBands Rat.sqrt twoBars = some bands ∧
      bands[1]? = some (.around 11 1) := by
  have hcomputed : (computeVwapSessionBands Rat.sqrt twoBars).isSome := by decide +kernel
  obtain ⟨bands, hbands⟩ := Option.isSome_iff_exists.mp hcomputed
  have hcells := vwapBands_cells Rat.sqrt twoBars bands hbands 1 twoBars[1] rfl 0 (by decide +kernel)
  refine ⟨bands, hbands, hcells.1.trans ?_⟩
  decide +kernel

/-! ## §4 Bars that come later -/

/-- One bar that traded is the whole of its bands. -/
theorem bandsOf_singleton (h0 : sqrt 0 = 0) (row : FrameRow) :
    bandsOf sqrt [row] =
      if 0 < row.bar.volume then .degenerate (vwapPrice row) else .missing := by
  unfold bandsOf
  simp only [List.map_cons, List.map_nil, List.sum_cons, List.sum_nil, add_zero]
  split
  · next hvolume =>
      have hvwap : vwapOf [row] = vwapPrice row := by
        simp [vwapOf, hvolume.ne']
      have hzero : meanSquaredDistance [row] (vwapPrice row) = 0 := by
        simp [meanSquaredDistance]
      rw [hvwap, hzero, h0]
      simp [VwapBands.around, VwapBands.degenerate]
  · rfl

/-- **Which cells later bars change.** The bands of a frame that is computed are those of the
frame that ends with the row, but for a session's first bar when it did not trade: alone it
shows its own price, and once the session goes on it shows none. -/
theorem vwapBands_repaint_iff (sqrt : ℚ → ℚ) (h0 : sqrt 0 = 0) (rows : List FrameRow)
    (bands : List VwapBands) (hbands : computeVwapSessionBands sqrt rows = some bands) (i : ℕ)
    (row : FrameRow) (h : rows[i]? = some row) :
    ∃ before, computeVwapSessionBands sqrt (rows.take (i + 1)) = some before ∧
      (before[i]? ≠ bands[i]? ↔ row.index ≠ none ∧ row.bar.volume ≤ 0 ∧
        session rowDate (rows.take i) (rowDate row) = [] ∧
        session rowDate (rows.drop (i + 1)) (rowDate row) ≠ []) := by
  have hnodup : ((rows.take (i + 1)).filterMap FrameRow.index).Nodup := by
    unfold computeVwapSessionBands at hbands
    exact (Option.ite_none_right_eq_some.mp hbands).1.sublist
      ((List.take_sublist _ _).filterMap _)
  obtain ⟨before, hbefore⟩ : ∃ before,
      computeVwapSessionBands sqrt (rows.take (i + 1)) = some before := ⟨_, if_pos hnodup⟩
  refine ⟨before, hbefore, ?_⟩
  have hrow : (rows.take (i + 1))[i]? = some row := by
    rwa [List.getElem?_take_of_lt (Nat.lt_succ_self i)]
  cases hindex : row.index with
  | none =>
      have hdate : rowDate row = none := by rw [rowDate, hindex, Option.map_none]
      rw [getElem?_of_rowDate_none hbefore hrow hdate, getElem?_of_rowDate_none hbands h hdate]
      simp
  | some start =>
      obtain ⟨date, hdate⟩ : ∃ date, rowDate row = some date :=
        ⟨_, by rw [rowDate, hindex, Option.map_some]⟩
      have hseen : session rowDate (rows.take (i + 1)) (rowDate row) = _ := session_take_succ h
      have hsplit : session rowDate rows (some date) = _ := session_eq rows (i + 1) (some date)
      rw [getElem?_of_computeVwapSessionBands hbefore hrow hdate,
        getElem?_of_computeVwapSessionBands hbands h hdate, List.take_take, Nat.min_self, hdate]
      rw [hdate] at hseen
      rw [hseen] at hsplit ⊢
      rw [hsplit]
      generalize session rowDate (rows.take i) (some date) = opened
      generalize session rowDate (rows.drop (i + 1)) (some date) = later
      cases opened with
      | nil =>
          cases later with
          | nil => simp
          | cons next later =>
              rw [if_pos (by simp), if_neg (by simp), List.nil_append, bandsOf_singleton h0]
              by_cases hvolume : 0 < row.bar.volume
              · rw [if_pos hvolume]
                simp [hvolume]
              · rw [if_neg hvolume]
                simp [VwapBands.degenerate, VwapBands.missing, not_lt.mp hvolume]
      | cons first opened =>
          have hlong : ∀ rest : List FrameRow, ¬(first :: opened ++ [row] ++ rest).length < 2 := by
            intro rest
            simp only [List.length_append, List.length_cons]
            omega
          rw [if_neg (by simp), if_neg (hlong later)]
          simp

/-- A bar that did not trade, and one that did. -/
def quietOpening : List FrameRow :=
  [{ index := some 0, bar := ⟨10, 10, 10, 10, 0, none, []⟩ },
    { index := some 300000000000, bar := ⟨12, 12, 12, 12, 1, none, []⟩ }]

theorem vwapBands_repaint_iff_quiet :
    ∃ bands before, computeVwapSessionBands Rat.sqrt quietOpening = some bands ∧
      computeVwapSessionBands Rat.sqrt (quietOpening.take 1) = some before ∧
      before[0]? ≠ bands[0]? := by
  have hcomputed : (computeVwapSessionBands Rat.sqrt quietOpening).isSome := by decide +kernel
  obtain ⟨bands, hbands⟩ := Option.isSome_iff_exists.mp hcomputed
  obtain ⟨before, hbefore, hrepaint⟩ := vwapBands_repaint_iff Rat.sqrt (by decide +kernel)
    quietOpening bands hbands 0 quietOpening[0] rfl
  exact ⟨bands, before, hbands, hbefore,
    hrepaint.mpr ⟨Option.some_ne_none 0, by decide +kernel, by decide +kernel, by decide +kernel⟩⟩

end Finbar.Indicators
