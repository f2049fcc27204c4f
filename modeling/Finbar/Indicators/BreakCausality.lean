/-
Finbar.Indicators.BreakCausality — what the breaks of structure see.

`bos` and `choch` show in a row what they show in a frame that ends there
(`causal_breaks`): bars that arrive later do not repaint them. But no number of bars
before a row is enough to compute `bos` in it (`break_columns`): the swing in force may
be any number of bars old.

No `sorry`, no `axiom`.
-/
import Finbar.Indicators.StructureBreakTheorems
import Finbar.Lib.Causal

namespace Finbar.Indicators

open Lib

variable {rows later : PriceRows} {prices : List ℚ} {beats : ℚ → ℚ → Prop} {window i : ℕ}

/-! ## §1 Later rows -/

theorem standsOut_append {s : ℕ} (hs : s + window < prices.length) (more : List ℚ) :
    StandsOut beats (prices ++ more) window s ↔ StandsOut beats prices window s := by
  have hcell : ∀ j ≤ s + window, (prices ++ more).getD j 0 = prices.getD j 0 :=
    fun j hj => List.getD_append _ _ _ _ (by omega)
  unfold StandsOut
  refine and_congr_right fun _ => forall_congr' fun j => forall_congr' fun _ => ?_
  refine forall_congr' fun hj => forall_congr' fun _ => ?_
  rw [hcell s (by omega), hcell j hj]

theorem latestSwing_append (hi : i < prices.length) (more : List ℚ) (s : ℕ) :
    LatestSwing beats (prices ++ more) window i s ↔ LatestSwing beats prices window i s := by
  constructor
  · rintro ⟨hleft, hconfirmed, hout, hlatest⟩
    refine ⟨hleft, hconfirmed, (standsOut_append (by omega) more).mp hout, fun t ht hti hout' => ?_⟩
    exact hlatest t ht hti ((standsOut_append (by omega) more).mpr hout')
  · rintro ⟨hleft, hconfirmed, hout, hlatest⟩
    refine ⟨hleft, hconfirmed, (standsOut_append (by omega) more).mpr hout, fun t ht hti hout' => ?_⟩
    exact hlatest t ht hti ((standsOut_append (by omega) more).mp hout')

theorem swingHighInForce_append (hi : i < rows.length) (s : ℕ) :
    SwingHighInForce (rows ++ later) window i s ↔ SwingHighInForce rows window i s := by
  unfold SwingHighInForce
  rw [List.map_append]
  exact latestSwing_append (by rwa [List.length_map]) _ s

theorem swingLowInForce_append (hi : i < rows.length) (s : ℕ) :
    SwingLowInForce (rows ++ later) window i s ↔ SwingLowInForce rows window i s := by
  unfold SwingLowInForce UptrendSeen
  rw [List.map_append, List.map_append, latestSwing_append (by rwa [List.length_map])]
  refine and_congr_left fun _ => exists_congr fun s => exists_congr fun t => ?_
  refine and_congr_right fun hlt => ?_
  constructor
  · rintro ⟨⟨hs, hout⟩, hti, hout'⟩
    exact ⟨⟨hs, (standsOut_append (by rw [List.length_map]; omega) _).mp hout⟩, hti,
      (standsOut_append (by rw [List.length_map]; omega) _).mp hout'⟩
  · rintro ⟨⟨hs, hout⟩, hti, hout'⟩
    exact ⟨⟨hs, (standsOut_append (by rw [List.length_map]; omega) _).mpr hout⟩, hti,
      (standsOut_append (by rw [List.length_map]; omega) _).mpr hout'⟩

/-- The first breaks are the same when the swings in force and the comparisons are. -/
theorem firstBreakOf_congr {inForce inForce' beyond beyond' : ℕ → ℕ → Prop} {s : ℕ}
    (hforce : ∀ j ≤ i, ∀ s, inForce j s ↔ inForce' j s)
    (hbeyond : ∀ j ≤ i, ∀ s, inForce' j s → (beyond j s ↔ beyond' j s)) :
    FirstBreakOf inForce beyond i s ↔ FirstBreakOf inForce' beyond' i s := by
  unfold FirstBreakOf
  rw [hforce i le_rfl s]
  refine and_congr_right fun hs => ?_
  rw [hbeyond i le_rfl s hs]
  refine and_congr_right fun _ => forall_congr' fun j => forall_congr' fun hj => ?_
  rw [hforce j hj.le s]
  exact forall_congr' fun hjs => not_congr (hbeyond j hj.le s hjs)

/-- Two columns of flags that fire alike in a row have the same cell there. -/
theorem getElem?_eq_of_getD_iff {left right : List Bool} (hl : i < left.length)
    (hr : i < right.length) (h : left.getD i false = true ↔ right.getD i false = true) :
    left[i]? = right[i]? := by
  rw [List.getD_eq_getElem _ _ hl, List.getD_eq_getElem _ _ hr] at h
  rw [List.getElem?_eq_getElem hl, List.getElem?_eq_getElem hr, Bool.eq_iff_iff.mpr h]

/-- **First breaks do not repaint**, if in no row the later ones change the swings in force or
the comparison with them. -/
theorem causal_of_firstBreak {column : PriceRows → List Bool}
    {inForce beyond : PriceRows → ℕ → ℕ → Prop}
    (hlength : ∀ rows, (column rows).length = rows.length)
    (hcolumn : ∀ rows i, i < rows.length → ((column rows).getD i false = true ↔
      ∃ s, FirstBreakOf (inForce rows) (beyond rows) i s))
    (hforce : ∀ rows later j s, j < rows.length →
      (inForce (rows ++ later) j s ↔ inForce rows j s))
    (hbeyond : ∀ rows later j s, j < rows.length → inForce rows j s →
      (beyond (rows ++ later) j s ↔ beyond rows j s)) : Causal column := by
  refine Causal.of_cells hlength fun rows later i hi => ?_
  have hlong : i < (rows ++ later).length := by
    rw [List.length_append]
    omega
  refine getElem?_eq_of_getD_iff (by rwa [hlength]) (by rwa [hlength]) ?_
  rw [hcolumn _ i hlong, hcolumn _ i hi]
  exact exists_congr fun s => firstBreakOf_congr
    (fun j hj s => hforce rows later j s (by omega))
    fun j hj s hs => hbeyond rows later j s (by omega) hs

theorem getD_map_append (side : ℚ × ℚ → ℚ) (later : PriceRows) {k : ℕ} (hk : k < rows.length) :
    ((rows ++ later).map side).getD k 0 = (rows.map side).getD k 0 := by
  rw [List.map_append, List.getD_append _ _ _ _ (by rwa [List.length_map])]

/-- **`bos` and `choch` do not repaint.** -/
theorem causal_breaks (window : ℕ) :
    (Causal fun rows : PriceRows => bos (rows.map Prod.fst) (rows.map Prod.snd) window) ∧
      Causal fun rows : PriceRows => choch (rows.map Prod.fst) (rows.map Prod.snd) window := by
  constructor
  · refine causal_of_firstBreak (fun _ => length_bos) (fun _ _ => bos_iff)
      (fun _ _ _ s hj => swingHighInForce_append hj s) fun rows later j s hj hs => ?_
    have hsj : s ≤ j := (Nat.le_add_right _ _).trans hs.confirmed
    unfold highAt
    rw [getD_map_append _ later (hsj.trans_lt hj), getD_map_append _ later hj]
  · refine causal_of_firstBreak (fun _ => length_choch) (fun _ _ => choch_iff)
      (fun _ _ _ s hj => swingLowInForce_append hj s) fun rows later j s hj hs => ?_
    have hsj : s ≤ j := (Nat.le_add_right _ _).trans hs.2.confirmed
    unfold lowAt
    rw [getD_map_append _ later (hsj.trans_lt hj), getD_map_append _ later hj]

/-! ## §2 How far back -/

/-- A swing high of 3 in row 5 of a flat market, broken in row `k + 11`. -/
def oldSwing (k : ℕ) : PriceRows :=
  (List.range (k + 12)).map fun j => (if j = 5 then 3 else if j = k + 11 then 5 else 1, 0)

theorem highAt_oldSwing {k j : ℕ} (hj : j < k + 12) :
    highAt (oldSwing k) j = if j = 5 then 3 else if j = k + 11 then 5 else 1 := by
  unfold highAt oldSwing
  rw [List.map_map, List.getD_eq_getElem?_getD, List.getElem?_map, List.getElem?_range hj]
  rfl

theorem highAt_recent {k j : ℕ} (hj : j ≤ k) :
    highAt ((oldSwing k).drop 11) j = if j = k then 5 else 1 := by
  have hrow : highAt ((oldSwing k).drop 11) j = highAt (oldSwing k) (11 + j) := by
    unfold highAt
    rw [List.map_drop, List.getD_eq_getElem?_getD, List.getElem?_drop, ← List.getD_eq_getElem?_getD]
  rw [hrow, highAt_oldSwing (by omega), if_neg (by omega)]
  by_cases hjk : j = k
  · rw [if_pos (by omega), if_pos hjk]
  · rw [if_neg (by omega), if_neg hjk]

/-- The break shows in the whole frame. -/
theorem bos_oldSwing (k : ℕ) : (bos ((oldSwing k).map Prod.fst) ((oldSwing k).map Prod.snd) 5).getD
    (k + 11) false = true := by
  have hlength : (oldSwing k).length = k + 12 := by
    rw [oldSwing, List.length_map, List.length_range]
  have hswing : StandsOut (fun val price => price < val) ((oldSwing k).map Prod.fst) 5 5 := by
    refine ⟨by decide, fun j _ hj hne => ?_⟩
    have h5 := highAt_oldSwing (show 5 < k + 12 by omega)
    have hj' := highAt_oldSwing (show j < k + 12 by omega)
    rw [if_pos rfl] at h5
    rw [if_neg hne, if_neg (by omega)] at hj'
    show highAt (oldSwing k) j < highAt (oldSwing k) 5
    rw [h5, hj']
    decide
  have hforce : ∀ t, 5 ≤ t → t + 5 ≤ k + 11 →
      StandsOut (fun val price => price < val) ((oldSwing k).map Prod.fst) 5 t → t ≤ 5 := by
    intro t ht hlast hout
    by_contra hgt
    have hbefore : highAt (oldSwing k) (t - 1) < highAt (oldSwing k) t :=
      hout.2 (t - 1) (by omega) (by omega) (by omega)
    rw [highAt_oldSwing (by omega), highAt_oldSwing (by omega), if_neg (show t ≠ 5 by omega),
      if_neg (show t ≠ k + 11 by omega)] at hbefore
    split at hbefore
    · exact absurd hbefore (by decide)
    · rw [if_neg (by omega)] at hbefore
      exact absurd hbefore (by decide)
  rw [bos_iff (by omega)]
  refine ⟨5, ⟨le_rfl, by omega, hswing, hforce⟩, ?_, fun j hj _ => ?_⟩
  · show highAt (oldSwing k) 5 < highAt (oldSwing k) (k + 11)
    rw [highAt_oldSwing (by omega), highAt_oldSwing (by omega), if_pos rfl, if_neg (by omega),
      if_pos rfl]
    decide
  · show ¬ highAt (oldSwing k) 5 < highAt (oldSwing k) j
    rw [highAt_oldSwing (by omega), highAt_oldSwing (by omega), if_pos rfl,
      if_neg (show j ≠ k + 11 by omega)]
    split <;> decide

/-- It does not show in the last `k + 1` rows. -/
theorem bos_recent (k : ℕ) : ¬ (bos (((oldSwing k).drop 11).map Prod.fst)
    (((oldSwing k).drop 11).map Prod.snd) 5).getD k false = true := by
  have hlength : ((oldSwing k).drop 11).length = k + 1 := by
    rw [List.length_drop, oldSwing, List.length_map, List.length_range]
    omega
  rw [bos_iff (by omega)]
  rintro ⟨s, ⟨hleft, hconfirmed, hout, -⟩, -⟩
  have hbefore : highAt ((oldSwing k).drop 11) (s - 1) < highAt ((oldSwing k).drop 11) s :=
    hout.2 (s - 1) (by omega) (by omega) (by omega)
  rw [highAt_recent (by omega), highAt_recent (by omega), if_neg (by omega), if_neg (by omega)]
    at hbefore
  exact lt_irrefl _ hbefore

theorem getLast?_of_getD {marks : List Bool} {n : ℕ} (hlength : marks.length = n + 1) :
    marks.getLast? = some (marks.getD n false) := by
  rw [List.getLast?_eq_getElem?, hlength, Nat.add_sub_cancel, List.getD_eq_getElem _ _ (by omega),
    List.getElem?_eq_getElem]

/-- **Breaks of structure do not repaint, but no window is enough for them.** For every
swing window, appending rows leaves the cells of `bos` and `choch` as they are. For every
number of rows there is a frame in whose last row `bos` fires, while over that many of its
last rows it does not. -/
theorem break_columns :
    (∀ window, Causal fun rows : PriceRows => bos (rows.map Prod.fst) (rows.map Prod.snd) window) ∧
    (∀ window,
      Causal fun rows : PriceRows => choch (rows.map Prod.fst) (rows.map Prod.snd) window) ∧
    ∀ k, ∃ rows : PriceRows,
      (bos (rows.map Prod.fst) (rows.map Prod.snd) 5).getLast? = some true ∧
        (bos ((rows.rtake (k + 1)).map Prod.fst) ((rows.rtake (k + 1)).map Prod.snd) 5).getLast? =
          some false := by
  refine ⟨fun window => (causal_breaks window).1, fun window => (causal_breaks window).2,
    fun k => ⟨oldSwing k, ?_, ?_⟩⟩
  · have hlength : (oldSwing k).length = k + 12 := by
      rw [oldSwing, List.length_map, List.length_range]
    rw [getLast?_of_getD (length_bos.trans hlength), bos_oldSwing]
  · have hrecent : (oldSwing k).rtake (k + 1) = (oldSwing k).drop 11 := by
      rw [List.rtake, oldSwing, List.length_map, List.length_range]
      congr 1
      omega
    have hlength : ((oldSwing k).drop 11).length = k + 1 := by
      rw [List.length_drop, oldSwing, List.length_map, List.length_range]
      omega
    rw [hrecent, getLast?_of_getD (length_bos.trans hlength), Bool.eq_false_iff.mpr (bos_recent k)]

end Finbar.Indicators
