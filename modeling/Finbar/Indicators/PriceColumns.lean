/-
Finbar.Indicators.PriceColumns — the price-action columns of a frame of bars, and how
far they look back.

`priceColumns` are the columns that `handlers/price_action.py` registers with a
bounded lookback: each comes with the proof that a cell sees no more than the 49 bars
before it, the least that a window of the streaming engine holds.

No `sorry`, no `axiom`.
-/
import Finbar.Indicators.BillWilliams
import Finbar.Indicators.StructureBreakTheorems
import Finbar.Indicators.SupplyDemand
import Finbar.Indicators.VolumeSpread
import Finbar.Lib.Causal
import Finbar.Streaming.VsaSignalTheorems

namespace Finbar.Indicators

open Lib Lib.Python Lib.Series Finbar.Streaming

/-! ## §1 Reading a row -/

section Cells

variable {cells : List ℚ} {i n start stop window : ℕ} {factor : ℚ}

theorem slice_take (h : stop ≤ n) : slice (cells.take n) start stop = slice cells start stop := by
  unfold slice
  rw [List.take_take, Nat.min_eq_left h]

theorem slice_drop (d : ℕ) :
    slice (cells.drop d) start stop = slice cells (d + start) (d + stop) := by
  unfold slice
  rw [List.take_drop, List.drop_drop]

theorem belowMean_take (h : i < n) :
    belowMean window factor (cells.take n) i = belowMean window factor cells i := by
  unfold belowMean
  rw [rollingMean_take h, getD_take h]

theorem belowMean_drop (h : window ≤ i) (d : ℕ) :
    belowMean window factor (cells.drop d) i = belowMean window factor cells (d + i) := by
  unfold belowMean
  rw [rollingMean_drop h, getD_drop]

theorem aboveMean_take (h : i < n) :
    aboveMean window factor (cells.take n) i = aboveMean window factor cells i := by
  unfold aboveMean
  rw [rollingMean_take h, getD_take h]

theorem aboveMean_drop (h : window ≤ i) (d : ℕ) :
    aboveMean window factor (cells.drop d) i = aboveMean window factor cells (d + i) := by
  unfold aboveMean
  rw [rollingMean_drop h, getD_drop]

theorem averageMove_take (hfull : window ≤ i) (h : i < n) :
    averageMove (cells.take n) window i = averageMove cells window i := by
  unfold averageMove
  split
  · rfl
  · have hmoves : ((List.range' (i + 1 - window) window).map fun j =>
        |(cells.take n).getD j 0 - (cells.take n).getD (j - 1) 0|) =
        (List.range' (i + 1 - window) window).map fun j =>
          |cells.getD j 0 - cells.getD (j - 1) 0| := by
      refine List.map_congr_left fun j hj => ?_
      have hlt := (List.mem_range'_1.mp hj).2
      rw [getD_take (by omega), getD_take (by omega)]
    rw [hmoves]

theorem averageMove_drop (h : window + 1 ≤ i) (d : ℕ) :
    averageMove (cells.drop d) window i = averageMove cells window (d + i) := by
  unfold averageMove
  split
  · rfl
  · have hmoves : ((List.range' (i + 1 - window) window).map fun j =>
        |(cells.drop d).getD j 0 - (cells.drop d).getD (j - 1) 0|) =
        (List.range' (d + i + 1 - window) window).map fun j =>
          |cells.getD j 0 - cells.getD (j - 1) 0| := by
      have hstart : d + i + 1 - window = d + (i + 1 - window) := by omega
      rw [hstart, ← List.map_add_range', List.map_map]
      refine List.map_congr_left fun j hj => ?_
      have hle := (List.mem_range'_1.mp hj).1
      rw [getD_drop, getD_drop, Function.comp_apply, Nat.add_sub_assoc (by omega)]
    rw [hmoves]

theorem iloc_sub {j k : ℤ} (hj : 0 ≤ (i : ℤ) - j - k) {m : ℕ} (hm : (i : ℤ) - j - k = m) :
    iloc cells ((i : ℤ) - j - k) = cells.getD m 0 := by
  unfold iloc
  rw [if_neg (by omega), hm, Int.toNat_natCast]

end Cells

/-- A flag looks back as far as the rows that it compares. -/
theorem looksBack_flag {ρ : Type} {start k : ℕ} {fires : List ρ → ℕ → Bool} (hstart : start ≤ k)
    (htake : ∀ rows n i, start ≤ i → i < n → fires (rows.take n) i = fires rows i)
    (hdrop : ∀ rows d i, k ≤ i → fires (rows.drop d) i = fires rows (d + i)) :
    LooksBack k fun rows => flagFrom start rows.length (fires rows) := by
  refine LooksBack.of_cells (f := fun rows i => decide (start ≤ i) && fires rows i)
    (fun rows => length_flagFrom _ _ _) (fun rows i hi => flagFrom_getElem? start hi _)
    (fun rows n i hi => ?_) fun rows d i hi => ?_
  · by_cases hle : start ≤ i
    · rw [htake rows n i hle hi]
    · rw [decide_eq_false hle, Bool.false_and, Bool.false_and]
  · rw [hdrop rows d i hi, decide_eq_true (hstart.trans hi), decide_eq_true (by omega)]

/-- A column that is computed in the rows from `start` on. -/
theorem looksBack_from {ρ α : Type} {start k : ℕ} {missing : α} {cell : List ρ → ℕ → α}
    (hstart : start ≤ k)
    (htake : ∀ rows n i, start ≤ i → i < n → cell (rows.take n) i = cell rows i)
    (hdrop : ∀ rows d i, k ≤ i → cell (rows.drop d) i = cell rows (d + i)) :
    LooksBack k fun rows => (List.range rows.length).map fun i =>
      if start ≤ i then cell rows i else missing := by
  refine LooksBack.of_cells (f := fun rows i => if start ≤ i then cell rows i else missing)
    (fun rows => by rw [List.length_map, List.length_range]) (fun rows i hi => ?_)
    (fun rows n i hi => ?_) fun rows d i hi => ?_
  · rw [List.getElem?_map, List.getElem?_range hi, Option.map_some]
  · split
    · next hle => exact htake rows n i hle hi
    · rfl
  · rw [if_pos (hstart.trans hi), if_pos (by omega), hdrop rows d i hi]

/-! ## §2 The columns of a frame -/

section Columns

/-- `bars["high"]`, and so on. -/
abbrev highs (bars : List StreamBar) : List ℚ := bars.map StreamBar.high
abbrev lows (bars : List StreamBar) : List ℚ := bars.map StreamBar.low
abbrev closes (bars : List StreamBar) : List ℚ := bars.map StreamBar.close
abbrev volumes (bars : List StreamBar) : List ℚ := bars.map StreamBar.volume

theorem looksBack_bullishFvg :
    LooksBack 49 fun bars => bullishFvg (highs bars) (lows bars) := by
  simp only [bullishFvg, highs, lows, List.length_map]
  refine looksBack_flag (by decide) (fun bars n i hstart hi => ?_) fun bars d i hi => ?_
  · simp (disch := omega) only [List.map_take, getD_take]
  · simp (disch := omega) only [List.map_drop, getD_drop, Nat.add_sub_assoc]

theorem looksBack_bearishFvg :
    LooksBack 49 fun bars => bearishFvg (highs bars) (lows bars) := by
  simp only [bearishFvg, highs, lows, List.length_map]
  refine looksBack_flag (by decide) (fun bars n i hstart hi => ?_) fun bars d i hi => ?_
  · simp (disch := omega) only [List.map_take, getD_take]
  · simp (disch := omega) only [List.map_drop, getD_drop, Nat.add_sub_assoc]

theorem looksBack_orderBlock (impulse : ℚ → ℚ → ℚ) (turns : ℚ → ℚ → Bool) :
    LooksBack 49 fun bars => orderBlock impulse turns (closes bars) 5 := by
  simp only [orderBlock, closes, List.length_map]
  refine looksBack_flag (by decide) (fun bars n i hstart hi => ?_) fun bars d i hi => ?_
  · simp (disch := omega) only [List.map_take, getD_take, averageMove_take]
  · simp (disch := omega) only [List.map_drop, getD_drop, averageMove_drop, Nat.add_sub_assoc]

theorem looksBack_breakerBlock (turns breaks : ℚ → ℚ → Bool) (side : StreamBar → ℚ) :
    LooksBack 49 fun bars => breakerBlock turns breaks (bars.map side) (closes bars) 10 := by
  simp only [breakerBlock, closes, List.length_map]
  refine looksBack_flag (by decide) (fun bars n i hstart hi => ?_) fun bars d i hi => ?_
  · have hbefore : (i : ℤ) - 2 - 1 = (i - 3 : ℕ) := by omega
    rw [iloc_sub (by omega) hbefore, iloc_sub (by omega) hbefore]
    simp (disch := omega) only [List.map_take, getD_take]
  · have hbefore : (i : ℤ) - 2 - 1 = (i - 3 : ℕ) := by omega
    have hbefore' : ((d + i : ℕ) : ℤ) - 2 - 1 = (d + (i - 3) : ℕ) := by omega
    rw [iloc_sub (by omega) hbefore, iloc_sub (by omega) hbefore']
    simp (disch := omega) only [List.map_drop, getD_drop, Nat.add_sub_assoc]

theorem looksBack_sweep (extreme : List ℚ → Option ℚ) (outside inside : ℚ → ℚ → Bool)
    (side : StreamBar → ℚ) :
    LooksBack 49 fun bars => sweep extreme outside inside (bars.map side) (closes bars) 5 := by
  simp only [sweep, closes, List.length_map]
  refine looksBack_flag (by decide) (fun bars n i hstart hi => ?_) fun bars d i hi => ?_
  · simp (disch := omega) only [List.map_take, getD_take, slice_take]
  · simp (disch := omega) only [List.map_drop, getD_drop, slice_drop, Nat.add_sub_assoc]

theorem looksBack_noDemand : LooksBack 49 fun bars => noDemand (closes bars) (volumes bars) 5 := by
  simp only [noDemand, closes, volumes, List.length_map]
  refine looksBack_flag (by decide) (fun bars n i hstart hi => ?_) fun bars d i hi => ?_
  · simp (disch := omega) only [List.map_take, getD_take, belowMean_take]
  · simp (disch := omega) only [List.map_drop, getD_drop, belowMean_drop, Nat.add_sub_assoc]

theorem looksBack_noSupply : LooksBack 49 fun bars => noSupply (closes bars) (volumes bars) 5 := by
  simp only [noSupply, closes, volumes, List.length_map]
  refine looksBack_flag (by decide) (fun bars n i hstart hi => ?_) fun bars d i hi => ?_
  · simp (disch := omega) only [List.map_take, getD_take, belowMean_take]
  · simp (disch := omega) only [List.map_drop, getD_drop, belowMean_drop, Nat.add_sub_assoc]

theorem looksBack_effort (moves : ℚ → ℚ → Bool) : LooksBack 49 fun bars =>
    effort moves (highs bars) (lows bars) (closes bars) (volumes bars) 20 := by
  simp only [effort, highs, lows, closes, volumes, List.length_map]
  refine looksBack_flag (by decide) (fun bars n i hstart hi => ?_) fun bars d i hi => ?_
  · simp (disch := omega) only [List.map_take, getD_take, spreads_take, aboveMean_take]
  · simp (disch := omega) only [List.map_drop, getD_drop, spreads_drop, aboveMean_drop,
      Nat.add_sub_assoc]

theorem looksBack_effortResultDivergence : LooksBack 49 fun bars =>
    effortResultDivergence (highs bars) (lows bars) (volumes bars) 20 := by
  simp only [effortResultDivergence, highs, lows, volumes, List.length_map]
  refine looksBack_flag (by decide) (fun bars n i hstart hi => ?_) fun bars d i hi => ?_
  · simp (disch := omega) only [List.map_take, getD_take, spreads_take, rollingMean_take]
  · simp (disch := omega) only [List.map_drop, getD_drop, spreads_drop, rollingMean_drop]

theorem looksBack_bagHolding :
    LooksBack 49 fun bars => bagHolding (closes bars) (volumes bars) 5 := by
  simp only [bagHolding, closes, volumes, List.length_map]
  refine looksBack_flag (by decide) (fun bars n i hstart hi => ?_) fun bars d i hi => ?_
  · simp (disch := omega) only [List.map_take, getD_take, aboveMean_take]
  · simp (disch := omega) only [List.map_drop, getD_drop, aboveMean_drop, Nat.add_sub_assoc]

theorem looksBack_shakeout :
    LooksBack 49 fun bars => shakeout (lows bars) (closes bars) (volumes bars) 10 := by
  simp only [shakeout, lows, closes, volumes, List.length_map]
  refine looksBack_flag (by decide) (fun bars n i hstart hi => ?_) fun bars d i hi => ?_
  · simp (disch := omega) only [List.map_take, getD_take, slice_take, aboveMean_take]
  · simp (disch := omega) only [List.map_drop, getD_drop, slice_drop, aboveMean_drop,
      Nat.add_sub_assoc]

theorem looksBack_vsaTestSignal : LooksBack 49 fun bars =>
    vsaTestSignal (highs bars) (lows bars) (closes bars) (volumes bars) 20 := by
  simp only [vsaTestSignal, highs, lows, closes, volumes, List.length_map]
  refine looksBack_flag (by decide) (fun bars n i hstart hi => ?_) fun bars d i hi => ?_
  · simp (disch := omega) only [List.map_take, getD_take, spreads_take, rowsBefore_take,
      belowMean_take]
  · simp (disch := omega) only [List.map_drop, getD_drop, spreads_drop, rowsBefore_drop,
      belowMean_drop]

theorem looksBack_zoneEdge (left : ℚ → List ℚ → Bool) (edge : List ℚ → Option ℚ)
    (near prices : StreamBar → ℚ) : LooksBack 49 fun bars =>
      zoneEdge left edge (bars.map near) (bars.map prices) (closes bars) 5 := by
  simp only [zoneEdge, closes, List.length_map]
  refine looksBack_from (by decide) (fun bars n i hstart hi => ?_) fun bars d i hi => ?_
  · simp (disch := omega) only [List.map_take, getD_take, slice_take]
  · simp (disch := omega) only [List.map_drop, getD_drop, slice_drop, Nat.add_sub_assoc]

theorem looksBack_zoneScore (departs : ℚ → ℚ → Bool) (strong : ℚ) : LooksBack 49 fun bars =>
    zoneScore departs strong (highs bars) (lows bars) (closes bars) (volumes bars) 5 := by
  simp only [zoneScore, highs, lows, closes, volumes, List.length_map]
  refine looksBack_from (by decide) (fun bars n i hstart hi => ?_) fun bars d i hi => ?_
  · simp (disch := omega) only [zoneScoreAt, List.map_take, getD_take, spreads_take,
      rollingMean_take]
  · simp (disch := omega) only [zoneScoreAt, List.map_drop, getD_drop, spreads_drop,
      rollingMean_drop, Nat.add_sub_assoc]

theorem looksBack_zoneFailure (beyond : ℚ → List ℚ → Bool) (side : StreamBar → ℚ) :
    LooksBack 49 fun bars =>
      zoneFailure beyond (bars.map side) (closes bars) (volumes bars) 10 := by
  simp only [zoneFailure, closes, volumes, List.length_map]
  refine looksBack_flag (by decide) (fun bars n i hstart hi => ?_) fun bars d i hi => ?_
  · simp (disch := omega) only [List.map_take, getD_take, slice_take, rollingMean_take]
  · simp (disch := omega) only [List.map_drop, getD_drop, slice_drop, rollingMean_drop,
      Nat.add_sub_assoc]

end Columns

/-! ## §3 Swings and patterns -/

section Swings

variable {exceeds : ℚ → List ℚ → Bool} {prices : List ℚ}

theorem isPivot_take {n i m : ℕ} (h : i + n < m) :
    isPivot exceeds (prices.take m) n i = isPivot exceeds prices n i := by
  unfold isPivot
  rw [getD_take (by omega), slice_take (by omega), slice_take (by omega)]

theorem isPivot_drop {n i : ℕ} (h : n ≤ i) (d : ℕ) :
    isPivot exceeds (prices.drop d) n i = isPivot exceeds prices n (d + i) := by
  have hnext : d + (i + 1) = d + i + 1 := rfl
  have hstop : d + (i + n + 1) = d + i + n + 1 := by omega
  unfold isPivot
  rw [getD_drop, slice_drop, slice_drop, Nat.add_sub_assoc h, hnext, hstop]

/-- A swing is confirmed by what is up to `2 * n` rows back. -/
theorem looksBack_swings (exceeds : ℚ → List ℚ → Bool) (n : ℕ) :
    LooksBack (2 * n) fun prices => markConfirmed prices.length n (isPivot exceeds prices n) := by
  refine LooksBack.of_cells
    (f := fun prices c => decide (2 * n ≤ c) && isPivot exceeds prices n (c - n))
    (fun prices => length_markConfirmed _ _ _) (fun prices c hc => ?_) (fun prices m c hc => ?_)
    fun prices d c hc => ?_
  · have hmark := markConfirmed_getD prices.length n (isPivot exceeds prices n) c
    have hlength := length_markConfirmed prices.length n (isPivot exceeds prices n)
    rw [List.getElem?_eq_getElem (by omega), Option.some_inj, Bool.eq_iff_iff, Bool.and_eq_true,
      decide_eq_true_eq]
    rw [List.getD_eq_getElem _ _ (by omega)] at hmark
    exact hmark.trans ⟨fun h => ⟨h.1, h.2.2⟩, fun h => ⟨h.1, hc, h.2⟩⟩
  · by_cases hle : 2 * n ≤ c
    · rw [isPivot_take (by omega)]
    · rw [decide_eq_false hle, Bool.false_and, Bool.false_and]
  · rw [isPivot_drop (by omega), decide_eq_true hc, decide_eq_true (by omega),
      Nat.add_sub_assoc (by omega)]

/-- A column of the frame looks back on nothing. -/
theorem looksBack_cells {ρ α : Type} (side : ρ → α) : LooksBack 0 fun rows => rows.map side := by
  refine ⟨Causal.of_cells (fun rows => List.length_map _) fun rows later i hi => ?_,
    fun rows d i _ => ?_⟩
  · rw [List.map_append, List.getElem?_append_left (by rwa [List.length_map])]
  · rw [List.map_drop, List.getElem?_drop]

theorem looksBack_swingsOf (exceeds : ℚ → List ℚ → Bool) (n : ℕ) (side : StreamBar → ℚ) :
    LooksBack (2 * n) fun bars =>
      markConfirmed (bars.map side).length n (isPivot exceeds (bars.map side) n) :=
  ((looksBack_swings exceeds n).comp (looksBack_cells side)).mono (by omega)

/-- The prices of the marked rows among the last `lookback + 1`. -/
def markedPrices (lookback i : ℕ) (marked : List (ℚ × Bool)) : List ℚ :=
  ((marked.take (i + 1)).drop (i - lookback)).filterMap fun row => if row.2 then some row.1 else none

/-- Whether the latest two marked highs and the latest two marked lows advance. -/
def advancesAt (advances : ℚ → ℚ → Bool) (lookback : ℕ) (rows : List ((ℚ × Bool) × (ℚ × Bool)))
    (i : ℕ) : Bool :=
  match latestTwo (markedPrices lookback i (rows.map Prod.fst)),
      latestTwo (markedPrices lookback i (rows.map Prod.snd)) with
  | some (latestHigh, priorHigh), some (latestLow, priorLow) =>
      advances latestHigh priorHigh && advances latestLow priorLow
  | _, _ => false

theorem looksBack_advances (advances : ℚ → ℚ → Bool) (lookback : ℕ) : LooksBack lookback
    fun rows => (List.range rows.length).map fun i =>
      if lookback ≤ i then advancesAt advances lookback rows i else false := by
  refine looksBack_from le_rfl (fun rows n i hstart hi => ?_) fun rows d i hi => ?_
  · have hrows : ∀ marked : List (ℚ × Bool),
        markedPrices lookback i (marked.take n) = markedPrices lookback i marked := by
      intro marked
      unfold markedPrices
      rw [List.take_take, Nat.min_eq_left hi]
    unfold advancesAt
    rw [List.map_take, List.map_take, hrows, hrows]
  · have hrows : ∀ marked : List (ℚ × Bool),
        markedPrices lookback i (marked.drop d) = markedPrices lookback (d + i) marked := by
      intro marked
      unfold markedPrices
      rw [List.take_drop, List.drop_drop, Nat.add_sub_assoc hi, Nat.add_assoc]
    unfold advancesAt
    rw [List.map_drop, List.map_drop, hrows, hrows]

/-- The pattern is read off the prices beside their marks. -/
theorem patternOf_eq (advances : ℚ → ℚ → Bool) {high low : List ℚ}
    (hlength : low.length = high.length) (lookback : ℕ) :
    patternOf advances high low lookback =
      (List.range ((high.zip (swingHighN high (swingWindow lookback))).zip
        (low.zip (swingLowN low (swingWindow lookback)))).length).map fun i =>
          if lookback ≤ i then
            advancesAt advances lookback ((high.zip (swingHighN high (swingWindow lookback))).zip
              (low.zip (swingLowN low (swingWindow lookback)))) i
          else false := by
  have hsh : (swingHighN high (swingWindow lookback)).length = high.length :=
    length_markConfirmed _ _ _
  have hsl : (swingLowN low (swingWindow lookback)).length = low.length :=
    length_markConfirmed _ _ _
  have hhighs : (high.zip (swingHighN high (swingWindow lookback))).length = high.length := by
    rw [List.length_zip, hsh, Nat.min_self]
  have hlows : (low.zip (swingLowN low (swingWindow lookback))).length = high.length := by
    rw [List.length_zip, hsl, Nat.min_self, hlength]
  unfold patternOf
  rw [List.length_zip, hhighs, hlows, Nat.min_self]
  refine List.map_congr_left fun i _ => ?_
  unfold patternAt advancesAt
  rw [List.map_fst_zip (by omega), List.map_snd_zip (by omega)]
  by_cases hle : lookback ≤ i
  · rw [if_pos hle, decide_eq_true hle, Bool.true_and]
    rfl
  · rw [if_neg hle, decide_eq_false hle, Bool.false_and]

theorem looksBack_pattern (advances : ℚ → ℚ → Bool) :
    LooksBack 49 fun bars => patternOf advances (highs bars) (lows bars) 20 := by
  have hmarked (exceeds : ℚ → List ℚ → Bool) (side : StreamBar → ℚ) :=
    (looksBack_cells side).zip (looksBack_swingsOf exceeds (swingWindow 20) side)
  have hrows := (hmarked aboveAll StreamBar.high).zip (hmarked belowAll StreamBar.low)
  have hpattern := ((looksBack_advances advances 20).comp hrows).mono (show _ ≤ 49 by decide)
  refine cast (congrArg (LooksBack 49) (funext fun bars => ?_)) hpattern
  exact (patternOf_eq advances (by rw [List.length_map, List.length_map]) 20).symm

end Swings

/-! ## §4 Oscillators -/

section Oscillators

theorem medians_take (rows : List (ℚ × ℚ)) (n : ℕ) : medians (rows.take n) = (medians rows).take n :=
  List.map_take

theorem medians_drop (rows : List (ℚ × ℚ)) (d : ℕ) : medians (rows.drop d) = (medians rows).drop d :=
  List.map_drop

/-- A column that is computed in every row. -/
theorem looksBack_map_range {ρ α : Type} {k : ℕ} {cell : List ρ → ℕ → α}
    (htake : ∀ rows n i, i < n → cell (rows.take n) i = cell rows i)
    (hdrop : ∀ rows d i, k ≤ i → cell (rows.drop d) i = cell rows (d + i)) :
    LooksBack k fun rows => (List.range rows.length).map (cell rows) := by
  refine LooksBack.of_cells (fun rows => by rw [List.length_map, List.length_range])
    (fun rows i hi => ?_) htake hdrop
  rw [List.getElem?_map, List.getElem?_range hi, Option.map_some]

theorem looksBack_awesomeOscillator : LooksBack 34 awesomeOscillator := by
  refine looksBack_map_range (fun rows n i hi => ?_) fun rows d i hi => ?_
  · rw [medians_take, rollingMean_take hi, rollingMean_take hi]
  · rw [medians_drop, rollingMean_drop (by omega), rollingMean_drop hi]

theorem getD_none_take {cells : List (Option ℚ)} {i n : ℕ} (h : i < n) :
    (cells.take n).getD i none = cells.getD i none := by
  rw [List.getD_eq_getElem?_getD, List.getElem?_take_of_lt h, ← List.getD_eq_getElem?_getD]

theorem getD_none_drop {cells : List (Option ℚ)} {i : ℕ} (d : ℕ) :
    (cells.drop d).getD i none = cells.getD (d + i) none := by
  rw [List.getD_eq_getElem?_getD, List.getElem?_drop, ← List.getD_eq_getElem?_getD]

theorem rollingMeanOf_take {window : ℕ} {cells : List (Option ℚ)} {i n : ℕ} (h : i < n) :
    rollingMeanOf window (cells.take n) i = rollingMeanOf window cells i := by
  unfold rollingMeanOf
  rw [rowsBefore_take (by omega)]

theorem rollingMeanOf_drop {window : ℕ} {cells : List (Option ℚ)} {i : ℕ} (h : window ≤ i)
    (d : ℕ) : rollingMeanOf window (cells.drop d) i = rollingMeanOf window cells (d + i) := by
  unfold rollingMeanOf
  rw [rowsBefore_drop (by omega), if_pos (by omega), if_pos (by omega), Nat.add_assoc]

theorem looksBack_acceleration : LooksBack 5 acceleration := by
  refine looksBack_map_range (fun cells n i hi => ?_) fun cells d i hi => ?_
  · rw [getD_none_take hi, rollingMeanOf_take hi]
  · rw [getD_none_drop, rollingMeanOf_drop hi]

theorem looksBack_acceleratorOscillator : LooksBack 39 acceleratorOscillator :=
  looksBack_acceleration.comp looksBack_awesomeOscillator

theorem risesAt_take {cells : List (Option ℚ)} {i n : ℕ} (h : i < n) :
    risesAt (cells.take n) i = risesAt cells i := by
  unfold risesAt
  rw [getD_none_take h, getD_none_take (by omega)]

theorem risesAt_drop {cells : List (Option ℚ)} {i : ℕ} (h : 1 ≤ i) (d : ℕ) :
    risesAt (cells.drop d) i = risesAt cells (d + i) := by
  unfold risesAt
  rw [getD_none_drop, getD_none_drop, if_neg (by omega), if_neg (by omega), Nat.add_sub_assoc h]

theorem looksBack_signalOf : LooksBack 1 signalOf := by
  refine looksBack_map_range (fun rows n i hi => ?_) fun rows d i hi => ?_
  · simp only [List.map_take, getD_none_take hi, risesAt_take hi]
  · simp only [List.map_drop, getD_none_drop, risesAt_drop hi]

theorem looksBack_zoneSignal : LooksBack 40 zoneSignal :=
  looksBack_signalOf.comp (looksBack_awesomeOscillator.zip looksBack_acceleratorOscillator)

end Oscillators

/-! ## §5 The registered columns -/

/-- A column that a window of 50 bars is enough for. -/
structure PriceColumn where
  name : String
  column : List StreamBar → List PyValue
  looksBack : LooksBack 49 column

/-- A column of flags. -/
def PriceColumn.ofFlags (name : String) (flags : List StreamBar → List Bool)
    (h : LooksBack 49 flags) : PriceColumn where
  name := name
  column := fun bars => (flags bars).map PyValue.bool
  looksBack := h.map _

/-- A column of prices; a missing one is NaN. -/
def PriceColumn.ofPrices (name : String) (prices : List StreamBar → List (Option ℚ))
    (h : LooksBack 49 prices) : PriceColumn where
  name := name
  column := fun bars => (prices bars).map floatValue
  looksBack := h.map _

/-- A column of scores. -/
def PriceColumn.ofScores (name : String) (scores : List StreamBar → List ℕ)
    (h : LooksBack 49 scores) : PriceColumn where
  name := name
  column := fun bars => (scores bars).map fun (score : ℕ) => PyValue.ofRat (score : ℚ)
  looksBack := h.map _

/-- The highs and lows, bar by bar. -/
def highLow (bar : StreamBar) : ℚ × ℚ := (bar.high, bar.low)

/-- The columns of `smc_price_action.py` that look back on a bounded number of bars. -/
def smcColumns : List PriceColumn :=
  [.ofFlags "bullish_fvg" (fun bars => bullishFvg (highs bars) (lows bars)) looksBack_bullishFvg,
    .ofFlags "bearish_fvg" (fun bars => bearishFvg (highs bars) (lows bars)) looksBack_bearishFvg,
    .ofFlags "bullish_order_block" (fun bars => bullishOrderBlock (closes bars) 5)
      (looksBack_orderBlock _ _),
    .ofFlags "bearish_order_block" (fun bars => bearishOrderBlock (closes bars) 5)
      (looksBack_orderBlock _ _),
    .ofFlags "breaker_block_bullish"
      (fun bars => breakerBlockBullish (highs bars) (closes bars) 10)
      (looksBack_breakerBlock _ _ StreamBar.high),
    .ofFlags "breaker_block_bearish"
      (fun bars => breakerBlockBearish (lows bars) (closes bars) 10)
      (looksBack_breakerBlock _ _ StreamBar.low),
    .ofFlags "liquidity_sweep_high" (fun bars => liquiditySweepHigh (highs bars) (closes bars) 5)
      (looksBack_sweep _ _ _ StreamBar.high),
    .ofFlags "liquidity_sweep_low" (fun bars => liquiditySweepLow (lows bars) (closes bars) 5)
      (looksBack_sweep _ _ _ StreamBar.low)]

/-- The swings and patterns of `trend_structure.py`. -/
def trendColumns : List PriceColumn :=
  [.ofFlags "swing_high_n" (fun bars => swingHighN (highs bars) 5)
      ((looksBack_swingsOf aboveAll 5 StreamBar.high).mono (by decide)),
    .ofFlags "swing_low_n" (fun bars => swingLowN (lows bars) 5)
      ((looksBack_swingsOf belowAll 5 StreamBar.low).mono (by decide)),
    .ofFlags "hh_hl_pattern" (fun bars => hhHlPattern (highs bars) (lows bars) 20)
      (looksBack_pattern _),
    .ofFlags "lh_ll_pattern" (fun bars => lhLlPattern (highs bars) (lows bars) 20)
      (looksBack_pattern _)]

/-- A cell of a column of fractals. -/
def fractalValue : Option Bool → PyValue
  | some mark => .bool mark
  | none => .none

/-- The columns of `bill_williams_indicators.py`, the alligator's apart. -/
def williamsColumns : List PriceColumn :=
  [.ofPrices "awesome_oscillator" (fun bars => awesomeOscillator (bars.map highLow))
      ((looksBack_awesomeOscillator.comp (looksBack_cells highLow)).mono (by decide)),
    .ofPrices "accelerator_oscillator" (fun bars => acceleratorOscillator (bars.map highLow))
      ((looksBack_acceleratorOscillator.comp (looksBack_cells highLow)).mono (by decide)),
    { name := "zone_signal"
      column := fun bars => (zoneSignal (bars.map highLow)).map fun signal => .str signal.text
      looksBack :=
        ((looksBack_zoneSignal.comp (looksBack_cells highLow)).map _).mono (by decide) },
    { name := "williams_fractal_high"
      column := fun bars => (williamsFractalHigh (highs bars) 2).map fractalValue
      looksBack :=
        (((looksBack_swingsOf aboveAll 2 StreamBar.high).map _).map _).mono (by decide) },
    { name := "williams_fractal_low"
      column := fun bars => (williamsFractalLow (lows bars) 2).map fractalValue
      looksBack :=
        (((looksBack_swingsOf belowAll 2 StreamBar.low).map _).map _).mono (by decide) }]

/-- The columns of `vsa_signals.py`, without stopping volume and climax volume. -/
def vsaColumns : List PriceColumn :=
  [.ofFlags "no_demand" (fun bars => noDemand (closes bars) (volumes bars) 5) looksBack_noDemand,
    .ofFlags "no_supply" (fun bars => noSupply (closes bars) (volumes bars) 5) looksBack_noSupply,
    .ofFlags "effort_to_rise"
      (fun bars => effortToRise (highs bars) (lows bars) (closes bars) (volumes bars) 20)
      (looksBack_effort _),
    .ofFlags "effort_to_fall"
      (fun bars => effortToFall (highs bars) (lows bars) (closes bars) (volumes bars) 20)
      (looksBack_effort _),
    .ofFlags "effort_result_divergence"
      (fun bars => effortResultDivergence (highs bars) (lows bars) (volumes bars) 20)
      looksBack_effortResultDivergence,
    .ofFlags "bag_holding" (fun bars => bagHolding (closes bars) (volumes bars) 5)
      looksBack_bagHolding,
    .ofFlags "shakeout" (fun bars => shakeout (lows bars) (closes bars) (volumes bars) 10)
      looksBack_shakeout,
    .ofFlags "vsa_test_signal"
      (fun bars => vsaTestSignal (highs bars) (lows bars) (closes bars) (volumes bars) 20)
      looksBack_vsaTestSignal]

/-- The columns of `supply_demand_zones.py`. -/
def zoneColumns : List PriceColumn :=
  [.ofPrices "demand_zone_low" (fun bars => demandZoneLow (lows bars) (closes bars) 5)
      (looksBack_zoneEdge _ _ StreamBar.low StreamBar.low),
    .ofPrices "demand_zone_high"
      (fun bars => demandZoneHigh (highs bars) (lows bars) (closes bars) 5)
      (looksBack_zoneEdge _ _ StreamBar.low StreamBar.high),
    .ofScores "demand_zone_score"
      (fun bars => demandZoneScore (highs bars) (lows bars) (closes bars) (volumes bars) 5)
      (looksBack_zoneScore _ _),
    .ofPrices "supply_zone_low" (fun bars => supplyZoneLow (highs bars) (lows bars) (closes bars) 5)
      (looksBack_zoneEdge _ _ StreamBar.high StreamBar.low),
    .ofPrices "supply_zone_high" (fun bars => supplyZoneHigh (highs bars) (closes bars) 5)
      (looksBack_zoneEdge _ _ StreamBar.high StreamBar.high),
    .ofScores "supply_zone_score"
      (fun bars => supplyZoneScore (highs bars) (lows bars) (closes bars) (volumes bars) 5)
      (looksBack_zoneScore _ _),
    .ofFlags "zone_failure_bullish"
      (fun bars => zoneFailureBullish (highs bars) (closes bars) (volumes bars) 10)
      (looksBack_zoneFailure _ StreamBar.high),
    .ofFlags "zone_failure_bearish"
      (fun bars => zoneFailureBearish (lows bars) (closes bars) (volumes bars) 10)
      (looksBack_zoneFailure _ StreamBar.low)]

/-- The columns with a bounded lookback. -/
def priceColumns : List PriceColumn :=
  smcColumns ++ trendColumns ++ williamsColumns ++ vsaColumns ++ zoneColumns

/-- The column of a name. -/
def PriceColumn.find (name : String) : Option PriceColumn :=
  priceColumns.find? fun column => column.name = name

end Finbar.Indicators
