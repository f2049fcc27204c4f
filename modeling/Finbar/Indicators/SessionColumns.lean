/-
Finbar.Indicators.SessionColumns — the opening range of a day, as a column.

`handlers/inside_bar.py` takes the first bars of each calendar day, an hour of them for the
usual intervals, and gives their levels to every bar of the day, to those before the hour is
over too. `ibColumn_causalAt_iff` says which cells of the column see later bars.

No `sorry`, no `axiom`.
-/
import Finbar.Lib.Sessions
import Finbar.Streaming.Windowed
import Mathlib.Data.List.Dedup

namespace Finbar.Indicators

open Lib Lib.Python Lib.Sessions Finbar.Streaming

/-! ## §1 The initial balance -/

/-- `index.date`: the number of the day; a label that is not a time has none. -/
def rowDate (row : FrameRow) : Option ℤ :=
  row.index.map (· / 86400000000000)

/-- Bars per initial balance period for common intervals. -/
def IB_BARS_MAP : List (String × ℕ) := [("5min", 12), ("15min", 4), ("30min", 2), ("1h", 1)]

def DEFAULT_IB_BARS : ℕ := 2

def IB_MINUTES_MAP : List (String × ℚ) := [("5min", 5), ("15min", 15), ("30min", 30), ("1h", 60)]

/-- How many bars make up the initial balance period, by the first two labels. -/
def getIbBars : List FrameRow → ℕ
  | first :: second :: _ =>
      match first.index, second.index with
      | some start, some next =>
          -- `delta.total_seconds() / 60`, of labels in nanoseconds
          let minutes : ℚ := (next - start : ℤ) / 1000000000 / 60
          let matching := IB_BARS_MAP.find? fun entry =>
            |minutes - (IB_MINUTES_MAP.lookup entry.1).getD 0| < 2
          (matching.map Prod.snd).getD DEFAULT_IB_BARS
      | _, _ => DEFAULT_IB_BARS
  | _ => 1

/-- The levels of an opening range. -/
structure InitialBalance where
  high : ℚ
  low : ℚ
  deriving DecidableEq

namespace InitialBalance

def range (ib : InitialBalance) : ℚ := ib.high - ib.low

def midpoint (ib : InitialBalance) : ℚ := (ib.high + ib.low) / 2

end InitialBalance

/-- `first["high"].max()` and `first["low"].min()`, of the first `ibBars` bars of a day. -/
def openingRange (ibBars : ℕ) (group : List FrameRow) : Option InitialBalance :=
  if ibBars ≤ group.length then
    let first := (group.take ibBars).map FrameRow.bar
    some
      { high := (first.map StreamBar.high).max?.getD 0
        low := (first.map StreamBar.low).min?.getD 0 }
  else none

/-- `df.groupby(date_series)`; rows without a date are in no group. -/
def groupByDate (rows : List FrameRow) : List (ℤ × List FrameRow) :=
  (rows.filterMap rowDate).dedup.map fun date => (date, session rowDate rows (some date))

/-- The opening range of each day that has bars enough, in every row of the day. -/
def computeTrueIb (rows : List FrameRow) (ibBars : ℕ) : List (Option InitialBalance) :=
  let levels := (groupByDate rows).filterMap fun group =>
    (openingRange ibBars group.2).map fun ib => (group.1, ib)
  rows.map fun row => (rowDate row).bind fun date => levels.lookup date

/-- The columns `ib_high`, `ib_low`, `ib_range` and `ib_midpoint`: one level of the range. -/
def ibColumn (level : InitialBalance → ℚ) (rows : List FrameRow) : List PyValue :=
  (computeTrueIb rows (getIbBars rows)).map fun ib => floatValue (ib.map level)

def ibHigh : List FrameRow → List PyValue := ibColumn InitialBalance.high

def ibLow : List FrameRow → List PyValue := ibColumn InitialBalance.low

def ibRange : List FrameRow → List PyValue := ibColumn InitialBalance.range

def ibMidpoint : List FrameRow → List PyValue := ibColumn InitialBalance.midpoint

/-! ## §2 Day by day -/

variable {rows : List FrameRow} {row : FrameRow} {i k : ℕ} {level : InitialBalance → ℚ}

/-- The cell of a day, from its bars. -/
def ibCell (level : InitialBalance → ℚ) (ibBars : ℕ) (date : Option ℤ) (group : List FrameRow) :
    PyValue :=
  floatValue ((date.bind fun _ => openingRange ibBars group).map level)

/-- A day that has rows is looked up. -/
theorem lookup_levels (k : ℕ) {date : ℤ} {row : FrameRow} (hrow : row ∈ rows)
    (hdate : rowDate row = some date) :
    List.lookup date ((groupByDate rows).filterMap fun group =>
        (openingRange k group.2).map fun ib => (group.1, ib)) =
      openingRange k (session rowDate rows (some date)) := by
  have hmem : date ∈ (rows.filterMap rowDate).dedup :=
    List.mem_dedup.mpr (List.mem_filterMap.mpr ⟨row, hrow, hdate⟩)
  have hnodup := List.nodup_dedup (rows.filterMap rowDate)
  unfold groupByDate
  generalize (rows.filterMap rowDate).dedup = dates at hmem hnodup
  -- the days are distinct: the first entry for the day is the day's
  have hnone : ∀ dates : List ℤ, date ∉ dates →
      List.lookup date ((dates.map fun d => (d, session rowDate rows (some d))).filterMap
        fun group => (openingRange k group.2).map fun ib => (group.1, ib)) = none := by
    intro dates hdate
    rw [List.lookup_eq_none_iff]
    intro entry hentry
    obtain ⟨group, hgroup, hib⟩ := List.mem_filterMap.mp hentry
    obtain ⟨d, hd, rfl⟩ := List.mem_map.mp hgroup
    obtain ⟨ib, -, rfl⟩ := Option.map_eq_some_iff.mp hib
    have hne : date ≠ d := fun heq => hdate (heq ▸ hd)
    simpa using hne
  induction dates with
  | nil => cases hmem
  | cons first dates ih =>
      obtain ⟨hfirst, hrest⟩ := List.nodup_cons.mp hnodup
      rw [List.map_cons, List.filterMap_cons]
      rcases List.mem_cons.mp hmem with rfl | hmem
      · cases hib : openingRange k (session rowDate rows (some date)) with
        | none => simpa using hnone dates hfirst
        | some ib => simp
      · have hne : date ≠ first := fun heq => hfirst (heq ▸ hmem)
        cases hib : openingRange k (session rowDate rows (some first)) with
        | none => simpa using ih hmem hrest
        | some ib => simpa [List.lookup_cons, beq_false_of_ne hne] using ih hmem hrest

/-- The column is computed day by day. -/
theorem map_computeTrueIb (level : InitialBalance → ℚ) (k : ℕ) (rows : List FrameRow) :
    (computeTrueIb rows k).map (fun ib => floatValue (ib.map level)) =
      sessionColumn rowDate (fun date group _ => ibCell level k date group) rows := by
  refine List.ext_getElem? fun i => ?_
  cases hrow : rows[i]? with
  | none =>
      have hle : rows.length ≤ i := List.getElem?_eq_none_iff.mp hrow
      rw [List.getElem?_eq_none (by simpa [computeTrueIb] using hle),
        List.getElem?_eq_none (by simpa using hle)]
  | some row =>
      rw [getElem?_sessionColumn hrow]
      simp only [computeTrueIb, List.map_map, List.getElem?_map, hrow, Option.map_some,
        Function.comp_apply, ibCell]
      cases hdate : rowDate row with
      | none => rfl
      | some date =>
          rw [Option.bind_some, Option.bind_some,
            lookup_levels k (List.mem_of_getElem? hrow) hdate]

/-- The cell of a row. -/
theorem getElem?_ibColumn (h : rows[i]? = some row) :
    (ibColumn level rows)[i]? = some
      (ibCell level (getIbBars rows) (rowDate row) (session rowDate rows (rowDate row))) := by
  rw [ibColumn, map_computeTrueIb, getElem?_sessionColumn h]

theorem openingRange_append {group : List FrameRow} (h : k ≤ group.length)
    (more : List FrameRow) : openingRange k (group ++ more) = openingRange k group := by
  have hlong : k ≤ (group ++ more).length := by
    rw [List.length_append]
    omega
  rw [openingRange, openingRange, if_pos h, if_pos hlong, List.take_append_of_le_length h]

theorem openingRange_isSome_iff {group : List FrameRow} :
    (openingRange k group).isSome ↔ k ≤ group.length := by
  unfold openingRange
  split
  · simpa
  · simpa using Nat.lt_of_not_le ‹_›

/-! ## §3 What the column sees -/

/-- The first two labels settle the period. -/
theorem getIbBars_take (rows : List FrameRow) {n : ℕ} (h : 2 ≤ n) :
    getIbBars (rows.take n) = getIbBars rows := by
  obtain ⟨n, rfl⟩ := Nat.exists_eq_add_of_le' h
  match rows with
  | [] => rfl
  | [_] => rfl
  | _ :: _ :: _ => rfl

/-- Five minutes later. -/
theorem getIbBars_five (row : FrameRow) {start : ℤ} (h : row.index = some start) :
    getIbBars [row, { row with index := some (start + 300000000000) }] = 12 := by
  have hminutes : ((start + 300000000000 - start : ℤ) : ℚ) / 1000000000 / 60 = 5 := by
    rw [add_sub_cancel_left]
    norm_num
  unfold getIbBars
  simp only [h, hminutes]
  decide +kernel

theorem ibCell_eq_nan_iff {date : ℤ} {group : List FrameRow} :
    ibCell level k (some date) group = nan ↔ group.length < k := by
  rw [ibCell, Option.bind_some, ← not_le, ← openingRange_isSome_iff]
  cases openingRange k group with
  | none => simp [floatValue]
  | some ib => simp [floatValue, nan]

/-- The first bar's cell changes as soon as there is a second bar. -/
theorem ibColumn_not_causalAt_zero {start : ℤ} (h : rows[0]? = some row)
    (hindex : row.index = some start) : ¬CausalAt (ibColumn level) rows 0 := by
  intro hcausal
  have htake : rows.take 1 = [row] := by
    rw [List.take_one, List.head?_eq_getElem?, h]
    rfl
  have hdate : rowDate row = some (start / 86400000000000) := by rw [rowDate, hindex, Option.map_some]
  obtain ⟨later, hlater⟩ : ∃ later, getIbBars [row, later] = 12 :=
    ⟨_, getIbBars_five row hindex⟩
  have halone := hcausal [row] htake.symm
  rw [← hcausal [row, later] htake.symm, getElem?_ibColumn rfl, getElem?_ibColumn rfl, hlater] at halone
  have hsame := Option.some.inj halone
  rw [hdate] at hsame
  -- alone the bar is its own range; with a second one a range takes twelve bars
  have hmissing : ibCell level 12 (some (start / 86400000000000))
      (session rowDate [row, later] (some (start / 86400000000000))) = nan := by
    rw [ibCell_eq_nan_iff]
    have hle : (session rowDate [row, later] (some (start / 86400000000000))).length ≤ 2 :=
      List.length_filter_le ..
    omega
  rw [hmissing, ibCell_eq_nan_iff] at hsame
  simp [session, hdate, getIbBars] at hsame

/-- **Which cells of the opening range look ahead**: those of the first bar, and those of the
bars before the range is complete. From then on no later bar changes a cell. -/
theorem ibColumn_causalAt_iff (level : InitialBalance → ℚ) (rows : List FrameRow) (i : ℕ)
    (row : FrameRow) (h : rows[i]? = some row) :
    CausalAt (ibColumn level) rows i ↔ row.index = none ∨
      1 ≤ i ∧ getIbBars rows ≤ (session rowDate (rows.take (i + 1)) (rowDate row)).length := by
  cases hindex : row.index with
  | none =>
      refine ⟨fun _ => .inl rfl, fun _ rows' htake => ?_⟩
      have hrow : rows'[i]? = some row := by
        rw [← List.getElem?_take_of_lt (Nat.lt_succ_self i), htake,
          List.getElem?_take_of_lt (Nat.lt_succ_self i), h]
      have hdate : rowDate row = none := by rw [rowDate, hindex, Option.map_none]
      rw [getElem?_ibColumn h, getElem?_ibColumn hrow, hdate]
      rfl
  | some start =>
      rw [or_iff_right (Option.some_ne_none start)]
      cases i with
      | zero =>
          exact ⟨fun hcausal => absurd hcausal (ibColumn_not_causalAt_zero h hindex),
            fun hlong => absurd hlong.1 (by decide)⟩
      | succ i =>
          have hdate : rowDate row = some (start / 86400000000000) := by
            rw [rowDate, hindex, Option.map_some]
          have hfixed : ∀ rows' : List FrameRow, rows'.take (i + 1 + 1) = rows.take (i + 1 + 1) →
              (ibColumn level rows')[i + 1]? =
                (sessionColumn rowDate (fun date group _ =>
                  ibCell level (getIbBars rows) date group) rows')[i + 1]? := by
            intro rows' htake
            have htwo : 2 ≤ i + 1 + 1 := by omega
            rw [ibColumn, map_computeTrueIb, ← getIbBars_take rows' htwo, htake,
              getIbBars_take rows htwo]
          rw [causalAt_congr hfixed, causalAt_iff h, hdate]
          constructor
          · intro hstable
            refine ⟨Nat.succ_pos i, not_lt.mp fun hshort => ?_⟩
            -- more bars of the day complete the range
            have hlong := hstable (List.replicate (getIbBars rows) row) fun later hlater => by
              rw [List.eq_of_mem_replicate hlater, hdate]
            rw [ibCell_eq_nan_iff.mpr hshort, ibCell_eq_nan_iff, List.length_append,
              List.length_replicate] at hlong
            omega
          · rintro ⟨-, hlong⟩ more -
            rw [ibCell, ibCell, Option.bind_some, Option.bind_some, openingRange_append hlong]

/-- Two bars of a day, five minutes apart. -/
def twoBars : List FrameRow :=
  [{ index := some 0, bar := ⟨10, 10, 10, 10, 1, none, []⟩ },
    { index := some 300000000000, bar := ⟨12, 12, 12, 12, 1, none, []⟩ }]

/-- The second bar of an hour is too early. -/
theorem ibColumn_causalAt_iff_second : ¬CausalAt (ibColumn InitialBalance.high) twoBars 1 := by
  intro hcausal
  have hcell := (ibColumn_causalAt_iff InitialBalance.high twoBars 1 twoBars[1] rfl).mp hcausal
  revert hcell
  simp only [twoBars, List.getElem_cons_succ, List.getElem_cons_zero]
  decide +kernel

end Finbar.Indicators
