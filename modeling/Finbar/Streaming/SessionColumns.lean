/-
Finbar.Streaming.SessionColumns — the columns of a session in the engine.

The opening range and the bands of a session are computed over a window of 50 bars or more.
A session that is longer than the window starts anew with the window's first bar: the engine
reports the cell of the part of the session that is in the window (`session_reported`). It
is the batch cell as long as the window holds the whole session.

No `sorry`, no `axiom`.
-/
import Finbar.Indicators.VwapBands
import Finbar.Streaming.PriceColumns

namespace Finbar.Streaming

open Lib Lib.Python Lib.Run Lib.Sessions Finbar.Indicators

/-! ## §1 The columns -/

/-- The rows of a frame: each bar with its label. -/
def labelled (time : StreamBar → Option ℤ) (bars : List StreamBar) : List FrameRow :=
  bars.map fun bar => { index := time bar, bar := bar }

/-- No two rows have the same label. -/
def DistinctLabels (rows : List FrameRow) : Prop := (rows.filterMap FrameRow.index).Nodup

instance (rows : List FrameRow) : Decidable (DistinctLabels rows) :=
  inferInstanceAs (Decidable (List.Nodup _))

/-- A registered column whose last cell is computed from the last row's session: from the
period of an opening range, the date and the rows of the session. -/
structure SessionColumn where
  name : String
  column : List FrameRow → List PyValue
  cell : ℕ → Option ℤ → List FrameRow → PyValue
  last : ∀ {rows row}, DistinctLabels rows → rows.getLast? = some row →
    (column rows).getLast? =
      some (cell (getIbBars rows) (rowDate row) (session rowDate rows (rowDate row)))

/-- A level of the opening range. -/
def SessionColumn.ofLevel (name : String) (level : InitialBalance → ℚ) : SessionColumn where
  name := name
  column := ibColumn level
  cell := fun ibBars date group => ibCell level ibBars date group
  last := fun _ hlast => by
    rw [ibColumn, map_computeTrueIb, getLast?_sessionColumn hlast]

/-- One of the bands; a frame that raises has NaN. -/
def vwapColumn (sqrt : ℚ → ℚ) (band : VwapBands → Option ℚ) (rows : List FrameRow) :
    List PyValue :=
  ((computeVwapSessionBands sqrt rows).getD []).map fun cells => floatValue (band cells)

/-- One of the bands of the session's price. -/
def SessionColumn.ofBand (sqrt : ℚ → ℚ) (name : String) (band : VwapBands → Option ℚ) :
    SessionColumn where
  name := name
  column := vwapColumn sqrt band
  cell := fun _ date group => floatValue (band (date.elim .missing fun _ =>
    (sessionBands sqrt group).getD (group.length - 1) .missing))
  last := fun {rows row} hlabels hlast => by
    have hlabels' : (rows.filterMap FrameRow.index).Nodup := hlabels
    rw [vwapColumn, computeVwapSessionBands, if_pos hlabels', Option.getD_some, List.getLast?_map,
      getLast?_sessionColumn hlast, Option.map_some]
    cases rowDate row with
    | none => rfl
    | some date => rfl

/-- The columns of `handlers/inside_bar.py` and `handlers/vwap_bands.py` that go by sessions. -/
def sessionColumns (sqrt : ℚ → ℚ) : List SessionColumn :=
  [.ofLevel "ib_high" InitialBalance.high, .ofLevel "ib_low" InitialBalance.low,
    .ofLevel "ib_range" InitialBalance.range, .ofLevel "ib_midpoint" InitialBalance.midpoint,
    .ofBand sqrt "vwap_session" VwapBands.vwapSession,
    .ofBand sqrt "vwap_upper_1" VwapBands.vwapUpper1,
    .ofBand sqrt "vwap_lower_1" VwapBands.vwapLower1,
    .ofBand sqrt "vwap_upper_2" VwapBands.vwapUpper2,
    .ofBand sqrt "vwap_lower_2" VwapBands.vwapLower2]

def sessionColumnNames : List String :=
  ["ib_high", "ib_low", "ib_range", "ib_midpoint", "vwap_session", "vwap_upper_1", "vwap_lower_1",
    "vwap_upper_2", "vwap_lower_2"]

theorem map_name_sessionColumns (sqrt : ℚ → ℚ) :
    (sessionColumns sqrt).map SessionColumn.name = sessionColumnNames := rfl

/-- The registered column of a name, over bars. -/
def sessionColumnOf (time : StreamBar → Option ℤ) (sqrt : ℚ → ℚ) (name : String) :
    Option (List StreamBar → List PyValue) :=
  ((sessionColumns sqrt).find? fun column => column.name = name).map fun column bars =>
    column.column (labelled time bars)

/-- The runtime with the columns of a session. -/
def Runtime.withSessionColumns (time : StreamBar → Option ℤ) (rt : Runtime) : Runtime :=
  rt.withColumns (sessionColumnOf time rt.sqrt)

/-! ## §2 The names -/

variable {rt : Runtime} {time : StreamBar → Option ℤ} {sqrt : ℚ → ℚ} {column : SessionColumn}
  {bars : List StreamBar} {i : ℕ}

/-- The columns have a window of their own. -/
theorem plainWindow_of_sessionColumn (h : column ∈ sessionColumns sqrt) :
    PlainWindow column.name := by
  have hname : column.name ∈ sessionColumnNames := by
    rw [← map_name_sessionColumns sqrt]
    exact List.mem_map_of_mem h
  generalize column.name = name at hname
  revert name
  exact fun name hname =>
    { causal := (by decide +kernel :
        ∀ name ∈ sessionColumnNames, causalNames.contains name = false) name hname
      rolling := (by decide +kernel : ∀ name ∈ sessionColumnNames,
        parseWindowBars name = none ∧ isRollingVp name = false) name hname
      root := (by decide +kernel :
        ∀ name ∈ sessionColumnNames, vpRootNames.contains name = false) name hname
      derived := (by decide +kernel :
        ∀ name ∈ sessionColumnNames, vpDerivedNames.contains name = false) name hname
      sessions := (by decide +kernel : ∀ name ∈ sessionColumnNames,
        sessionCountWindow name = none ∧ lookbackSessions name = none) name hname
      family := (by decide +kernel : ∀ name ∈ sessionColumnNames,
        canonicalFamily name = name ∧ name ≠ "macd" ∧ name ≠ "bb") name hname
      hand := (by decide +kernel : ∀ name ∈ sessionColumnNames,
        handStreaming.contains name = false ∧ isDynamic name = false) name hname
      bands := (by decide +kernel : ∀ name ∈ sessionColumnNames,
        startsWith name "bb_upper" = false ∧ startsWith name "bb_middle" = false ∧
          startsWith name "bb_lower" = false) name hname }

/-- No two columns have the same name. -/
theorem sessionColumnOf_name (h : column ∈ sessionColumns sqrt) :
    sessionColumnOf time sqrt column.name =
      some fun bars => column.column (labelled time bars) := by
  have hnodup : ((sessionColumns sqrt).map SessionColumn.name).Nodup := by
    rw [map_name_sessionColumns]
    decide +kernel
  have hfound : ((sessionColumns sqrt).find? fun found => found.name = column.name).isSome := by
    rw [List.find?_isSome]
    exact ⟨column, h, decide_eq_true rfl⟩
  obtain ⟨found, hfound⟩ := Option.isSome_iff_exists.mp hfound
  have hname : found.name = column.name := by simpa using List.find?_some hfound
  rw [sessionColumnOf, hfound,
    List.inj_on_of_nodup_map hnodup (List.mem_of_find?_eq_some hfound) h hname, Option.map_some]

/-! ## §3 What is reported -/

theorem DistinctLabels.sublist {rows rows' : List FrameRow} (h : DistinctLabels rows)
    (hsub : rows'.Sublist rows) : DistinctLabels rows' :=
  List.Nodup.sublist (hsub.filterMap _) h

theorem labelled_rtake (time : StreamBar → Option ℤ) (bars : List StreamBar) (n : ℕ) :
    labelled time (bars.rtake n) = (labelled time bars).rtake n := by
  simp [labelled, List.rtake]

/-- The last row of a window is the last row. -/
theorem getLast?_labelled_rtake {bar : StreamBar} (hlast : bars.getLast? = some bar) {n : ℕ}
    (hn : 0 < n) :
    (labelled time (bars.rtake n)).getLast? = some { index := time bar, bar := bar } := by
  have hpos : bars ≠ [] := by
    rintro rfl
    cases hlast
  have hshort : ¬bars.length ≤ bars.length - n := by
    have := List.length_pos_iff.mpr hpos
    omega
  rw [labelled, List.getLast?_map, List.rtake, List.getLast?_drop, if_neg hshort, hlast,
    Option.map_some]

/-- A column in its last row. -/
theorem SessionColumn.lastValue_eq {rows : List FrameRow} {row : FrameRow}
    (hlabels : DistinctLabels rows) (hlast : rows.getLast? = some row) :
    lastValue (column.column rows) =
      lastValue [column.cell (getIbBars rows) (rowDate row)
        (session rowDate rows (rowDate row))] := by
  unfold lastValue
  rw [column.last hlabels hlast]
  rfl

/-- **What the engine reports for a column of a session.** For every request, every such column
in it and all bars with distinct labels: the cell of the last bar, from the part of its
session that is in the window, with the period that the window's first bars show. As long as
the window holds the session and shows the same period, that is the batch cell. -/
theorem session_reported (rt : Runtime) (hresolver : IntervalAware rt)
    (time : StreamBar → Option ℤ) (requested : List String) (e e' : Engine)
    (column : SessionColumn) (hcolumn : column ∈ sessionColumns rt.sqrt) (bars : List StreamBar)
    (hlabels : DistinctLabels (labelled time bars)) (bar : StreamBar)
    (hlast : bars.getLast? = some bar)
    (hcreate : Engine.create (rt.withSessionColumns time) requested = .ok e)
    (hname : column.name ∈ requested)
    (hrun : e.run (rt.withSessionColumns time) bars = .ok e') :
    ∃ maxlen, 50 ≤ maxlen ∧
      let all := labelled time bars
      let window := labelled time (bars.rtake maxlen)
      let date := rowDate { index := time bar, bar := bar }
      (e'.reported column.name =
        if bars.length < 2 then none
        else cellReading (column.cell (getIbBars window) date (session rowDate window date))) ∧
      ((∀ row ∈ all.take (all.length - maxlen), rowDate row ≠ date) →
        getIbBars window = getIbBars all →
        e'.reported column.name =
          if bars.length < 2 then none else (column.column all).getLast?.bind cellReading) := by
  have hbars : bars ≠ [] := by
    rintro rfl
    cases hlast
  obtain ⟨maxlen, hlong, hvalue⟩ := column_reported rt hresolver (sessionColumnOf time rt.sqrt)
    (sessionColumnOf_name hcolumn) (plainWindow_of_sessionColumn hcolumn) hcreate hname hbars hrun
  refine ⟨maxlen, hlong, ?_⟩
  intro all window date
  have hwindow : window = all.rtake maxlen := labelled_rtake time bars maxlen
  have hlast_window := @getLast?_labelled_rtake time bars bar hlast maxlen (by omega)
  have hlast_all : all.getLast? = some { index := time bar, bar := bar } := by
    simp [all, labelled, hlast]
  have hlabels_window : DistinctLabels window := by
    rw [hwindow]
    exact hlabels.sublist (List.drop_sublist _ _)
  have hreported : e'.reported column.name = if bars.length < 2 then none
      else cellReading (column.cell (getIbBars window) date (session rowDate window date)) := by
    rw [hvalue, column.lastValue_eq hlabels_window hlast_window]
    rfl
  refine ⟨hreported, fun hsession hperiod => ?_⟩
  rw [hreported, column.last hlabels hlast_all, Option.bind_some, hperiod, hwindow,
    session_rtake hsession]

/-- A runtime that knows two of the columns. -/
def sessionRuntime : Runtime :=
  { sampleRuntime with
    registry := { requires := [("ib_high", []), ("vwap_session", [])], bb_free := rfl } }

/-- Timestamps in seconds. -/
def secondsTime (bar : StreamBar) : Option ℤ :=
  match bar.timestamp with
  | some (.num (.fin seconds)) => some (seconds.num * 1000000000)
  | _ => none

/-- Two hourly bars. -/
def hourlyBars : List StreamBar :=
  [⟨1, 5, 1, 2, 1, some (.ofRat 0), []⟩, ⟨2, 9, 2, 4, 1, some (.ofRat 3600), []⟩]

/-- The first hour is the opening range of the second bar's day. -/
theorem session_reported_hourly :
    ∃ e e', Engine.create (sessionRuntime.withSessionColumns secondsTime)
        ["ib_high", "vwap_session"] = .ok e ∧
      e.run (sessionRuntime.withSessionColumns secondsTime) hourlyBars = .ok e' ∧
      e'.reported "ib_high" = some (.ofRat 5) := by
  have hruns : ((Engine.create (sessionRuntime.withSessionColumns secondsTime)
      ["ib_high", "vwap_session"]).bind fun e =>
        e.run (sessionRuntime.withSessionColumns secondsTime) hourlyBars).toBool = true := by
    decide +kernel
  cases hcreate : Engine.create (sessionRuntime.withSessionColumns secondsTime)
      ["ib_high", "vwap_session"] with
  | error err =>
      rw [hcreate] at hruns
      cases hruns
  | ok e =>
      cases hrun : e.run (sessionRuntime.withSessionColumns secondsTime) hourlyBars with
      | error err =>
          simp only [hcreate, Except.bind, hrun] at hruns
          cases hruns
      | ok e' =>
          refine ⟨e, e', rfl, hrun, ?_⟩
          obtain ⟨maxlen, hlong, -, hbatch⟩ := session_reported sessionRuntime (fun _ h => nomatch h)
            secondsTime ["ib_high", "vwap_session"] e e' (.ofLevel "ib_high" InitialBalance.high)
            List.mem_cons_self hourlyBars (by decide +kernel) hourlyBars[1] rfl hcreate (by decide)
            hrun
          have hwhole : hourlyBars.rtake maxlen = hourlyBars := by
            have hle : hourlyBars.length ≤ maxlen := (show 2 ≤ 50 by decide).trans hlong
            rw [List.rtake, Nat.sub_eq_zero_of_le hle, List.drop_zero]
          have hnone : (labelled secondsTime hourlyBars).length - maxlen = 0 :=
            Nat.sub_eq_zero_of_le ((show 2 ≤ 50 by decide).trans hlong)
          have hcell := hbatch (fun row hrow => by rw [hnone] at hrow; cases hrow) (by rw [hwhole])
          have hrange : (computeTrueIb (labelled secondsTime hourlyBars)
              (getIbBars (labelled secondsTime hourlyBars))).getLast? = some (some ⟨5, 1⟩) := by
            decide +kernel
          refine hcell.trans ?_
          rw [if_neg (by decide)]
          show (ibColumn InitialBalance.high _).getLast?.bind cellReading = _
          rw [ibColumn, List.getLast?_map, hrange]
          rfl

end Finbar.Streaming
