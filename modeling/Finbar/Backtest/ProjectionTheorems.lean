/-
Finbar.Backtest.ProjectionTheorems — what `equity_points` keeps of an equity
curve.

The first ten characters of a date are its calendar date, so the daily points
are the last ones of their dates. The weekly points are the same ones; they are
the last ones of their weeks only if no two dates share a week. The drawdown
events look for negative drawdowns, and the engine stores none
(`runLoop_curve`). `equityPoints_projects_iff` puts these together.

No `sorry`, no `axiom`.
-/
import Finbar.Backtest.DrawdownTheorems
import Finbar.Backtest.Projection
import Finbar.Lib.LastOfEach

namespace Finbar.Backtest

open Lib Lib.Python Lib.Calendar Lib.Drawdown Lib.Run Finbar.Simulation

/-! ## §1 Dates -/

@[simp] theorem length_dateChars (day : ℕ) : (dateChars day).length = 10 := by
  simp [dateChars]

/-- **The text of a date determines the day.** -/
theorem dateChars_injective {m n : Moment} (h : dateChars m.day = dateChars n.day) :
    m.day = n.day := by
  obtain ⟨hyear, hrest⟩ := List.append_inj h (by simp)
  obtain ⟨hmonth, hrest⟩ := List.append_inj (List.cons.inj hrest).2 (by simp)
  have hday := (List.cons.inj hrest).2
  have hdate : dateOf m.day = dateOf n.day := by
    refine Date.ext ?_ ?_ ?_
    · exact digits_injective m.year_lt n.year_lt hyear
    · exact digits_injective (dateOf_month_lt _) (dateOf_month_lt _) hmonth
    · exact digits_injective (dateOf_day_lt _) (dateOf_day_lt _) hday
  exact dateOf_injective hdate

/-- The first ten characters are the date. -/
theorem take_text (m : Moment) : m.text.toList.take 10 = dateChars m.day := by
  unfold Moment.text
  rw [String.toList_ofList]
  split
  · exact List.take_of_length_le (length_dateChars m.day).le
  · exact List.take_left' (length_dateChars m.day)

theorem ten_le_length_text (m : Moment) : 10 ≤ m.text.length := by
  have hlength := congrArg List.length (take_text m)
  rw [List.length_take, length_dateChars, String.length_toList] at hlength
  omega

/-! ## §2 Equity curves -/

/-- A point of an equity curve, with the moment its date was written for. -/
structure DatedPoint where
  moment : Moment
  point : EquityPoint
  date_eq : point.date = moment.text

/-- The calendar date, as a day. -/
def DatedPoint.day (p : DatedPoint) : ℕ := p.moment.day

/-- The calendar week: day 0 is a Monday. -/
def DatedPoint.week (p : DatedPoint) : ℕ := p.day / 7

/-- An equity curve of the engine: chronological, with drawdowns that are fractions
of the peak. -/
structure Curve where
  points : List DatedPoint
  chronological : points.Pairwise fun p q => p.moment.Before q.moment
  drawdown_nonneg : ∀ p ∈ points, 0 ≤ p.point.drawdown

/-- The points as they are stored. -/
def Curve.equity (c : Curve) : List EquityPoint := c.points.map DatedPoint.point

theorem datePrefix_point (p : DatedPoint) :
    datePrefix 10 p.point = String.ofList (dateChars p.day) := by
  unfold datePrefix
  rw [p.date_eq, take_text]
  rfl

/-- Points have one date text if they are of one day. -/
theorem datePrefix_eq_iff (p q : DatedPoint) :
    datePrefix 10 p.point = datePrefix 10 q.point ↔ p.day = q.day := by
  rw [datePrefix_point, datePrefix_point, String.ofList_inj]
  exact ⟨dateChars_injective, congrArg dateChars⟩

theorem Curve.pairwise_day (c : Curve) : c.points.Pairwise fun p q => p.day ≤ q.day := by
  refine c.chronological.imp fun {p q} hbefore => ?_
  rcases hbefore with hlt | ⟨heq, -⟩
  · exact hlt.le
  · exact heq.le

/-! ## §3 The modes -/

/-- **The points by date prefix** are the last ones of each calendar date. -/
theorem downsampleByPrefix_equity (c : Curve) :
    downsampleByPrefix c.equity 10 = (lastOfEach DatedPoint.day c.points).map DatedPoint.point := by
  have hkey : ∀ p ∈ c.points, ∀ q ∈ c.points,
      datePrefix 10 p.point = datePrefix 10 q.point ↔ p.day = q.day :=
    fun p _ q _ => datePrefix_eq_iff p q
  unfold downsampleByPrefix Curve.equity
  rw [if_neg (by decide), List.foldl_map,
    OrderedDict.items_foldl_assign DatedPoint.point c.pairwise_day hkey, List.map_map,
    lastOfEach_congr hkey]
  rfl

theorem hasIsoDates_equity (c : Curve) : hasIsoDates c.equity = true := by
  unfold hasIsoDates Curve.equity
  rw [List.head?_map]
  cases c.points.head? with
  | none => rfl
  | some p =>
      refine decide_eq_true ?_
      rw [p.date_eq]
      exact ten_le_length_text p.moment

/-- **No drawdown of the engine is an event.** -/
theorem drawdownEvents_equity (c : Curve) : drawdownEvents c.equity = [] := by
  have hnone : ∀ points : List DatedPoint, (∀ p ∈ points, 0 ≤ p.point.drawdown) →
      (points.map DatedPoint.point).foldl worsen {} = {} := by
    intro points
    induction points with
    | nil => exact fun _ => rfl
    | cons p points ih =>
        intro hpoints
        obtain ⟨hp, hrest⟩ := List.forall_mem_cons.mp hpoints
        have hskip : worsen {} p.point = {} := if_pos hp
        rw [List.map_cons, List.foldl_cons, hskip]
        exact ih hrest
  unfold drawdownEvents Curve.equity
  rw [hnone c.points c.drawdown_nonneg]
  rfl

section Modes

variable (c : Curve) {mode : String}

theorem equityPoints_daily (h : normalizedMode mode = "daily") :
    equityPoints c.equity mode = (lastOfEach DatedPoint.day c.points).map DatedPoint.point := by
  rw [← downsampleByPrefix_equity]
  unfold equityPoints
  simp [h, hasIsoDates_equity]

theorem equityPoints_weekly (h : normalizedMode mode = "weekly") :
    equityPoints c.equity mode = (lastOfEach DatedPoint.day c.points).map DatedPoint.point := by
  rw [← downsampleByPrefix_equity]
  unfold equityPoints
  simp [h]

theorem equityPoints_drawdownEvents (h : normalizedMode mode = "drawdown_events") :
    equityPoints c.equity mode = [] := by
  rw [← drawdownEvents_equity c]
  unfold equityPoints
  simp [h]

/-- **Every mode keeps the order of the curve.** -/
theorem equityPoints_sublist (mode : String) :
    (equityPoints c.equity mode).Sublist c.equity := by
  have hdates : (downsampleByPrefix c.equity 10).Sublist c.equity := by
    rw [downsampleByPrefix_equity]
    exact (lastOfEach_sublist _ _).map _
  unfold equityPoints
  simp only [hasIsoDates_equity, if_true]
  split
  · exact List.Sublist.refl _
  · split
    · exact List.nil_sublist _
    · split
      · exact hdates
      · split
        · rw [drawdownEvents_equity]
          exact List.nil_sublist _
        · exact hdates

end Modes

/-! ## §4 What the modes promise -/

/-- One point of each date below the peak, with the largest drawdown of that date. -/
structure WorstOfEach (points events : List DatedPoint) : Prop where
  below : ∀ p ∈ events, p ∈ points ∧ 0 < p.point.drawdown
  dates : (events.map DatedPoint.day).Nodup
  covered : ∀ p ∈ points, 0 < p.point.drawdown → ∃ q ∈ events, q.day = p.day
  largest : ∀ q ∈ events, ∀ p ∈ points, p.day = q.day → p.point.drawdown ≤ q.point.drawdown

/-- The modes keep what they are named for, in the order of the curve. -/
structure Projects (c : Curve) : Prop where
  daily : ∀ mode, normalizedMode mode = "daily" →
    equityPoints c.equity mode = (lastOfEach DatedPoint.day c.points).map DatedPoint.point
  weekly : ∀ mode, normalizedMode mode = "weekly" →
    equityPoints c.equity mode = (lastOfEach DatedPoint.week c.points).map DatedPoint.point
  drawdownEvents : ∀ mode, normalizedMode mode = "drawdown_events" →
    ∃ events, equityPoints c.equity mode = events.map DatedPoint.point ∧
      WorstOfEach c.points events
  ordered : ∀ mode, (equityPoints c.equity mode).Sublist c.equity

/-- No two dates of the curve are in one calendar week. -/
def Curve.WeeksApart (c : Curve) : Prop :=
  ∀ p ∈ c.points, ∀ q ∈ c.points, p.week = q.week → p.day = q.day

/-- No point of the curve is below the peak. -/
def Curve.NeverBelow (c : Curve) : Prop :=
  ∀ p ∈ c.points, ¬ 0 < p.point.drawdown

/-- The weekly points are those of the weeks if no two dates share one. -/
theorem weekly_iff (c : Curve) {mode : String} (h : normalizedMode mode = "weekly") :
    equityPoints c.equity mode = (lastOfEach DatedPoint.week c.points).map DatedPoint.point ↔
      c.WeeksApart := by
  rw [equityPoints_weekly c h]
  exact map_lastOfEach_eq_iff (fun p q hday => congrArg (· / 7) hday)
    (fun p q hpoint => (datePrefix_eq_iff p q).mp (congrArg (datePrefix 10) hpoint))

/-- The events are those below the peak if there are none. -/
theorem drawdownEvents_iff (c : Curve) {mode : String}
    (h : normalizedMode mode = "drawdown_events") :
    (∃ events, equityPoints c.equity mode = events.map DatedPoint.point ∧
      WorstOfEach c.points events) ↔ c.NeverBelow := by
  rw [equityPoints_drawdownEvents c h]
  constructor
  · rintro ⟨events, hevents, hworst⟩ p hp hbelow
    obtain rfl := List.map_eq_nil_iff.mp hevents.symm
    obtain ⟨q, hq, -⟩ := hworst.covered p hp hbelow
    exact absurd hq List.not_mem_nil
  · intro hnever
    refine ⟨[], rfl, List.forall_mem_nil _, List.nodup_nil, ?_, List.forall_mem_nil _⟩
    exact fun p hp hbelow => absurd hbelow (hnever p hp)

/-- **When the projection keeps its promises.** For every equity curve of the engine:
the daily points are right and every mode keeps the order; the weekly points are right
if and only if no two dates share a calendar week, and the drawdown events if and only
if no point is below the peak. -/
theorem equityPoints_projects_iff (c : Curve) : Projects c ↔ c.WeeksApart ∧ c.NeverBelow := by
  have hweekly : normalizedMode "weekly" = "weekly" := by decide +kernel
  have hevents : normalizedMode "drawdown_events" = "drawdown_events" := by decide +kernel
  constructor
  · intro h
    exact ⟨(weekly_iff c hweekly).mp (h.weekly _ hweekly),
      (drawdownEvents_iff c hevents).mp (h.drawdownEvents _ hevents)⟩
  · rintro ⟨hapart, hnever⟩
    exact ⟨fun _ => equityPoints_daily c, fun _ h => (weekly_iff c h).mpr hapart,
      fun _ h => (drawdownEvents_iff c h).mpr hnever, equityPoints_sublist c⟩

/-! ## §5 The curves of the engine -/

section Run

variable {σ : Type} {settings : RunSettings σ} {memory : σ} {initialCash : ℚ} {bars : List Bar}
  {books : Books}

/-- **No stored drawdown of a run is negative.** -/
theorem storedDrawdowns_nonneg (h : runLoop settings memory initialCash bars = .ok books) :
    ∀ d ∈ storedDrawdowns books, 0 ≤ d := by
  obtain ⟨loop, hloop, rfl⟩ := runLoop_eq_ok_iff.mp h
  have hkept : CurveKept initialCash loop.books :=
    afterBars_curveKept memory initialCash bars bars.length loop hloop
  have hnonneg : ∀ d ∈ storedDrawdowns loop.books, 0 ≤ d := by
    rw [hkept.stored]
    exact drawdowns_nonneg _ _
  by_cases hopen : loop.books.state.position.size = 0
  · rw [PositionExecutor.liquidateOpen, if_pos hopen]
    exact hnonneg
  · cases hcurve : loop.books.state.equityCurve using List.reverseRecOn with
    | nil =>
        have hkeptCurve : (settings.executor.exitPosition loop.books loop.finalClose
            loop.finalDate .endOfBacktest).state.equityCurve = [] := hcurve
        unfold PositionExecutor.liquidateOpen
        rw [if_neg hopen]
        simp only [hkeptCurve, List.getLast?_nil]
        unfold storedDrawdowns
        rw [hkeptCurve]
        exact List.forall_mem_nil _
    | append_singleton earlier last =>
        obtain ⟨-, hstored⟩ := liquidateOpen_curve settings.executor hkept hcurve loop.finalClose
          loop.finalDate hopen
        rw [hstored]
        intro d hd
        rcases List.mem_append.mp hd with hd | hd
        · exact drawdowns_nonneg _ _ d hd
        · rw [List.mem_singleton.mp hd]
          exact drawdownFrom_max_nonneg _ _

/-- Points with the texts of moments are dated. -/
theorem exists_datedPoints {points : List EquityPoint} {moments : List Moment}
    (h : points.map EquityPoint.date = precomputeDates moments) :
    ∃ dated : List DatedPoint, dated.map DatedPoint.point = points ∧
      dated.map DatedPoint.moment = moments := by
  induction points generalizing moments with
  | nil =>
      cases moments with
      | nil => exact ⟨[], rfl, rfl⟩
      | cons m moments => cases h
  | cons point points ih =>
      cases moments with
      | nil => cases h
      | cons m moments =>
          obtain ⟨hdate, hrest⟩ := List.cons.inj h
          obtain ⟨dated, rfl, rfl⟩ := ih hrest
          exact ⟨⟨m, point, hdate⟩ :: dated, rfl, rfl⟩

/-- **The equity curve of a run** over bars dated by a chronological index is one. -/
theorem runLoop_curve (h : runLoop settings memory initialCash bars = .ok books)
    {index : List Moment} (hdates : bars.map Bar.date = precomputeDates index)
    (hindex : index.Pairwise Moment.Before) : ∃ c : Curve, c.equity = books.state.equityCurve := by
  have hcurve : books.state.equityCurve.map EquityPoint.date =
      precomputeDates (index.drop settings.firstTradableIndex) := by
    rw [precomputeDates, List.map_drop]
    show equityDates books = (precomputeDates index).drop _
    rw [← hdates, runLoop_equityDates h, List.map_drop]
  obtain ⟨dated, hpoints, hmoments⟩ := exists_datedPoints hcurve
  refine ⟨⟨dated, ?_, ?_⟩, hpoints⟩
  · rw [← List.pairwise_map (f := DatedPoint.moment), hmoments]
    exact hindex.drop
  · intro p hp
    refine storedDrawdowns_nonneg h _ ?_
    unfold storedDrawdowns
    rw [← hpoints, List.map_map]
    exact List.mem_map_of_mem hp

end Run

/-! ## §6 Three days of one week -/

/-- Midnight of Monday, the first of January 2024, and of the days after it. -/
def firstDays : List Moment :=
  [⟨738885, 0, by decide +kernel, by decide +kernel⟩,
    ⟨738886, 0, by decide +kernel, by decide +kernel⟩,
    ⟨738887, 0, by decide +kernel, by decide +kernel⟩]

/-- **A long over quiet bars** loses its commissions within a week. All three days are
weekly points, and the loss is no event. -/
theorem quiet_run_not_projects :
    ∃ books c, runLoop commissionSettings [some buyTen] 2000 quietBars = .ok books ∧
      Curve.equity c = books.state.equityCurve ∧
      (equityPoints c.equity "weekly").map EquityPoint.date =
        ["2024-01-01", "2024-01-02", "2024-01-03"] ∧
      storedDrawdowns books = [0, 1 / 200, 1 / 100] ∧
      equityPoints c.equity "drawdown_events" = [] ∧ ¬ Projects c := by
  obtain ⟨books, hrun, hweekly, hstored⟩ :
      Ensures (runLoop commissionSettings [some buyTen] 2000 quietBars)
        (fun books => (equityPoints books.state.equityCurve "weekly").map EquityPoint.date =
          ["2024-01-01", "2024-01-02", "2024-01-03"] ∧
          storedDrawdowns books = [0, 1 / 200, 1 / 100]) := Ensures.of_run (by decide +kernel)
  have hdates : quietBars.map Bar.date = precomputeDates firstDays := by decide +kernel
  have hchronological : firstDays.Pairwise Moment.Before := by
    unfold firstDays Moment.Before
    decide +kernel
  obtain ⟨c, hc⟩ := runLoop_curve hrun hdates hchronological
  have hmode : normalizedMode "drawdown_events" = "drawdown_events" := by decide +kernel
  refine ⟨books, c, hrun, hc, hc ▸ hweekly, hstored, equityPoints_drawdownEvents c hmode,
    fun h => ?_⟩
  have hnever : c.NeverBelow := (drawdownEvents_iff c hmode).mp (h.drawdownEvents _ hmode)
  have hmem : (1 / 200 : ℚ) ∈ c.equity.map EquityPoint.drawdown := by
    rw [hc]
    show 1 / 200 ∈ storedDrawdowns books
    rw [hstored]
    exact List.mem_cons_of_mem _ List.mem_cons_self
  unfold Curve.equity at hmem
  rw [List.map_map] at hmem
  obtain ⟨p, hp, hdrawdown⟩ := List.mem_map.mp hmem
  refine hnever p hp ?_
  rw [show p.point.drawdown = 1 / 200 from hdrawdown]
  norm_num

end Finbar.Backtest
