/-
Finbar.Portfolio.AggregateTheorems — the merged pass over the equity curves
against a lookup for each asset and date.

`lastValue` is what a curve is worth at a date: the last value at or before it,
and the first value of the curve before all of its dates. On sorted curves the
lookup `_value_at` finds it (`valueAt_eq`) and so does the value that the merged
pass carries (`foldl_at_carried`). The aggregated curve has their sum at every
date, in cents, and the initial cash in place of a sum of zero
(`aggregateEquity_points`).

No `sorry`, no `axiom`.
-/
import Finbar.Lib.AsOf
import Finbar.Portfolio.CapitalTheorems

namespace Finbar.Portfolio

open Lib Lib.Python Finbar.Simulation Finbar.Backtest

/-! ## §1 The value of a curve at a date -/

/-- The curve as dated values. -/
def timeline (eq : List EquityPoint) : List (String × ℚ) := eq.map fun e => (e.date, e.value)

/-- The last value at or before the date; before the first date, the cash that the
asset starts with. -/
def lastValue (eq : List EquityPoint) (date : String) : ℚ :=
  ((AsOf.asOf (timeline eq) date).map Prod.snd).getD (firstValue eq)

/-- Sorted by date, no date twice. -/
def SortedCurve (eq : List EquityPoint) : Prop := eq.Pairwise fun e f => e.date < f.date

variable {eq : List EquityPoint} {date : String}

theorem SortedCurve.nodup (h : SortedCurve eq) : ((timeline eq).map Prod.fst).Nodup := by
  rw [timeline, List.map_map]
  exact List.pairwise_map.mpr (h.imp fun hlt => hlt.ne)

/-- A curve is worth its value of the date, when it has one. -/
theorem lastValue_of_mem (h : SortedCurve eq) {e : EquityPoint} (he : e ∈ eq) :
    lastValue eq e.date = e.value := by
  obtain ⟨front, back, rfl⟩ := List.append_of_mem he
  have hlater : ∀ f ∈ timeline back, e.date < f.1 := by
    intro f hf
    obtain ⟨g, hg, rfl⟩ := List.mem_map.mp hf
    exact (List.pairwise_cons.mp (List.pairwise_append.mp h).2.1).1 g hg
  have hsplit : timeline (front ++ e :: back)
      = (timeline front ++ [(e.date, e.value)]) ++ timeline back := by
    simp [timeline]
  rw [lastValue, hsplit, AsOf.asOf_append_later hlater, AsOf.asOf_append_one le_rfl]
  rfl

/-- Walking forward carries the last value at or before the date. -/
theorem carryForward_eq (h : SortedCurve eq) (prev : ℚ) :
    carryForward date prev eq
      = ((AsOf.asOf (timeline eq) date).map Prod.snd).getD prev := by
  induction eq generalizing prev with
  | nil => rfl
  | cons e eq ih =>
      obtain ⟨hhead, htail⟩ := List.pairwise_cons.mp h
      have hcons : timeline (e :: eq) = (e.date, e.value) :: timeline eq := rfl
      rw [carryForward]
      split
      · rename_i hlater
        have hall : ∀ f ∈ timeline (e :: eq), date < f.1 := by
          intro f hf
          obtain ⟨g, hg, rfl⟩ := List.mem_map.mp hf
          rcases List.mem_cons.mp hg with rfl | hg
          · exact hlater
          · exact hlater.trans (hhead g hg)
        rw [← List.nil_append (timeline (e :: eq)), AsOf.asOf_append_later hall]
        rfl
      · rename_i hearly
        rw [ih htail, hcons, AsOf.asOf_cons (not_lt.mp hearly)]
        cases AsOf.asOf (timeline eq) date <;> rfl

/-- **The lookup finds the last value at or before the date.** -/
theorem valueAt_eq (h : SortedCurve eq) (date : String) : valueAt eq date = lastValue eq date := by
  unfold valueAt
  split
  · rename_i hnil
    subst hnil
    rfl
  · split
    · rename_i e he
      have hdate : e.date = date := by simpa using List.find?_some he
      rw [← hdate, lastValue_of_mem h (List.mem_of_find?_eq_some he)]
    · exact carryForward_eq h _

/-! ## §2 The value that is carried -/

/-- One date of the pass: the curve's value of the date, else the value carried from a
date that no date of the curve comes after, up to this one. -/
theorem indexedCurve_getD (h : SortedCurve eq) {prev : String} {carried : ℚ}
    (hprev : prev ≤ date) (hcarried : carried = lastValue eq prev)
    (hgap : ∀ e ∈ eq, e.date < date → e.date ≤ prev) :
    ((indexedCurve eq).get date).getD carried = lastValue eq date := by
  by_cases hdate : date ∈ eq.map EquityPoint.date
  · obtain ⟨e, he, rfl⟩ := List.mem_map.mp hdate
    have hvalue : (indexedCurve eq).get e.date = some e.value :=
      OrderedDict.get_assignAll_of_mem h.nodup (List.mem_map_of_mem he) {}
    rw [hvalue, Option.getD_some, lastValue_of_mem h he]
  · rw [indexedCurve_of_not_mem hdate, Option.getD_none, hcarried, lastValue, lastValue]
    congr 2
    refine (AsOf.asOf_eq_of_no_between hprev fun entry hentry hle => ?_).symm
    obtain ⟨e, he, rfl⟩ := List.mem_map.mp hentry
    refine hgap e he (lt_of_le_of_ne hle ?_)
    rintro rfl
    exact hdate (List.mem_map_of_mem he)

theorem empty_le (date : String) : "" ≤ date := by
  rw [← not_lt, String.lt_iff_toList_lt]
  exact List.not_lt_nil _

/-- No curve has a value at the empty date but its first one. -/
theorem lastValue_empty (h : SortedCurve eq) : lastValue eq "" = firstValue eq := by
  cases eq with
  | nil => rfl
  | cons e eq =>
      have hlater : ∀ f ∈ timeline eq, "" < f.1 := by
        intro f hf
        obtain ⟨g, hg, rfl⟩ := List.mem_map.mp hf
        exact lt_of_le_of_lt (empty_le _) ((List.pairwise_cons.mp h).1 g hg)
      have hnone : AsOf.asOf (timeline eq) "" = none := by
        rw [← List.nil_append (timeline eq), AsOf.asOf_append_later hlater]
        rfl
      have hcons : timeline (e :: eq) = (e.date, e.value) :: timeline eq := rfl
      unfold lastValue
      by_cases hdate : e.date ≤ ""
      · rw [hcons, AsOf.asOf_cons hdate, hnone]
        rfl
      · have hall : ∀ f ∈ timeline (e :: eq), "" < f.1 := by
          rw [hcons]
          exact List.forall_mem_cons.mpr ⟨not_le.mp hdate, hlater⟩
        rw [← List.nil_append (timeline (e :: eq)), AsOf.asOf_append_later hall]
        rfl

/-- The track of a curve that has come to a date. -/
def trackAt (eq : List EquityPoint) (date : String) : Track :=
  { indexed := indexedCurve eq, carried := lastValue eq date }

theorem start_eq_trackAt (h : SortedCurve eq) : Track.start eq = trackAt eq "" := by
  rw [Track.start, trackAt, lastValue_empty h]

/-! ## §3 The aggregated curve -/

variable {entries : List (String × List EquityPoint)}

/-- The value of all curves at a date, as it is reported. -/
def reportedValue (initialCash : ℚ) (entries : List (String × List EquityPoint))
    (date : String) : ℚ :=
  pyRound (orInitialCash initialCash (entries.map fun entry => valueAt entry.2 date).sum) 2

/-- The date and the value of a point of the aggregated curve. -/
def PortfolioPoint.dated (point : PortfolioPoint) : String × ℚ := (point.date, point.value)

/-- **A date of the pass moves every track to that date**, when no curve has a date
between the one before and it. -/
theorem aggregateDate_tracks (h : ∀ entry ∈ entries, SortedCurve entry.2) {prev : String}
    (hprev : prev ≤ date)
    (hgap : ∀ entry ∈ entries, ∀ e ∈ entry.2, e.date < date → e.date ≤ prev) :
    (entries.map fun entry => trackAt entry.2 prev).map (fun track => track.at date)
      = entries.map fun entry => trackAt entry.2 date := by
  rw [List.map_map]
  refine List.map_congr_left fun entry hentry => ?_
  refine congrArg (Track.mk (indexedCurve entry.2)) ?_
  exact indexedCurve_getD (h entry hentry) hprev rfl (hgap entry hentry)

/-- **The pass reports the value of all curves at every date**: by induction on the
dates that are left, each of which every curve's later dates are among. -/
theorem foldl_aggregateDate_points (h : ∀ entry ∈ entries, SortedCurve entry.2)
    (initialCash : ℚ) {prev : String} {dates : List String} {state : Aggregation}
    (hsorted : (prev :: dates).Pairwise (· < ·))
    (hcover : ∀ entry ∈ entries, ∀ e ∈ entry.2, e.date ≤ prev ∨ e.date ∈ dates)
    (hstate : state.tracks = entries.map fun entry => trackAt entry.2 prev) :
    (dates.foldl (aggregateDate initialCash) state).portfolioEq.map PortfolioPoint.dated
      = state.portfolioEq.map PortfolioPoint.dated
        ++ dates.map fun date => (date, reportedValue initialCash entries date) := by
  induction dates generalizing prev state with
  | nil => simp
  | cons date dates ih =>
      obtain ⟨hhead, htail⟩ := List.pairwise_cons.mp hsorted
      have hprev : prev ≤ date := (hhead date List.mem_cons_self).le
      have hlater := (List.pairwise_cons.mp htail).1
      have htracks : state.tracks.map (fun track => track.at date)
          = entries.map fun entry => trackAt entry.2 date := by
        rw [hstate]
        refine aggregateDate_tracks h hprev fun entry hentry e he hlt => ?_
        rcases hcover entry hentry e he with hearly | hmem
        · exact hearly
        · rcases List.mem_cons.mp hmem with heq | hmem
          · exact absurd heq hlt.ne
          · exact absurd (hlater _ hmem) hlt.not_gt
      have hsum : ((state.tracks.map fun track => track.at date).map Track.carried).sum
          = (entries.map fun entry => valueAt entry.2 date).sum := by
        rw [htracks, List.map_map]
        refine congrArg List.sum (List.map_congr_left fun entry hentry => ?_)
        exact (valueAt_eq (h entry hentry) date).symm
      rw [List.foldl_cons, ih htail (fun entry hentry e he => ?_) htracks]
      · simp only [aggregateDate, List.map_append, List.map_cons, List.map_nil,
          PortfolioPoint.dated, hsum, reportedValue, List.append_assoc, List.singleton_append]
      · rcases hcover entry hentry e he with hearly | hmem
        · exact .inl (hearly.trans hprev)
        · rcases List.mem_cons.mp hmem with heq | hmem
          · exact .inl heq.le
          · exact .inr hmem

theorem empty_not_mem_orderedDates (curves : OrderedDict String (List EquityPoint)) :
    "" ∉ orderedDates curves := by
  intro hempty
  obtain ⟨entry, -, hdate⟩ := mem_orderedDates.mp hempty
  exact empty_not_mem_curveDates entry.2 hdate

/-- **The aggregated curve** has every date of the curves once, in order, and reports at
each the sum of the curves' last values, in cents, or the initial cash where that sum is
zero. -/
theorem aggregateEquity_points (fm : FloatMath) (curves : OrderedDict String (List EquityPoint))
    (initialCash : ℚ) (interval : String) (marketCalendar : MarketCalendar)
    (h : ∀ entry ∈ curves.items, SortedCurve entry.2) :
    (aggregateEquity fm curves initialCash interval marketCalendar).1.map PortfolioPoint.dated
        = (orderedDates curves).map (fun date =>
          (date, reportedValue initialCash curves.items date)) ∧
      (orderedDates curves).Pairwise (· < ·) ∧
      (∀ date, date ∈ orderedDates curves ↔ date ≠ "" ∧
        ∃ entry ∈ curves.items, date ∈ entry.2.map EquityPoint.date) ∧
      ∀ entry ∈ curves.items, ∀ date, valueAt entry.2 date = lastValue entry.2 date := by
  refine ⟨?_, orderedDates_sorted curves, fun date => ?_, fun entry hentry =>
    valueAt_eq (h entry hentry)⟩
  · unfold aggregateEquity
    by_cases hdates : orderedDates curves = []
    · simp only [if_pos hdates]
      rw [hdates]
      rfl
    · simp only [if_neg hdates]
      have hsorted : ("" :: orderedDates curves).Pairwise (· < ·) := by
        refine List.pairwise_cons.mpr ⟨fun date hdate => ?_, orderedDates_sorted curves⟩
        refine lt_of_le_of_ne (empty_le date) ?_
        rintro rfl
        exact empty_not_mem_orderedDates curves hdate
      refine foldl_aggregateDate_points h initialCash hsorted (fun entry hentry e he => ?_) ?_
      · by_cases hdate : e.date = ""
        · exact .inl hdate.le
        · refine .inr (mem_orderedDates.mpr ⟨entry, hentry, ?_⟩)
          exact List.mem_filter.mpr ⟨List.mem_map_of_mem he, decide_eq_true hdate⟩
      · exact List.map_congr_left fun entry hentry => start_eq_trackAt (h entry hentry)
  · rw [mem_orderedDates]
    simp only [curveDates, List.mem_filter, decide_eq_true_eq]
    constructor
    · rintro ⟨entry, hentry, hmem, hne⟩
      exact ⟨hne, entry, hentry, hmem⟩
    · rintro ⟨hne, entry, hentry, hmem⟩
      exact ⟨entry, hentry, hmem, hne⟩

/-- A point of an equity curve without a position. -/
def flatPoint (date : String) (value : ℚ) : EquityPoint where
  date := date
  close := 100
  value := value
  drawdown := 0
  position := 0

/-- Two curves that share one date; the first starts late, the second ends early. -/
def twoCurves : OrderedDict String (List EquityPoint) :=
  OrderedDict.assignAll {}
    [("AAA", [flatPoint "2024-01-02" 500, flatPoint "2024-01-03" 505]),
      ("BBB", [flatPoint "2024-01-01" 400, flatPoint "2024-01-02" 390])]

/-- The merged pass over the two curves. -/
theorem aggregateEquity_points_two :
    (aggregateEquity { sqrt := fun _ => 0, pow := fun _ _ => 0 } twoCurves 1000 "1d"
        .crypto247).1.map PortfolioPoint.dated
      = [("2024-01-01", 900), ("2024-01-02", 890), ("2024-01-03", 895)] := by
  have hsorted : ∀ entry ∈ twoCurves.items, SortedCurve entry.2 := by
    unfold SortedCurve
    decide +kernel
  rw [(aggregateEquity_points _ twoCurves 1000 "1d" .crypto247 hsorted).1]
  decide +kernel

/-- One curve, worth `100.006` and then nothing: the pass reports `100.01` and then the
initial cash. -/
theorem aggregateEquity_rounds_and_replaces :
    let curves : OrderedDict String (List EquityPoint) := OrderedDict.assignAll {}
      [("AAA", [flatPoint "2024-01-01" (100006 / 1000), flatPoint "2024-01-02" 0])]
    let aggregated := (aggregateEquity { sqrt := fun _ => 0, pow := fun _ _ => 0 } curves 1000
      "1d" .crypto247).1.map PortfolioPoint.dated
    let naive := (orderedDates curves).map fun date =>
      (date, (curves.items.map fun entry => valueAt entry.2 date).sum)
    (∀ entry ∈ curves.items, SortedCurve entry.2) ∧
      aggregated = [("2024-01-01", 10001 / 100), ("2024-01-02", 1000)] ∧
      naive = [("2024-01-01", 100006 / 1000), ("2024-01-02", 0)] ∧ aggregated ≠ naive := by
  unfold SortedCurve
  decide +kernel

end Finbar.Portfolio
