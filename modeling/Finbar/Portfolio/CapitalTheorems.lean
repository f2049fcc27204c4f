/-
Finbar.Portfolio.CapitalTheorems — what a portfolio's total return accounts
for.

Capital is allocated to all assets of a request, but only the curves of
those that succeeded are summed, and of two that share a symbol only the
later one (`lostCapital` is what the sum misses), and a sum of zero is read as
the initial cash. The total return is that of the whole portfolio when nothing
is lost and there is a total, and otherwise it is not, as soon as the
difference is more than the report rounds off (`totalReturn_iff`).

No `sorry`, no `axiom`.
-/
import Finbar.Lib.Rounding
import Finbar.Portfolio.Backtest
import Mathlib.Data.List.Dedup
import Mathlib.Data.String.Basic

namespace Finbar.Portfolio

open Lib Lib.Python Lib.Run Finbar.Simulation Finbar.Backtest

/-! ## §1 One curve -/

/-- The last of a curve's dates. -/
def lastDate (eq : List EquityPoint) : Option String := (curveDates eq).max?

/-- What a curve contributes in the end: its value at its last date. -/
def settledValue (eq : List EquityPoint) : ℚ :=
  match lastDate eq with
  | none => firstValue eq
  | some date => ((indexedCurve eq).get date).getD (firstValue eq)

theorem empty_not_mem_curveDates (eq : List EquityPoint) : "" ∉ curveDates eq := by
  simp [curveDates]

/-- A curve has no value at a date that it does not have. -/
theorem indexedCurve_of_not_mem {eq : List EquityPoint} {date : String}
    (h : date ∉ eq.map EquityPoint.date) : (indexedCurve eq).get date = none := by
  unfold indexedCurve
  rw [OrderedDict.get_assignAll_of_not_mem (by simpa using h)]
  rfl

theorem foldl_at_indexed (track : Track) (dates : List String) :
    (dates.foldl Track.at track).indexed = track.indexed := by
  induction dates generalizing track with
  | nil => rfl
  | cons date dates ih => exact ih (track.at date)

/-- Dates that the curve does not have leave its track alone. -/
theorem foldl_at_of_missing {track : Track} {dates : List String}
    (h : ∀ date ∈ dates, track.indexed.get date = none) :
    dates.foldl Track.at track = track := by
  induction dates generalizing track with
  | nil => rfl
  | cons date dates ih =>
      have hstay : track.at date = track := by
        unfold Track.at
        rw [h date List.mem_cons_self]
        rfl
      rw [List.foldl_cons, hstay]
      exact ih fun later hlater => h later (List.mem_cons_of_mem date hlater)

/-- **A track ends at the curve's settled value** when the dates are in
order and include all of its own. -/
theorem foldl_at_settles {eq : List EquityPoint} {dates : List String}
    (hsorted : dates.Pairwise (· < ·)) (hdates : curveDates eq ⊆ dates)
    (hnonempty : "" ∉ dates) :
    (dates.foldl Track.at (Track.start eq)).carried = settledValue eq := by
  have hmissing : ∀ date ∈ dates, date ∉ curveDates eq →
      (indexedCurve eq).get date = none := by
    intro date hdate hnot
    refine indexedCurve_of_not_mem fun hmem => hnot ?_
    have hne : date ≠ "" := fun heq => hnonempty (heq ▸ hdate)
    exact List.mem_filter.mpr ⟨hmem, decide_eq_true hne⟩
  unfold settledValue
  cases hlast : lastDate eq with
  | none =>
      have hnone : curveDates eq = [] := List.max?_eq_none_iff.mp hlast
      have hstay : dates.foldl Track.at (Track.start eq) = Track.start eq :=
        foldl_at_of_missing fun date hdate =>
          hmissing date hdate (by rw [hnone]; exact List.not_mem_nil)
      rw [hstay]
      rfl
  | some last =>
      obtain ⟨hmem, hmax⟩ := List.max?_eq_some_iff.mp hlast
      obtain ⟨before, after, hsplit⟩ := List.append_of_mem (hdates hmem)
      rw [hsplit] at hsorted hmissing
      have hafter : ∀ date ∈ after, (indexedCurve eq).get date = none := by
        intro date hdate
        have hlater : last < date :=
          (List.pairwise_cons.mp (List.pairwise_append.mp hsorted).2.1).1 date hdate
        exact hmissing date (by simp [hdate]) fun hown => absurd (hmax date hown) hlater.not_ge
      rw [hsplit, List.foldl_append, List.foldl_cons, foldl_at_of_missing]
      · show (((before.foldl Track.at (Track.start eq)).indexed.get last).getD _) = _
        rw [foldl_at_indexed]
        obtain ⟨point, hpoint, rfl⟩ := List.mem_map.mp (List.mem_of_mem_filter hmem)
        obtain ⟨value, hvalue⟩ : ∃ value, (indexedCurve eq).get point.date = some value := by
          refine OrderedDict.get_assignAll_of_mem_keys ?_ {}
          rw [List.map_map]
          exact List.mem_map.mpr ⟨point, hpoint, rfl⟩
        show ((indexedCurve eq).get point.date).getD _
          = ((indexedCurve eq).get point.date).getD (firstValue eq)
        rw [hvalue, Option.getD_some, Option.getD_some]
      · intro date hdate
        show (before.foldl Track.at (Track.start eq)).indexed.get date = none
        rw [foldl_at_indexed]
        exact hafter date hdate

/-- The settled value is that of the last point at the greatest date. -/
theorem settledValue_eq {before after : List EquityPoint} {point : EquityPoint}
    (hbefore : ∀ other ∈ before, other.date ≤ point.date)
    (hafter : ∀ other ∈ after, other.date < point.date) (hne : point.date ≠ "") :
    settledValue (before ++ point :: after) = point.value := by
  have hmem : point.date ∈ curveDates (before ++ point :: after) :=
    List.mem_filter.mpr ⟨List.mem_map.mpr ⟨point, by simp, rfl⟩, decide_eq_true hne⟩
  have hlast : lastDate (before ++ point :: after) = some point.date := by
    refine List.max?_eq_some_iff.mpr ⟨hmem, fun date hdate => ?_⟩
    obtain ⟨other, hother, rfl⟩ := List.mem_map.mp (List.mem_of_mem_filter hdate)
    rcases List.mem_append.mp hother with hother | hother
    · exact hbefore other hother
    · rcases List.mem_cons.mp hother with rfl | hother
      · exact le_rfl
      · exact (hafter other hother).le
  have hnot : point.date ∉ (after.map fun e => (e.date, e.value)).map Prod.fst := by
    rw [List.map_map]
    intro hdate
    obtain ⟨other, hother, heq⟩ := List.mem_map.mp hdate
    exact absurd heq (hafter other hother).ne
  have hvalue : (indexedCurve (before ++ point :: after)).get point.date = some point.value := by
    unfold indexedCurve OrderedDict.assignAll
    rw [List.map_append, List.map_cons, List.foldl_append, List.foldl_cons]
    exact (OrderedDict.get_assignAll_of_not_mem hnot _).trans (OrderedDict.get_assign_self _ _ _)
  unfold settledValue
  rw [hlast]
  show ((indexedCurve (before ++ point :: after)).get point.date).getD _ = point.value
  rw [hvalue, Option.getD_some]

/-- The last value of a curve is also its last one at its greatest date. -/
def EndsLatest (eq : List EquityPoint) : Prop :=
  ∃ before point after, eq = before ++ point :: after ∧ point.date ≠ "" ∧
    (∀ other ∈ before, other.date ≤ point.date) ∧ (∀ other ∈ after, other.date < point.date) ∧
    eq.getLast?.map EquityPoint.value = some point.value

/-- A curve in the order of its dates. -/
theorem endsLatest_of_sorted {eq : List EquityPoint} {last : EquityPoint}
    (hlast : eq.getLast? = some last) (hne : last.date ≠ "")
    (hsorted : ∀ point ∈ eq, point.date ≤ last.date) : EndsLatest eq := by
  obtain ⟨front, rfl⟩ := List.getLast?_eq_some_iff.mp hlast
  refine ⟨front, last, [], rfl, hne, fun other hother => ?_, by simp, ?_⟩
  · exact hsorted other (List.mem_append_left _ hother)
  · rw [hlast, Option.map_some]

/-! ## §2 The sum of the curves -/

/-- What a portfolio value is reported as: cents, and four digits of the
return. -/
def reportedReturn (initialCash value : ℚ) : ℚ :=
  pyRound (if 0 < initialCash then (pyRound value 2 - initialCash) / initialCash else 0) 4

theorem foldl_aggregateDate_tracks (initialCash : ℚ) (state : Aggregation)
    (dates : List String) :
    (dates.foldl (aggregateDate initialCash) state).tracks
      = state.tracks.map fun track => dates.foldl Track.at track := by
  induction dates generalizing state with
  | nil => simp
  | cons date dates ih =>
      rw [List.foldl_cons, ih]
      show (state.tracks.map fun track => track.at date).map _ = _
      rw [List.map_map]
      rfl

/-- The last point is the sum of the tracks as they end. -/
theorem foldl_aggregateDate_last (initialCash : ℚ) (state : Aggregation)
    {dates : List String} (hne : dates ≠ []) :
    (((dates.foldl (aggregateDate initialCash) state).portfolioEq.map
        PortfolioPoint.value).getLast?)
      = some (pyRound (orInitialCash initialCash
          (state.tracks.map fun track => (dates.foldl Track.at track).carried).sum) 2) := by
  obtain ⟨front, last, rfl⟩ := (List.eq_nil_or_concat' dates).resolve_left hne
  rw [List.foldl_append, List.foldl_cons, List.foldl_nil]
  generalize hbefore : front.foldl (aggregateDate initialCash) state = before
  have htracks : before.tracks = state.tracks.map fun track => front.foldl Track.at track := by
    rw [← hbefore]
    exact foldl_aggregateDate_tracks initialCash state front
  have hsum : ((before.tracks.map fun track => track.at last).map Track.carried).sum
      = (state.tracks.map fun track => ((front ++ [last]).foldl Track.at track).carried).sum := by
    rw [htracks, List.map_map, List.map_map]
    simp [Function.comp_def]
  show ((before.portfolioEq ++ [_]).map PortfolioPoint.value).getLast? = _
  rw [List.map_append, List.map_singleton, List.getLast?_concat, hsum]

theorem mem_orderedDates {curves : OrderedDict String (List EquityPoint)} {date : String} :
    date ∈ orderedDates curves ↔ ∃ entry ∈ curves.items, date ∈ curveDates entry.2 := by
  unfold orderedDates
  rw [List.mem_insertionSort, List.mem_dedup, List.mem_flatMap]

theorem orderedDates_sorted (curves : OrderedDict String (List EquityPoint)) :
    (orderedDates curves).Pairwise (· < ·) := by
  have hsorted : (orderedDates curves).Pairwise (· ≤ ·) :=
    List.pairwise_insertionSort (· ≤ ·) _
  have hnodup : (orderedDates curves).Nodup :=
    (List.perm_insertionSort (· ≤ ·) _).nodup_iff.mpr (List.nodup_dedup _)
  exact hsorted.imp₂ (fun _ _ hle hne => lt_of_le_of_ne hle hne) hnodup

/-- **The reported return** is that of the settled values. -/
theorem aggregateEquity_totalReturn (fm : FloatMath)
    (curves : OrderedDict String (List EquityPoint)) (initialCash : ℚ) (interval : String)
    (marketCalendar : MarketCalendar) :
    (aggregateEquity fm curves initialCash interval marketCalendar).2.totalReturn
      = if orderedDates curves = [] then 0
        else reportedReturn initialCash (orInitialCash initialCash
          (curves.items.map fun entry => settledValue entry.2).sum) := by
  unfold aggregateEquity
  by_cases hdates : orderedDates curves = []
  · simp only [if_pos hdates]
  · simp only [if_neg hdates]
    rw [foldl_aggregateDate_last initialCash _ hdates]
    have hsettled : (curves.items.map fun entry => Track.start entry.2).map
          (fun track => ((orderedDates curves).foldl Track.at track).carried)
        = curves.items.map fun entry => settledValue entry.2 := by
      rw [List.map_map]
      refine List.map_congr_left fun entry hentry => ?_
      refine foldl_at_settles (orderedDates_sorted curves) (fun date hdate => ?_) ?_
      · exact mem_orderedDates.mpr ⟨entry, hentry, hdate⟩
      · intro hempty
        obtain ⟨other, -, hdate⟩ := mem_orderedDates.mp hempty
        exact empty_not_mem_curveDates other.2 hdate
    rw [hsettled]
    rfl

/-! ## §3 The capital of the assets -/

section Capital

variable {β ι σ : Type} (services : PortfolioServices β ι σ)
  (request : PortfolioBacktestRequest β)

/-- The curve of an asset; an asset that failed has none. -/
def curveOf (asset : AssetAllocation β) : List EquityPoint :=
  match assetOutput services request asset with
  | .ok (.ok raw) => equityCurveOf raw
  | _ => []

/-- The equity an asset ends with; a failed one keeps its allocated cash. -/
def finalEquity (asset : AssetAllocation β) : ℚ :=
  match (curveOf services request asset).getLast? with
  | some point => point.value
  | none => allocatedCash request asset

/-- What an asset gains on its allocated cash; a failed one gains nothing. -/
def gain (asset : AssetAllocation β) : ℚ :=
  finalEquity services request asset - allocatedCash request asset

/-- The portfolio with all of its capital. -/
def wholeValue : ℚ :=
  request.initialCash + (request.assets.map (gain services request)).sum

/-- The reported total return is what the assets gain, over the initial
cash. -/
def AccountsForAll (result : PortfolioResult) : Prop :=
  result.totalReturn
    = reportedReturn request.initialCash
        (request.initialCash + (request.assets.map (gain services request)).sum)

instance (result : PortfolioResult) : Decidable (AccountsForAll services request result) :=
  inferInstanceAs (Decidable (_ = _))

/-- A later asset of the symbol has a curve. -/
def Replaced (symbol : String) (later : List (AssetAllocation β)) : Prop :=
  ∃ asset ∈ later, asset.symbol = symbol ∧ curveOf services request asset ≠ []

instance (symbol : String) (later : List (AssetAllocation β)) :
    Decidable (Replaced services request symbol later) :=
  inferInstanceAs (Decidable (∃ asset ∈ later, _))

/-- The curves that are summed, with their symbols. -/
def summedCurves : List (AssetAllocation β) → List (String × List EquityPoint)
  | [] => []
  | asset :: later =>
      if curveOf services request asset = [] ∨ Replaced services request asset.symbol later
      then summedCurves later
      else (asset.symbol, curveOf services request asset) :: summedCurves later

/-- The capital that no summed curve carries: the cash of assets that failed, and the equity of
assets whose symbol comes again. -/
def lostCapital : List (AssetAllocation β) → ℚ
  | [] => 0
  | asset :: later =>
      (if curveOf services request asset = [] then allocatedCash request asset
        else if Replaced services request asset.symbol later then
          finalEquity services request asset
        else 0) + lostCapital later

variable {services request}

/-- The summed curves carry all capital but what is lost. -/
theorem sum_summedCurves {assets : List (AssetAllocation β)}
    (hcurves : ∀ asset ∈ assets, curveOf services request asset ≠ [] →
      EndsLatest (curveOf services request asset)) :
    ((summedCurves services request assets).map fun entry => settledValue entry.2).sum
      = (assets.map (finalEquity services request)).sum - lostCapital services request assets := by
  induction assets with
  | nil => simp [summedCurves, lostCapital]
  | cons asset later ih =>
      have hrest := ih fun other hother => hcurves other (List.mem_cons_of_mem asset hother)
      unfold summedCurves lostCapital
      rw [List.map_cons, List.sum_cons]
      by_cases hfailed : curveOf services request asset = []
      · have hcash : finalEquity services request asset = allocatedCash request asset := by
          unfold finalEquity
          rw [hfailed]
          rfl
        rw [if_pos (Or.inl hfailed), if_pos hfailed, hrest, hcash]
        ring
      · rw [if_neg hfailed]
        by_cases hreplaced : Replaced services request asset.symbol later
        · rw [if_pos (Or.inr hreplaced), if_pos hreplaced, hrest]
          ring
        · have hfinal : settledValue (curveOf services request asset) =
              finalEquity services request asset := by
            obtain ⟨before, point, after, hsplit, hne, hbefore, hafter, hlast⟩ :=
              hcurves asset List.mem_cons_self hfailed
            obtain ⟨last, hlast, hvalue⟩ := Option.map_eq_some_iff.mp hlast
            unfold finalEquity
            rw [hlast, hsplit, settledValue_eq hbefore hafter hne]
            exact hvalue.symm
          rw [if_neg (not_or.mpr ⟨hfailed, hreplaced⟩), if_neg hreplaced, List.map_cons,
            List.sum_cons, hrest, hfinal]
          ring

/-- All of the initial cash is allocated. -/
theorem sum_allocatedCash (hweight : 0 < request.totalWeight) :
    (request.assets.map (allocatedCash request)).sum = request.initialCash := by
  have hscale : ∀ assets : List (AssetAllocation β),
      (assets.map (allocatedCash request)).sum
        = request.initialCash
          * ((assets.map AssetAllocation.weight).sum / request.totalWeight) := by
    intro assets
    induction assets with
    | nil => simp
    | cons asset assets ih =>
        simp only [List.map_cons, List.sum_cons]
        rw [ih]
        unfold allocatedCash
        ring
  rw [hscale]
  show request.initialCash * (request.totalWeight / request.totalWeight) = _
  rw [div_self hweight.ne', mul_one]

theorem wholeValue_eq (hweight : 0 < request.totalWeight) :
    wholeValue services request
      = (request.assets.map (finalEquity services request)).sum := by
  have hgains : ∀ assets : List (AssetAllocation β),
      (assets.map (gain services request)).sum
        = (assets.map (finalEquity services request)).sum
          - (assets.map (allocatedCash request)).sum := by
    intro assets
    induction assets with
    | nil => simp
    | cons asset assets ih =>
        simp only [List.map_cons, List.sum_cons]
        rw [ih]
        unfold gain
        ring
  unfold wholeValue
  rw [hgains, sum_allocatedCash hweight]
  ring

/-! ## §4 The loop over the assets -/

theorem replaced_cons {symbol : String} {asset : AssetAllocation β}
    {later : List (AssetAllocation β)} :
    Replaced services request symbol (asset :: later)
      ↔ (asset.symbol = symbol ∧ curveOf services request asset ≠ [])
        ∨ Replaced services request symbol later := by
  simp only [Replaced, List.mem_cons, or_and_right, exists_or, exists_eq_left]

/-- One asset adds its curve, if it has one. -/
theorem collectAsset_curves {collected collected' : Collected} {asset : AssetAllocation β}
    (h : collectAsset services request collected asset = .ok collected') :
    collected'.equityCurves = if curveOf services request asset = [] then
        collected.equityCurves
      else collected.equityCurves.assign asset.symbol (curveOf services request asset) := by
  unfold collectAsset at h
  obtain ⟨output, houtput, h⟩ := bind_eq_ok.mp h
  unfold curveOf
  rw [houtput]
  cases output with
  | error message =>
      obtain rfl := Except.ok.inj h
      rfl
  | ok raw =>
      obtain rfl := Except.ok.inj h
      rfl

/-- **The curves the loop collects**, up to order. -/
theorem foldlM_collectAsset {assets : List (AssetAllocation β)} {collected collected' : Collected}
    (h : assets.foldlM (collectAsset services request) collected = .ok collected') :
    collected'.equityCurves.items.Perm
      ((collected.equityCurves.items.filter fun entry =>
          decide (¬ Replaced services request entry.1 assets))
        ++ summedCurves services request assets) := by
  induction assets generalizing collected with
  | nil =>
      obtain rfl := Except.ok.inj h
      have hall : collected.equityCurves.items.filter (fun entry =>
          decide (¬ Replaced services request entry.1 [])) = collected.equityCurves.items := by
        rw [List.filter_eq_self]
        intro entry _
        simp [Replaced]
      rw [hall]
      exact .of_eq (List.append_nil _).symm
  | cons asset later ih =>
      rw [List.foldlM_cons] at h
      obtain ⟨next, hnext, hrest⟩ := bind_eq_ok.mp h
      have hcurves := collectAsset_curves hnext
      refine (ih hrest).trans ?_
      by_cases hfailed : curveOf services request asset = []
      · have hsame : ∀ symbol, Replaced services request symbol (asset :: later)
            ↔ Replaced services request symbol later := by
          intro symbol
          simp [replaced_cons, hfailed]
        have hsummed : summedCurves services request (asset :: later)
            = summedCurves services request later := if_pos (Or.inl hfailed)
        rw [if_pos hfailed] at hcurves
        rw [hcurves, hsummed]
        simp only [hsame]
        exact .refl _
      · have hsplit : ∀ symbol, Replaced services request symbol (asset :: later)
            ↔ symbol = asset.symbol ∨ Replaced services request symbol later := by
          intro symbol
          simp [replaced_cons, hfailed, eq_comm]
        rw [if_neg hfailed] at hcurves
        rw [hcurves]
        -- The entries that survive are the new one, unless it is replaced
        -- in turn, and those of other symbols that are not.
        have hkept := (OrderedDict.assign_perm collected.equityCurves asset.symbol
          (curveOf services request asset)).filter fun entry =>
            decide (¬ Replaced services request entry.1 later)
        refine (hkept.append_right _).trans ?_
        have hothers : (collected.equityCurves.items.filter fun entry =>
              decide (entry.1 ≠ asset.symbol)).filter (fun entry =>
                decide (¬ Replaced services request entry.1 later))
            = collected.equityCurves.items.filter fun entry =>
              decide (¬ Replaced services request entry.1 (asset :: later)) := by
          rw [List.filter_filter]
          refine List.filter_congr fun entry _ => ?_
          simp [hsplit, Bool.and_comm]
        by_cases hreplaced : Replaced services request asset.symbol later
        · have hsummed : summedCurves services request (asset :: later)
              = summedCurves services request later := if_pos (Or.inr hreplaced)
          rw [List.filter_cons_of_neg (by simpa using hreplaced), hothers, hsummed]
        · have hsummed : summedCurves services request (asset :: later)
              = (asset.symbol, curveOf services request asset)
                :: summedCurves services request later :=
            if_neg (not_or.mpr ⟨hfailed, hreplaced⟩)
          rw [List.filter_cons_of_pos (by simpa using hreplaced), hothers, hsummed]
          exact List.perm_middle.symm

/-! ## §5 The total return -/

/-- An execution without an error aggregated the curves it had collected. -/
theorem execute_succeeds {result : PortfolioResult}
    (h : execute services request = .ok result) (herror : result.error = []) :
    0 < request.totalWeight ∧ ∃ collected,
      request.assets.foldlM (collectAsset services request) {} = .ok collected ∧
      collected.equityCurves.items ≠ [] ∧
      result.totalReturn = (aggregateEquity services.floatMath collected.equityCurves
        request.initialCash (if request.interval = "" then "1d" else request.interval)
        request.execution.marketCalendar).2.totalReturn := by
  unfold execute at h
  split at h
  · obtain rfl := Except.ok.inj h
    cases herror
  · split at h
    · obtain rfl := Except.ok.inj h
      cases herror
    · rename_i hweight
      refine ⟨not_le.mp hweight, ?_⟩
      obtain ⟨collected, hcollected, h⟩ := bind_eq_ok.mp h
      split at h
      · obtain rfl := Except.ok.inj h
        simp only at herror
        split at herror
        · cases herror
        · rename_i hsome
          exact absurd herror hsome
      · rename_i hcurves
        obtain rfl := Except.ok.inj h
        exact ⟨collected, hcollected, hcurves, rfl⟩

theorem mem_summedCurves {assets : List (AssetAllocation β)} {entry : String × List EquityPoint}
    (h : entry ∈ summedCurves services request assets) :
    ∃ asset ∈ assets, entry.2 = curveOf services request asset ∧ entry.2 ≠ [] := by
  induction assets with
  | nil => cases h
  | cons asset later ih =>
      unfold summedCurves at h
      split at h
      · obtain ⟨other, hother, hentry⟩ := ih h
        exact ⟨other, List.mem_cons_of_mem asset hother, hentry⟩
      · rename_i hkept
        rcases List.mem_cons.mp h with rfl | h
        · exact ⟨asset, List.mem_cons_self, rfl, fun hnone => hkept (.inl hnone)⟩
        · obtain ⟨other, hother, hentry⟩ := ih h
          exact ⟨other, List.mem_cons_of_mem asset hother, hentry⟩

/-- Two values that are reported as the same return differ by a cent and a ten-thousandth of the
initial cash at most. -/
theorem abs_sub_le_of_reportedReturn {initialCash v w : ℚ} (hcash : 0 < initialCash)
    (h : reportedReturn initialCash v = reportedReturn initialCash w) :
    |v - w| ≤ initialCash / 10 ^ 4 + 1 / 10 ^ 2 := by
  unfold reportedReturn at h
  rw [if_pos hcash, if_pos hcash] at h
  have hv := abs_le.mp (abs_pyRound_sub_le v 2)
  have hw := abs_le.mp (abs_pyRound_sub_le w 2)
  have hrv := abs_le.mp (abs_pyRound_sub_le ((pyRound v 2 - initialCash) / initialCash) 4)
  have hrw := abs_le.mp (abs_pyRound_sub_le ((pyRound w 2 - initialCash) / initialCash) 4)
  rw [h] at hrv
  have hreturns : |(pyRound v 2 - initialCash) / initialCash -
      (pyRound w 2 - initialCash) / initialCash| ≤ 1 / 10 ^ 4 := by
    rw [abs_le]
    constructor <;> linarith
  have hcents : |pyRound v 2 - pyRound w 2| ≤ initialCash / 10 ^ 4 := by
    rw [← sub_div, sub_sub_sub_cancel_right, abs_div, abs_of_pos hcash,
      div_le_iff₀ hcash] at hreturns
    linarith
  have hcents' := abs_le.mp hcents
  rw [abs_le]
  constructor <;> linarith

variable (services request)

/-- All capital is counted: every curve ends at its greatest date, no capital is lost, and the
assets do not end with nothing at all. -/
structure CapitalCounted : Prop where
  curves : ∀ asset ∈ request.assets, curveOf services request asset ≠ [] →
    EndsLatest (curveOf services request asset)
  kept : lostCapital services request request.assets = 0
  total : wholeValue services request ≠ 0

/-- The report would show it: if capital is lost, it is more than a cent and a ten-thousandth of
the initial cash, and so is, if the counted assets end with nothing, the portfolio's distance
from the initial cash. -/
structure Visible : Prop where
  lost : lostCapital services request request.assets ≠ 0 →
    request.initialCash / 10 ^ 4 + 1 / 10 ^ 2 < |lostCapital services request request.assets|
  nothing : wholeValue services request = lostCapital services request request.assets →
    request.initialCash / 10 ^ 4 + 1 / 10 ^ 2 <
      |wholeValue services request - request.initialCash|

variable {services request}

theorem orderedDates_eq_nil_iff {curves : OrderedDict String (List EquityPoint)} :
    orderedDates curves = [] ↔ ∀ entry ∈ curves.items, curveDates entry.2 = [] := by
  constructor
  · intro hnone entry hentry
    rw [List.eq_nil_iff_forall_not_mem]
    intro date hdate
    have hmem := mem_orderedDates.mpr ⟨entry, hentry, hdate⟩
    rw [hnone] at hmem
    cases hmem
  · intro hnone
    rw [List.eq_nil_iff_forall_not_mem]
    intro date hdate
    obtain ⟨entry, hentry, hmem⟩ := mem_orderedDates.mp hdate
    rw [hnone entry hentry] at hmem
    cases hmem

/-- **The reported total return**: of the whole value without the capital that is lost. -/
theorem totalReturn_eq {result : PortfolioResult}
    (h : execute services request = .ok result) (herror : result.error = [])
    (hcurves : ∀ asset ∈ request.assets, curveOf services request asset ≠ [] →
      EndsLatest (curveOf services request asset)) :
    result.totalReturn = reportedReturn request.initialCash (orInitialCash request.initialCash
      (wholeValue services request - lostCapital services request request.assets)) := by
  obtain ⟨hweight, collected, hcollected, hsome, htotal⟩ := execute_succeeds h herror
  have hperm : collected.equityCurves.items.Perm
      (summedCurves services request request.assets) := foldlM_collectAsset hcollected
  have hdates : orderedDates collected.equityCurves ≠ [] := by
    obtain ⟨entry, hentry⟩ := List.exists_mem_of_ne_nil _ hsome
    obtain ⟨asset, hasset, hcurve, hne⟩ := mem_summedCurves (hperm.mem_iff.mp hentry)
    rw [hcurve] at hne
    obtain ⟨before, point, after, hsplit, hdate, -⟩ := hcurves asset hasset hne
    rw [Ne, orderedDates_eq_nil_iff]
    intro hnone
    have hmem : point.date ∈ curveDates entry.2 := by
      rw [hcurve, hsplit]
      exact List.mem_filter.mpr ⟨List.mem_map.mpr ⟨point, by simp, rfl⟩, decide_eq_true hdate⟩
    rw [hnone entry hentry] at hmem
    cases hmem
  have hsum : (collected.equityCurves.items.map fun entry => settledValue entry.2).sum
      = wholeValue services request - lostCapital services request request.assets := by
    rw [(hperm.map _).sum_eq, sum_summedCurves hcurves, wholeValue_eq hweight]
  rw [htotal, aggregateEquity_totalReturn, if_neg hdates, hsum]

/-- **The total return accounts for all capital** if all of it is counted: no asset with cash
failed, none with equity has its symbol come again, and the assets do not end with nothing. Where
the report would show the difference, it does so only then. -/
theorem totalReturn_iff {result : PortfolioResult}
    (h : execute services request = .ok result) (herror : result.error = []) :
    (CapitalCounted services request → AccountsForAll services request result) ∧
    (0 < request.initialCash →
      (∀ asset ∈ request.assets, curveOf services request asset ≠ [] →
        EndsLatest (curveOf services request asset)) →
      Visible services request →
      (AccountsForAll services request result ↔ CapitalCounted services request)) := by
  have hsound : CapitalCounted services request → AccountsForAll services request result := by
    rintro ⟨hcurves, hkept, htotal⟩
    show result.totalReturn = reportedReturn request.initialCash (wholeValue services request)
    rw [totalReturn_eq h herror hcurves, hkept, sub_zero, orInitialCash, if_neg htotal]
  refine ⟨hsound, fun hcash hcurves hvisible => ⟨fun haccounts => ?_, hsound⟩⟩
  replace haccounts : result.totalReturn =
      reportedReturn request.initialCash (wholeValue services request) := haccounts
  rw [totalReturn_eq h herror hcurves] at haccounts
  have hclose := abs_sub_le_of_reportedReturn hcash haccounts
  unfold orInitialCash at hclose
  split at hclose
  · rename_i hzero
    rw [abs_sub_comm] at hclose
    exact absurd hclose (not_le.mpr (hvisible.nothing (sub_eq_zero.mp hzero)))
  · rename_i hsome
    rw [sub_sub_cancel_left, abs_neg] at hclose
    have hkept : lostCapital services request request.assets = 0 := by
      by_contra hlost
      exact absurd hclose (not_le.mpr (hvisible.lost hlost))
    rw [hkept, sub_zero] at hsome
    exact ⟨hcurves, hkept, hsome⟩

end Capital

/-! ## §6 A portfolio that never trades -/

/-- A strategy that holds. -/
def holdAlways : TradingStrategy Unit where
  onReset memory := memory
  onBar memory _ _ := (memory, none)

/-- A row at 100. -/
def flatRow (index : ℕ) (date : String) : Row ℕ where
  index := index
  label := date
  date := date
  openPrice := some 100
  high := some 101
  low := some 99
  close := some 100

/-- The engine, a converter that is given rows, and one strategy. -/
def flatServices : PortfolioServices (Row ℕ) ℕ Unit where
  create name := .ok (if name = "hold" then some (holdAlways, ()) else none)
  barsToFrame rows := .ok (some { columns := ["open", "high", "low", "close"], rows := rows })
  run := BacktestRunner.run
    { floatMath := { sqrt := fun _ => 0, pow := fun _ _ => 0 }
      fromisoformat := fun _ => none }
  floatMath := { sqrt := fun _ => 0, pow := fun _ _ => 0 }

/-- A request for two assets with the same weight. -/
def flatRequest (symbol strategyName : String) : PortfolioBacktestRequest (Row ℕ) where
  assets :=
    [{ symbol := "AAA", strategyName := "hold"
       bars := [flatRow 0 "2024-01-01", flatRow 1 "2024-01-02"] },
      { symbol := symbol, strategyName := strategyName
        bars := [flatRow 0 "2024-01-01", flatRow 1 "2024-01-02"] }]
  initialCash := 1000
  interval := "1d"

/-- Neither of two assets trades. With a strategy that is not found, and
with a symbol that comes twice, half of the cash is reported as lost. -/
theorem half_of_cash_lost :
    (Ensures (execute flatServices (flatRequest "BBB" "missing")) fun result =>
      result.error = [] ∧ result.totalReturn = -1 / 2 ∧
        ¬ AccountsForAll flatServices (flatRequest "BBB" "missing") result) ∧
    (Ensures (execute flatServices (flatRequest "AAA" "hold")) fun result =>
      result.error = [] ∧ result.totalReturn = -1 / 2 ∧
        ¬ AccountsForAll flatServices (flatRequest "AAA" "hold") result) := by
  refine ⟨Ensures.of_run ?_, Ensures.of_run ?_⟩
  all_goals decide +kernel

/-- Two assets that both succeed, under their own symbols. -/
theorem totalReturn_iff_flat : Ensures (execute flatServices (flatRequest "BBB" "hold"))
    fun result => AccountsForAll flatServices (flatRequest "BBB" "hold") result := by
  have hrun : Ensures (execute flatServices (flatRequest "BBB" "hold"))
      fun result => result.error = [] := Ensures.of_run (by decide +kernel)
  obtain ⟨result, hresult, herror⟩ := hrun
  refine ⟨result, hresult, (totalReturn_iff hresult herror).1 ⟨?_, ?_, ?_⟩⟩
  · intro asset hasset _
    have hends : ∀ asset ∈ (flatRequest "BBB" "hold").assets,
        ∃ last ∈ (curveOf flatServices (flatRequest "BBB" "hold") asset).getLast?,
          last.date ≠ "" ∧ ∀ point ∈ curveOf flatServices (flatRequest "BBB" "hold") asset,
            point.date ≤ last.date := by decide +kernel
    obtain ⟨last, hlast, hne, hsorted⟩ := hends asset hasset
    exact endsLatest_of_sorted hlast hne hsorted
  · decide +kernel
  · decide +kernel

end Finbar.Portfolio
