/-
Finbar.Derivatives.Merger — `merge_derivatives_asof` (`derivatives_merger.py`),
the merge of an indicator job (`_merge_derivatives_if_needed`) and
`SqlCoinGlassRepository`.

Times are nanoseconds, since the epoch in an aware index and on the wall clock
in a naive one. `pd.to_datetime` and the zones are parameters. `sort_index` may
put rows of one time in any order, and leaves a sorted frame alone
(`IndexSort`). A merged frame comes with the row that each bar shows, which the
code does not keep: statements about what a bar can see refer to it.

No `sorry`, no `axiom`.
-/
import Finbar.Enrichment.Merger
import Finbar.IndicatorJobs.Runner

namespace Finbar.Derivatives

open Lib Lib.Python Lib.AsOf Finbar.Enrichment Finbar.IndicatorJobs

/-! ## §1 Rows -/

/-- `DERIVATIVES_FIELDS`. -/
inductive DerivativesField where
  | openInterest
  | openInterestDelta1h
  | openInterestDelta24h
  | cumulativeVolumeDelta
  | fundingRate
  | fundingRateAnnualised
  | longShortRatio
  | liquidationsLong1h
  | liquidationsShort1h
  | liquidationsLong24h
  | liquidationsShort24h
  deriving DecidableEq, Repr

namespace DerivativesField

/-- The fields in order. -/
def all : List DerivativesField :=
  [.openInterest, .openInterestDelta1h, .openInterestDelta24h, .cumulativeVolumeDelta,
    .fundingRate, .fundingRateAnnualised, .longShortRatio, .liquidationsLong1h,
    .liquidationsShort1h, .liquidationsLong24h, .liquidationsShort24h]

/-- The attribute's name. -/
def name : DerivativesField → String
  | openInterest => "open_interest"
  | openInterestDelta1h => "open_interest_delta_1h"
  | openInterestDelta24h => "open_interest_delta_24h"
  | cumulativeVolumeDelta => "cumulative_volume_delta"
  | fundingRate => "funding_rate"
  | fundingRateAnnualised => "funding_rate_annualised"
  | longShortRatio => "long_short_ratio"
  | liquidationsLong1h => "liquidations_long_1h"
  | liquidationsShort1h => "liquidations_short_1h"
  | liquidationsLong24h => "liquidations_long_24h"
  | liquidationsShort24h => "liquidations_short_24h"

theorem mem_all (field : DerivativesField) : field ∈ all := by
  cases field <;> decide

theorem nodup_names : (all.map name).Nodup := by decide

end DerivativesField

/-- `DerivativesMetrics`, with the fields that are not `None`. -/
structure DerivativesMetrics where
  symbol : String := ""
  timestamp : String := ""
  interval : String := ""
  fields : List (DerivativesField × PyFloat) := []
  deriving DecidableEq

/-- `_get_float`. -/
def getFloat (row : DerivativesMetrics) (field : DerivativesField) : Option PyFloat :=
  (row.fields.lookup field).filter fun value => !value.isNan

/-! ## §2 The repository -/

/-- `_orm_to_domain` of `_domain_to_orm`: the table has no annualised rate. -/
def storedMetrics (metrics : DerivativesMetrics) : DerivativesMetrics :=
  { metrics with
    fields := metrics.fields.filter fun entry => entry.1 ≠ .fundingRateAnnualised }

/-- `SqlCoinGlassRepository.find` of a symbol, in a table of distinct symbols
and timestamps. -/
def findMetrics (table : List DerivativesMetrics) (symbol : String) :
    List DerivativesMetrics :=
  ((table.filter fun row => row.symbol = symbol).insertionSort
    fun a b => a.timestamp ≤ b.timestamp).map storedMetrics

/-! ## §3 pandas -/

/-- A time zone. -/
structure Zone where
  /-- `tz_localize`: the instant of a time on the wall clock, an error where it
  is ambiguous or does not exist. -/
  localize : Timestamp → Except PyError Timestamp

/-- A `pd.DatetimeIndex`; without a zone it is naive. -/
structure DatetimeIndex where
  zone : Option Zone
  times : List Timestamp

/-- `sort_index`. -/
structure IndexSort (α : Type) where
  sort : List (Timestamp × α) → List (Timestamp × α)
  perm : ∀ entries, (sort entries).Perm entries
  sorted : ∀ entries, Sorted (sort entries)
  stays : ∀ entries, Sorted entries → sort entries = entries

/-- A row with its parsed timestamp. -/
structure Entry where
  row : DerivativesMetrics
  timestamp : Timestamp
  deriving DecidableEq

/-- What the merge uses of pandas. -/
structure Pandas where
  toDatetime : List String → Except PyError DatetimeIndex
  sortIndex : IndexSort Entry

/-- The rows' times in the comparison: naive ones are put into the zone of an
aware frame. `tz_convert` moves no instant. -/
def rowClock (rows frame : Option Zone) (t : Timestamp) : Except PyError Timestamp :=
  match rows, frame with
  | none, some zone => zone.localize t
  | _, _ => .ok t

/-- The bars' times in the comparison. -/
def frameClock (rows frame : Option Zone) (t : Timestamp) : Except PyError Timestamp :=
  match rows, frame with
  | some zone, none => zone.localize t
  | _, _ => .ok t

/-! ## §4 The merge -/

/-- A frame: its index and its columns. -/
structure OhlcvFrame where
  index : DatetimeIndex
  columns : OrderedDict String (List PyValue) := {}

/-- A bar's time in the comparison, and the row it shows. -/
structure ShownRow where
  time : Timestamp
  entry : Option Entry
  deriving DecidableEq

/-- A merged frame; `shown` is empty if nothing is merged. -/
structure MergedFrame where
  frame : OhlcvFrame
  shown : List ShownRow := []

/-- `_add_empty_columns`. -/
def addEmptyColumns (frame : OhlcvFrame) : OhlcvFrame :=
  { frame with
    columns := frame.columns.assignAll (DerivativesField.all.map fun field =>
      (field.name, frame.index.times.map fun _ => .num .nan)) }

/-- `_build_availability_frame`, as rows by availability. -/
def buildAvailabilityFrame (pandas : Pandas) (entries : List Entry)
    (availability : List Timestamp) : List (Timestamp × Entry) :=
  dropDuplicated (pandas.sortIndex.sort (availability.zip entries))

/-- The cell of a shown row. -/
def shownCell (field : DerivativesField) (shown : ShownRow) : PyValue :=
  .num (((shown.entry.map Entry.row).bind fun row => getFloat row field).getD .nan)

/-- `merge_derivatives_asof`, of all columns. -/
def mergeDerivativesAsof (pandas : Pandas) (frame : OhlcvFrame)
    (rows : List DerivativesMetrics) (interval : String) : Except PyError MergedFrame :=
  if rows = [] then .ok { frame := addEmptyColumns frame }
  else do
    let offset ← intervalOffset interval
    let timestamps ← pandas.toDatetime (rows.map DerivativesMetrics.timestamp)
    let availability ← timestamps.times.mapM fun t =>
      rowClock timestamps.zone frame.index.zone (t + offset)
    let resultIndex ← frame.index.times.mapM (frameClock timestamps.zone frame.index.zone)
    let entries := List.zipWith Entry.mk rows timestamps.times
    let available := buildAvailabilityFrame pandas entries availability
    let shown := resultIndex.map fun t => { time := t, entry := (asOf available t).map Prod.snd }
    return {
      frame := { frame with
        columns := frame.columns.assignAll (DerivativesField.all.map fun field =>
          (field.name, shown.map (shownCell field))) }
      shown := shown }

/-- `_merge_derivatives_if_needed`; `find` is that of the repository, if there
is one. -/
def mergeDerivativesIfNeeded (pandas : Pandas)
    (find : Option (String → List DerivativesMetrics)) (job : IndicatorJob)
    (frame : OhlcvFrame) (indicators : List String) : Except PyError MergedFrame :=
  match find with
  | none => .ok { frame := frame }
  | some find =>
      if !indicators.any derivativesIndicators.contains then .ok { frame := frame }
      else
        match find job.symbol with
        | [] => .ok { frame := frame }
        | row :: rows =>
            mergeDerivativesAsof pandas frame (row :: rows)
              (if job.interval = "" then "1d" else job.interval)

end Finbar.Derivatives
