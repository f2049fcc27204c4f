/-
Finbar.Enrichment.Merger — `merge_timeframes`: the batch merge of an
informative frame into a primary one.

A frame is its columns and its rows; a row that lacks a column has a missing
cell there. Cells are floats after the conversion, NaN for a missing one.
`sort_index` leaves a frame alone that is sorted; on others the model sorts
stably.

No `sorry`, no `axiom`.
-/
import Finbar.Enrichment.Enricher
import Mathlib.Data.List.Sort

namespace Finbar.Enrichment

open Lib Lib.Python Lib.AsOf

/-! ## §1 Numbers -/

/-- `_CATEGORICAL_MAP`. -/
def categoricalMap : List (String × ℚ) :=
  [("STRONG", 3), ("MODERATE", 2), ("WEAK", 1), ("UP", 1), ("DOWN", -1), ("NEUTRAL", 0),
    ("RANGING", 0), ("FLAT", 0), ("BULLISH", 1), ("BEARISH", -1), ("NONE", 0)]

/-- `to_numeric`; `none` is `None`. -/
def toNumeric : PyValue → Option PyFloat
  | .none => none
  | .num x => some x
  | .bool b => some (.fin (if b then 1 else 0))
  | .str s =>
      match categoricalMap.lookup (String.ofList (s.toList.map Char.toUpper)) with
      | some q => some (.fin q)
      | none => floatOfText s
  | .list _ => none

/-- A cell of a numeric frame: NaN where a value is missing. -/
def numericCell (value : Option PyValue) : PyFloat :=
  ((value.bind toNumeric).getD .nan)

/-! ## §2 The frame of available rows -/

/-- An informative or primary frame. -/
structure Frame where
  columns : List String
  rows : List (Timestamp × Row)
  nodup : columns.Nodup := by decide

/-- `_selected_columns`. -/
def selectedColumns (frame : Frame) (columns : Option (List String)) : List String :=
  match columns with
  | some columns => columns.filter (fun column => decide (column ∈ frame.columns))
  | none => frame.columns.filter (fun column => decide (column ∉ ohlcv))

/-- The cells of a row that a merge writes, under their suffixed names. -/
abbrev Cells := List (String × PyFloat)

/-- The numeric cells of the selected columns. -/
def cellsOf (columns : List String) (suffix : String) (row : Row) : Cells :=
  columns.map fun column => (column ++ suffix, numericCell (row.get column))

/-- `index.duplicated(keep="last")`, the rows it does not flag. -/
def dropDuplicated {α : Type} : List (Timestamp × α) → List (Timestamp × α)
  | [] => []
  | entry :: entries =>
      if entries.any (fun later => decide (later.1 = entry.1)) then dropDuplicated entries
      else entry :: dropDuplicated entries

/-- `dropna(how="all")`, on one row. -/
def hasValue (entry : Timestamp × Cells) : Bool :=
  entry.2.any (fun cell => !cell.2.isNan)

/-- `_build_available_informative_frame`. -/
def buildAvailableInformativeFrame (informative : Frame) (columns : List String)
    (offset : ℤ) (suffix : String) : List (Timestamp × Cells) :=
  let frame := informative.rows.map fun entry =>
    (entry.1 + offset, cellsOf columns suffix entry.2)
  let sorted := frame.insertionSort (fun a b => a.1 ≤ b.1)
  (dropDuplicated sorted).filter hasValue

/-! ## §3 The merge -/

/-- `info.reindex(primary_index, method="ffill")` at one timestamp. -/
def alignedCells (info : List (Timestamp × Cells)) (columns : List String) (suffix : String)
    (t : Timestamp) : Cells :=
  match asOf info t with
  | some entry => entry.2
  | none => columns.map fun column => (column ++ suffix, .nan)

/-- `merge_timeframes`: the primary rows with the suffixed columns. -/
def mergeTimeframes (primary informative : Frame) (interval : String)
    (columns : Option (List String)) : Except PyError (List (Timestamp × Row)) :=
  if informative.rows = [] then .ok primary.rows
  else
    let selected := selectedColumns informative columns
    if selected = [] then .ok primary.rows
    else do
      let suffix := "_" ++ interval
      let offset ← intervalOffset interval
      let info := buildAvailableInformativeFrame informative selected offset suffix
      if info = [] then return primary.rows
      else
        return primary.rows.map fun entry =>
          (entry.1, entry.2.assignAll
            ((alignedCells info selected suffix entry.1).map fun cell =>
              (cell.1, PyValue.num cell.2)))

end Finbar.Enrichment
