/-
Finbar.Backtest.Frame — the frame a backtest reads and its validation
(`backtest_data_validator.py`).

A raw row may miss prices (`none` is NaN: absent, or not numeric). A `Bar` is
a row that passed validation and carries what validation established: its
low is positive and its range encloses its open and close. `Frame.bars`
reads the bars off a frame; on an accepted frame it keeps every row
(`bars_of_validated`).

No `sorry`, no `axiom`.
-/
import Finbar.Lib.PyValue
import Mathlib.Data.List.Sort
import Mathlib.Order.Basic

namespace Finbar.Backtest

open Lib.Python

/-! ## §1 Rows, frames and bars -/

/-- A row of an OHLCV/indicator frame. -/
structure Row (ι : Type) where
  /-- The row's index value. -/
  index : ι
  /-- `str` of the index value, as messages show it. -/
  label : String
  /-- The ISO date string `_precompute_dates` builds for it. -/
  date : String
  /-- Its date and time, as `first_tradable` reports it. -/
  stamp : String := ""
  openPrice : Option ℚ
  high : Option ℚ
  low : Option ℚ
  close : Option ℚ
  /-- The row's other columns. -/
  extra : List (String × PyValue) := []

/-- A price cell as a Python value. -/
def priceCell : Option ℚ → PyValue
  | some q => .ofRat q
  | none => .num .nan

/-- The cell of a row in a column of the frame. -/
def Row.cell {ι : Type} (row : Row ι) (column : String) : PyValue :=
  if column = "open" then priceCell row.openPrice
  else if column = "high" then priceCell row.high
  else if column = "low" then priceCell row.low
  else if column = "close" then priceCell row.close
  else (row.extra.lookup column).getD .none

/-- A frame: its column names and its rows. -/
structure Frame (ι : Type) where
  columns : List String
  rows : List (Row ι)

/-- A validated bar. -/
structure Bar where
  openPrice : ℚ
  high : ℚ
  low : ℚ
  close : ℚ
  date : String
  extra : List (String × PyValue) := []
  low_pos : 0 < low
  low_le_open : low ≤ openPrice
  open_le_high : openPrice ≤ high
  low_le_close : low ≤ close
  close_le_high : close ≤ high

theorem Bar.low_le_high (bar : Bar) : bar.low ≤ bar.high :=
  bar.low_le_open.trans bar.open_le_high

theorem Bar.open_pos (bar : Bar) : 0 < bar.openPrice :=
  bar.low_pos.trans_le bar.low_le_open

/-- The bar of a row, when its prices are present and consistent. -/
def Row.bar? {ι : Type} (row : Row ι) : Option Bar :=
  match row.openPrice, row.high, row.low, row.close with
  | some o, some h, some l, some c =>
      if hb : 0 < l ∧ l ≤ o ∧ o ≤ h ∧ l ≤ c ∧ c ≤ h then
        some
          { openPrice := o, high := h, low := l, close := c, date := row.date
            extra := row.extra, low_pos := hb.1, low_le_open := hb.2.1
            open_le_high := hb.2.2.1, low_le_close := hb.2.2.2.1
            close_le_high := hb.2.2.2.2 }
      else none
  | _, _, _, _ => none

/-- The bars of a frame. -/
def Frame.bars {ι : Type} (frame : Frame ι) : List Bar :=
  frame.rows.filterMap Row.bar?

/-- `frame.iloc[n:]`. -/
def Frame.drop {ι : Type} (frame : Frame ι) (n : ℕ) : Frame ι :=
  { frame with rows := frame.rows.drop n }

/-! ## §2 Validation -/

/-- A comparison of two price cells; one with NaN is false. -/
def cellsSatisfy (p : ℚ → ℚ → Bool) : Option ℚ → Option ℚ → Bool
  | some a, some b => p a b
  | _, _ => false

/-- The first of two optional errors. -/
def firstError (e : Option Message) (rest : Option Message) : Option Message :=
  match e with
  | some m => some m
  | none => rest

theorem firstError_eq_none {e rest : Option Message} :
    firstError e rest = none ↔ e = none ∧ rest = none := by
  cases e with
  | none => simp [firstError]
  | some m => simp [firstError]

/-- `_row_label` on the rows a mask selects: the error naming the first of
them, if there is one. -/
def maskError {ι : Type} (frame : Frame ι) (template : String) (mask : Row ι → Bool) :
    Option Message :=
  (frame.rows.find? mask).map fun row =>
    { template := template, args := [.text row.label] }

theorem maskError_eq_none {ι : Type} {frame : Frame ι} {template : String}
    {mask : Row ι → Bool} :
    maskError frame template mask = none ↔ ∀ row ∈ frame.rows, mask row = false := by
  simp [maskError]

/-- `_REQUIRED_PRICE_COLUMNS`. -/
def requiredPriceColumns : List String :=
  ["open", "high", "low", "close"]

variable {ι : Type}

/-- The second occurrences in an index: `index.duplicated()`. -/
def duplicated [DecidableEq ι] (seen : List ι) : List (Row ι) → List (Row ι)
  | [] => []
  | row :: rows =>
      if row.index ∈ seen then row :: duplicated seen rows
      else duplicated (row.index :: seen) rows

/-- `_validate_index`. -/
def validateIndex [LinearOrder ι] (frame : Frame ι) : Option Message :=
  match duplicated [] frame.rows with
  | row :: _ =>
      some { template := "Duplicate bar timestamp/index: %", args := [.text row.label] }
  | [] =>
      if (frame.rows.map Row.index).Pairwise (· ≤ ·) then none
      else some { template := "Backtest bars must be sorted by timestamp/index" }

/-- `_validate_numeric_prices`. -/
def validateNumericPrices (frame : Frame ι) : Option Message :=
  let isna (row : Row ι) : Bool :=
    row.openPrice.isNone || row.high.isNone || row.low.isNone || row.close.isNone
  let nonPositive (row : Row ι) : Bool :=
    [row.openPrice, row.high, row.low, row.close].any fun cell =>
      cellsSatisfy (fun a b => decide (a ≤ b)) cell (some 0)
  firstError (maskError frame "OHLC values must be numeric and non-missing at %" isna)
    (maskError frame "OHLC values must be positive at %" nonPositive)

/-- `_validate_price_consistency`. -/
def validatePriceConsistency (frame : Frame ι) : Option Message :=
  let below := cellsSatisfy fun a b => decide (a < b)
  firstError
    (maskError frame "Invalid OHLC bar: high is below low at %"
      fun row => below row.high row.low)
    (firstError
      (maskError frame "Invalid OHLC bar: high is below open/close at %"
        fun row => below row.high row.openPrice || below row.high row.close)
      (maskError frame "Invalid OHLC bar: low is above open/close at %"
        fun row => below row.openPrice row.low || below row.close row.low))

/-- `validate_backtest_frame`: `none` when the frame is executable, else the
message of the first validation failure. -/
def validateBacktestFrame [LinearOrder ι] (frame : Frame ι) : Option Message :=
  let missing := requiredPriceColumns.filter fun c => !frame.columns.contains c
  if missing ≠ [] then
    some { template := "Missing required OHLC columns: %"
           args := [.text (", ".intercalate missing)] }
  else
    firstError (validateIndex frame)
      (firstError (validateNumericPrices frame) (validatePriceConsistency frame))

/-! ## §3 What an accepted frame is -/

theorem isNone_eq_false {α : Type} {o : Option α} (h : o.isNone = false) :
    ∃ a, o = some a := by
  cases o with
  | none => cases h
  | some a => exact ⟨a, rfl⟩

/-- A row that no price check rejects has a bar. -/
theorem bar?_of_checks {row : Row ι} {frame : Frame ι} (hrow : row ∈ frame.rows)
    (hn : validateNumericPrices frame = none)
    (hc : validatePriceConsistency frame = none) :
    ∃ bar, row.bar? = some bar := by
  simp only [validateNumericPrices, firstError_eq_none, maskError_eq_none,
    Bool.or_eq_false_iff] at hn
  simp only [validatePriceConsistency, firstError_eq_none, maskError_eq_none,
    Bool.or_eq_false_iff] at hc
  obtain ⟨⟨⟨ho, hh⟩, hl⟩, hcl⟩ := hn.1 row hrow
  obtain ⟨o, ho⟩ := isNone_eq_false ho
  obtain ⟨h, hh⟩ := isNone_eq_false hh
  obtain ⟨l, hl⟩ := isNone_eq_false hl
  obtain ⟨c, hcl⟩ := isNone_eq_false hcl
  have hpos := hn.2 row hrow
  have hho := (hc.2.1 row hrow).1
  have hhc := (hc.2.1 row hrow).2
  have hlo := (hc.2.2 row hrow).1
  have hlc := (hc.2.2 row hrow).2
  simp only [ho, hh, hl, hcl, cellsSatisfy, List.any_cons, List.any_nil,
    Bool.or_false, Bool.or_eq_false_iff, decide_eq_false_iff_not, not_le,
    not_lt] at hpos hho hhc hlo hlc
  unfold Row.bar?
  rw [ho, hh, hl, hcl]
  simp only
  rw [dif_pos ⟨hpos.2.2.1, hlo, hho, hlc, hhc⟩]
  exact ⟨_, rfl⟩

/-- **Validation.** Every row of an accepted frame is a bar: `Frame.bars`
keeps them all, in order. -/
theorem bars_of_validated [LinearOrder ι] {frame : Frame ι}
    (h : validateBacktestFrame frame = none) :
    frame.rows.map Row.bar? = frame.bars.map some := by
  unfold validateBacktestFrame at h
  simp only at h
  split at h
  · cases h
  · simp only [firstError_eq_none] at h
    have hrows : ∀ rows : List (Row ι), (∀ row ∈ rows, row ∈ frame.rows) →
        rows.map Row.bar? = (rows.filterMap Row.bar?).map some := by
      intro rows
      induction rows with
      | nil => intro _; rfl
      | cons row rows ih =>
          intro hmem
          obtain ⟨bar, hbar⟩ :=
            bar?_of_checks (hmem row List.mem_cons_self) h.2.1 h.2.2
          rw [List.map_cons, List.filterMap_cons_some hbar, List.map_cons, hbar,
            ih (fun r hr => hmem r (List.mem_cons_of_mem row hr))]
    exact hrows frame.rows (fun _ hr => hr)

end Finbar.Backtest
