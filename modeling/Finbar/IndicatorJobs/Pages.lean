/-
Finbar.IndicatorJobs.Pages — filtering, projecting and paging the bars of an artifact:
`_page_bars` of the SQL artifact repository, which filters first, and `_page_bars`
of the in-memory job manager, which does it all in one pass.

What `str` makes of a timestamp is the parameter `text`. A page is what the calls
return: rows, page, page size, page count, total and columns.

No `sorry`, no `axiom`.
-/
import Finbar.IndicatorJobs.Runner
import Finbar.Lib.Paging
import Finbar.Lib.Window

namespace Finbar.IndicatorJobs

open Lib Lib.Python Lib.Paging

/-! ## §1 Filters and columns -/

/-- What is asked of an artifact: columns, dates, page and page size. -/
structure PageRequest where
  columns : Option (List String) := none
  startDate : Option String := none
  endDate : Option String := none
  page : ℤ := 0
  pageSize : ℤ := 500

/-- The columns that are asked for, if there are any. -/
def PageRequest.chosen (request : PageRequest) : Option (List String) :=
  match request.columns with
  | some (column :: columns) => some (column :: columns)
  | _ => none

/-- `max(1, min(page_size, 1000))`. -/
def PageRequest.size (request : PageRequest) : ℤ :=
  max 1 (min request.pageSize 1000)

/-- The timestamp passes the date filters; an empty date filters nothing. -/
def PageRequest.admits (text : PyValue → String) (request : PageRequest) (bar : BarDict) : Bool :=
  inRange request.startDate request.endDate (text ((bar.get "timestamp").getD (.str "")))

/-- `_filter_bars`. -/
def filterBars (text : PyValue → String) (request : PageRequest) (bars : List BarDict) :
    List BarDict :=
  bars.filter (request.admits text)

/-- `_columns_from_bars`: every key, where it first occurs. -/
def columnsFromBars (bars : List BarDict) : List String :=
  keepFirst id [] (bars.flatMap OrderedDict.keys)

/-- `_project_bar`. -/
def projectBar (bar : BarDict) (columns : List String) : BarDict :=
  OrderedDict.assignAll {} (columns.map fun column => (column, (bar.get column).getD .none))

/-- What the calls return. -/
structure Page where
  rows : List BarDict
  page : ℤ
  pageSize : ℤ
  totalPages : ℤ
  total : ℕ
  columns : List String

/-- `(total + page_size - 1) // page_size if total else 0`. -/
def totalPages (total : ℕ) (pageSize : ℤ) : ℤ :=
  if total = 0 then 0 else (total + pageSize - 1) / pageSize

/-- `max(0, min(page, total_pages - 1)) if total_pages else 0`. -/
def clampPage (page pages : ℤ) : ℤ :=
  if pages = 0 then 0 else max 0 (min page (pages - 1))

/-! ## §2 The SQL artifact repository -/

/-- `_page_bars` of the repository. -/
def Sql.pageBars (text : PyValue → String) (bars : List BarDict) (request : PageRequest) : Page :=
  let filtered := filterBars text request bars
  let total := filtered.length
  let selectedColumns := request.chosen.getD (columnsFromBars filtered)
  let pageSize := request.size
  let pages := totalPages total pageSize
  let page := clampPage request.page pages
  let start := page * pageSize
  let stop := min (start + pageSize) total
  { rows := (Window.pySlice filtered start stop).map fun bar => projectBar bar selectedColumns
    page := page
    pageSize := pageSize
    totalPages := pages
    total := total
    columns := selectedColumns }

/-! ## §3 The in-memory job manager -/

/-- What the single pass carries. -/
structure Pass where
  selectedColumns : Option (List String)
  projected : List BarDict
  total : ℕ

/-- One bar of the pass. -/
def Pass.take (text : PyValue → String) (request : PageRequest) (s : Pass) (bar : BarDict) : Pass :=
  let startIdx := request.page * request.size
  let endIdx := startIdx + request.size
  if request.admits text bar then
    let columns := s.selectedColumns.getD bar.keys
    { selectedColumns := some columns
      projected :=
        if startIdx ≤ s.total ∧ (s.total : ℤ) < endIdx then
          s.projected ++ [projectBar bar columns]
        else s.projected
      total := s.total + 1 }
  else s

/-- `_page_bars` of the manager. -/
def Memory.pageBars (text : PyValue → String) (bars : List BarDict) (request : PageRequest) :
    Page :=
  let pass := bars.foldl (Pass.take text request) ⟨request.chosen, [], 0⟩
  let pages := totalPages pass.total request.size
  { rows := pass.projected
    page := clampPage request.page pages
    pageSize := request.size
    totalPages := pages
    total := pass.total
    columns := pass.selectedColumns.getD [] }

/-- `query_artifact_bars`, over the bars that are kept for the job; `none` is its
`KeyError`. With a database the repository pages. -/
def queryArtifactBars (text : PyValue → String) (persistent : Bool) (bars : Option (List BarDict))
    (request : PageRequest) : Option Page :=
  bars.map fun bars =>
    if persistent then Sql.pageBars text bars request else Memory.pageBars text bars request

end Finbar.IndicatorJobs
