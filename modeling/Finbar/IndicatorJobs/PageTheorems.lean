/-
Finbar.IndicatorJobs.PageTheorems — when paging an artifact does not depend on where
it is served from.

The single pass of the in-memory manager slices at the page that was asked for and
clamps the page afterwards, and takes its columns from the first bar that passes the
filters (`memory_pageBars`). It returns what the SQL repository returns exactly if
nothing passes the filters, or the page exists and the columns are chosen or all on
the first bar (`pageBars_eq_iff`).

No `sorry`, no `axiom`.
-/
import Finbar.IndicatorJobs.Pages

namespace Finbar.IndicatorJobs

open Lib Lib.Python Lib.Paging Lib.Window

variable {text : PyValue → String} {request : PageRequest} {bars : List BarDict}

/-! ## §1 Slices -/

theorem cut_eq {α : Type} (xs : List α) (start stop : ℤ) :
    cut xs ⟨start, stop⟩ = (xs.take stop.toNat).drop start.toNat := rfl

/-- One more item is cut out exactly if its position lies in the window. -/
theorem cut_concat {α : Type} (xs : List α) (x : α) {start stop : ℤ} :
    cut (xs ++ [x]) ⟨start, stop⟩ =
      cut xs ⟨start, stop⟩ ++ if start ≤ xs.length ∧ (xs.length : ℤ) < stop then [x] else [] := by
  rw [cut_eq, cut_eq]
  by_cases hstop : (xs.length : ℤ) < stop
  · rw [List.take_of_length_le (by rw [List.length_append, List.length_singleton]; omega),
      List.take_of_length_le (by omega)]
    by_cases hstart : start ≤ xs.length
    · rw [if_pos ⟨hstart, hstop⟩, List.drop_append_of_le_length (by omega)]
    · rw [if_neg (fun h => hstart h.1), List.append_nil, List.drop_eq_nil_of_le
        (by rw [List.length_append, List.length_singleton]; omega),
        List.drop_eq_nil_of_le (by omega)]
  · rw [if_neg (fun h => hstop h.2), List.append_nil,
      List.take_append_of_le_length (by omega)]

/-- A slice is empty exactly if it starts behind the list or stops where it starts. -/
theorem cut_eq_nil_iff {α : Type} {xs : List α} {start stop : ℤ} (hstart : 0 ≤ start) :
    cut xs ⟨start, stop⟩ = [] ↔ stop ≤ start ∨ (xs.length : ℤ) ≤ start := by
  rw [cut_eq, List.drop_eq_nil_iff, List.length_take]
  omega

/-- Positions behind the list cut nothing out. -/
theorem cut_min_length {α : Type} (xs : List α) (start stop : ℤ) :
    cut xs ⟨start, min stop xs.length⟩ = cut xs ⟨start, stop⟩ := by
  rw [cut_eq, cut_eq]
  rcases le_total stop xs.length with h | h
  · rw [min_eq_left h]
  · rw [min_eq_right h, List.take_of_length_le (by simp), List.take_of_length_le (by omega)]

/-! ## §2 Page counts -/

theorem size_pos (request : PageRequest) : 0 < request.size := by
  unfold PageRequest.size
  omega

/-- **A page exists exactly if its first position does.** -/
theorem lt_totalPages_iff {total : ℕ} (htotal : 0 < total) {size : ℤ} (hsize : 0 < size)
    (page : ℤ) : page < totalPages total size ↔ page * size < total := by
  unfold totalPages
  rw [if_neg (by omega)]
  constructor
  · intro h
    have hmul : (page + 1) * size ≤ total + size - 1 :=
      (Int.le_ediv_iff_mul_le hsize).mp (by omega)
    rw [Int.add_mul, Int.one_mul] at hmul
    omega
  · intro h
    have hle : page + 1 ≤ (total + size - 1) / size := by
      rw [Int.le_ediv_iff_mul_le hsize, Int.add_mul, Int.one_mul]
      omega
    omega

theorem totalPages_pos {total : ℕ} (htotal : 0 < total) {size : ℤ} (hsize : 0 < size) :
    0 < totalPages total size := by
  rw [lt_totalPages_iff htotal hsize, Int.zero_mul]
  omega

theorem clampPage_eq_self {page pages : ℤ} (hzero : 0 ≤ page) (hlt : page < pages) :
    clampPage page pages = page := by
  unfold clampPage
  rw [if_neg (by omega)]
  omega

theorem clampPage_mem (page : ℤ) {pages : ℤ} (hpages : 0 < pages) :
    0 ≤ clampPage page pages ∧ clampPage page pages < pages := by
  unfold clampPage
  rw [if_neg (by omega)]
  omega

/-! ## §3 The single pass -/

/-- The columns of the first bar, unless some are chosen. -/
def firstColumns (request : PageRequest) (filtered : List BarDict) : Option (List String) :=
  match request.chosen with
  | some columns => some columns
  | none => filtered.head?.map OrderedDict.keys

/-- What the pass carries after some bars, the ones among them that pass the filters
being `filtered`. -/
def Pass.after (request : PageRequest) (filtered : List BarDict) : Pass where
  selectedColumns := firstColumns request filtered
  projected :=
    (cut filtered ⟨request.page * request.size, request.page * request.size + request.size⟩).map
      fun bar => projectBar bar ((firstColumns request filtered).getD [])
  total := filtered.length

theorem firstColumns_concat (filtered : List BarDict) (bar : BarDict) :
    firstColumns request (filtered ++ [bar]) =
      some ((firstColumns request filtered).getD bar.keys) := by
  unfold firstColumns
  cases request.chosen with
  | some columns => rfl
  | none => cases filtered <;> rfl

/-- Once a bar has passed, the columns are settled. -/
theorem firstColumns_getD {filtered : List BarDict} (h : filtered ≠ []) (columns : List String) :
    (firstColumns request filtered).getD columns = (firstColumns request filtered).getD [] := by
  unfold firstColumns
  cases request.chosen with
  | some columns => rfl
  | none =>
      cases filtered with
      | nil => exact absurd rfl h
      | cons bar filtered => rfl

theorem Pass.take_after (filtered : List BarDict) (bar : BarDict) :
    Pass.take text request (Pass.after request filtered) bar =
      Pass.after request (if request.admits text bar then filtered ++ [bar] else filtered) := by
  unfold Pass.take
  by_cases hadmits : request.admits text bar = true
  · rw [if_pos hadmits, if_pos hadmits]
    unfold Pass.after
    simp only [firstColumns_concat, Option.getD_some, List.length_append, List.length_singleton,
      cut_concat, List.map_append]
    congr 1
    have hold : (cut filtered ⟨request.page * request.size,
          request.page * request.size + request.size⟩).map
            (fun b => projectBar b ((firstColumns request filtered).getD [])) =
        (cut filtered ⟨request.page * request.size,
          request.page * request.size + request.size⟩).map
            fun b => projectBar b ((firstColumns request filtered).getD bar.keys) := by
      cases filtered with
      | nil => simp [cut]
      | cons first rest => rw [firstColumns_getD (List.cons_ne_nil first rest) bar.keys]
    rw [hold]
    split
    · rfl
    · rw [List.map_nil, List.append_nil]
  · rw [if_neg hadmits, if_neg hadmits]

theorem Pass.foldl_after (filtered : List BarDict) (bars : List BarDict) :
    bars.foldl (Pass.take text request) (Pass.after request filtered) =
      Pass.after request (filtered ++ filterBars text request bars) := by
  induction bars generalizing filtered with
  | nil =>
      unfold filterBars
      rw [List.filter_nil, List.append_nil]
      rfl
  | cons bar bars ih =>
      rw [List.foldl_cons, Pass.take_after, ih]
      unfold filterBars
      rw [List.filter_cons]
      split
      · rw [List.append_assoc, List.singleton_append]
      · rfl

/-- **The single pass slices the filtered bars at the page that was asked for.** -/
theorem memory_pageBars (text : PyValue → String) (bars : List BarDict) (request : PageRequest) :
    Memory.pageBars text bars request =
      let filtered := filterBars text request bars
      let columns := (firstColumns request filtered).getD []
      let pages := totalPages filtered.length request.size
      { rows := (cut filtered ⟨request.page * request.size,
          request.page * request.size + request.size⟩).map fun bar => projectBar bar columns
        page := clampPage request.page pages
        pageSize := request.size
        totalPages := pages
        total := filtered.length
        columns := columns } := by
  have hinit : (⟨request.chosen, [], 0⟩ : Pass) = Pass.after request [] := by
    unfold Pass.after firstColumns
    cases request.chosen <;> simp [cut]
  unfold Memory.pageBars
  rw [hinit, Pass.foldl_after, List.nil_append]
  rfl

/-- The repository slices them at the clamped page. -/
theorem sql_pageBars (text : PyValue → String) (bars : List BarDict) (request : PageRequest) :
    Sql.pageBars text bars request =
      let filtered := filterBars text request bars
      let columns := request.chosen.getD (columnsFromBars filtered)
      let pages := totalPages filtered.length request.size
      let page := clampPage request.page pages
      { rows := (cut filtered ⟨page * request.size,
          page * request.size + request.size⟩).map fun bar => projectBar bar columns
        page := page
        pageSize := request.size
        totalPages := pages
        total := filtered.length
        columns := columns } := by
  unfold Sql.pageBars
  simp only
  have hsize := size_pos request
  have hpage : 0 ≤ clampPage request.page
      (totalPages (filterBars text request bars).length request.size) := by
    unfold clampPage
    split <;> omega
  have hstart := mul_nonneg hpage hsize.le
  rw [pySlice_eq_cut _ hstart (by omega), cut_min_length]

/-! ## §4 Columns -/

/-- The bars' columns are those of the first one exactly if it has all of them. -/
theorem columnsFromBars_cons_eq_iff (first : BarDict) (rest : List BarDict) :
    columnsFromBars (first :: rest) = first.keys ↔ ∀ bar ∈ rest, bar.keys ⊆ first.keys := by
  have hsplit : columnsFromBars (first :: rest) =
      first.keys ++ keepFirst id first.keys (rest.flatMap OrderedDict.keys) := by
    unfold columnsFromBars
    rw [List.flatMap_cons, keepFirst_append, List.map_id, List.append_nil,
      keepFirst_of_nodup (by rw [List.map_id]; exact first.nodup)]
    simp
  rw [hsplit, List.append_right_eq_self, List.eq_nil_iff_forall_not_mem]
  constructor
  · intro h bar hbar key hkey
    by_contra hnot
    refine h key ?_
    rw [← List.map_id (keepFirst id _ _), mem_map_keepFirst, List.map_id]
    exact ⟨List.mem_flatMap.mpr ⟨bar, hbar, hkey⟩, hnot⟩
  · intro h key hkey
    rw [← List.map_id (keepFirst id _ _), mem_map_keepFirst, List.map_id] at hkey
    obtain ⟨bar, hbar, hmem⟩ := List.mem_flatMap.mp hkey.1
    exact hkey.2 (h bar hbar hmem)

/-- Columns are chosen, or the first filtered bar has those of all. -/
def PageRequest.ColumnsSettled (request : PageRequest) (filtered : List BarDict) : Prop :=
  request.chosen = none →
    ∀ first ∈ filtered.head?, ∀ bar ∈ filtered, bar.keys ⊆ first.keys

theorem columns_eq_iff (filtered : List BarDict) :
    (firstColumns request filtered).getD [] = request.chosen.getD (columnsFromBars filtered) ↔
      request.ColumnsSettled filtered := by
  unfold firstColumns PageRequest.ColumnsSettled
  cases request.chosen with
  | some columns => simp
  | none =>
      cases filtered with
      | nil => simp [columnsFromBars, keepFirst]
      | cons first rest =>
          simp only [List.head?_cons, Option.map_some, Option.getD_some, Option.getD_none,
            true_implies, Option.mem_some_iff, forall_eq', List.forall_mem_cons]
          rw [eq_comm, columnsFromBars_cons_eq_iff]
          exact (and_iff_right (List.Subset.refl first.keys)).symm

/-! ## §5 Agreement -/

/-- The page exists among the filtered bars. -/
def PageRequest.PageExists (request : PageRequest) (filtered : List BarDict) : Prop :=
  0 ≤ request.page ∧ request.page < totalPages filtered.length request.size

/-- A page that does not exist holds no bar. -/
theorem rows_of_not_exists {filtered : List BarDict} (h : filtered ≠ [])
    (hpage : ¬ request.PageExists filtered) :
    cut filtered ⟨request.page * request.size, request.page * request.size + request.size⟩ =
      [] := by
  have hsize := size_pos request
  by_cases hzero : 0 ≤ request.page
  · rw [cut_eq_nil_iff (mul_nonneg hzero hsize.le)]
    by_contra hnot
    rw [not_or] at hnot
    exact hpage ⟨hzero, (lt_totalPages_iff (List.length_pos_iff.mpr h) hsize _).mpr
      (not_le.mp hnot.2)⟩
  · -- a negative page stops before the first bar
    have hstop : request.page * request.size + request.size ≤ 0 := by nlinarith
    rw [cut_eq, Int.toNat_of_nonpos hstop, List.take_zero, List.drop_nil]

/-- The clamped page always holds one. -/
theorem clamped_rows_ne_nil {filtered : List BarDict} (h : filtered ≠ []) :
    cut filtered ⟨clampPage request.page (totalPages filtered.length request.size) * request.size,
      clampPage request.page (totalPages filtered.length request.size) * request.size
        + request.size⟩ ≠ [] := by
  have hsize := size_pos request
  have hlength : 0 < filtered.length := List.length_pos_iff.mpr h
  obtain ⟨hnonneg, hlt⟩ := clampPage_mem request.page (totalPages_pos hlength hsize)
  intro hnil
  have hfirst := (lt_totalPages_iff hlength hsize _).mp hlt
  rcases (cut_eq_nil_iff (mul_nonneg hnonneg hsize.le)).mp hnil with hempty | hbehind
  · omega
  · omega

/-- **The rows of the page that was asked for are those of the clamped page exactly if
it exists**, whatever is projected to. -/
theorem rows_eq_iff {filtered : List BarDict} (h : filtered ≠ []) (project : BarDict → BarDict) :
    (cut filtered ⟨request.page * request.size,
          request.page * request.size + request.size⟩).map project =
        (cut filtered
          ⟨clampPage request.page (totalPages filtered.length request.size) * request.size,
            clampPage request.page (totalPages filtered.length request.size) * request.size
              + request.size⟩).map project ↔
      request.PageExists filtered := by
  constructor
  · intro heq
    by_contra hpage
    rw [rows_of_not_exists h hpage, List.map_nil, eq_comm, List.map_eq_nil_iff] at heq
    exact clamped_rows_ne_nil h heq
  · rintro ⟨hpage, hlt⟩
    rw [clampPage_eq_self hpage hlt]

/-- The pages of the single pass and of the repository. -/
theorem pages_eq_iff (text : PyValue → String) (bars : List BarDict) (request : PageRequest) :
    Memory.pageBars text bars request = Sql.pageBars text bars request ↔
      filterBars text request bars = [] ∨
        request.PageExists (filterBars text request bars) ∧
          request.ColumnsSettled (filterBars text request bars) := by
  rw [memory_pageBars, sql_pageBars]
  simp only
  rw [Page.mk.injEq]
  by_cases hempty : filterBars text request bars = []
  · have hcolumns : (firstColumns request []).getD [] =
        request.chosen.getD (columnsFromBars []) := by
      rw [columns_eq_iff]
      intro _ first hfirst
      cases hfirst
    rw [hempty, hcolumns]
    simp [cut]
  · constructor
    · rintro ⟨hrows, -, -, -, -, hcolumns⟩
      rw [hcolumns, rows_eq_iff hempty] at hrows
      exact .inr ⟨hrows, (columns_eq_iff _).mp hcolumns⟩
    · rintro (hnil | ⟨hexists, hsettled⟩)
      · exact absurd hnil hempty
      · have hcolumns := (columns_eq_iff _).mpr hsettled
        refine ⟨?_, rfl, rfl, rfl, rfl, hcolumns⟩
        rw [hcolumns, rows_eq_iff hempty]
        exact hexists

/-- The rows of the single pass against those of the page it names. -/
theorem rows_of_named_page_iff (text : PyValue → String) (bars : List BarDict)
    (request : PageRequest) :
    let filtered := filterBars text request bars
    let memory := Memory.pageBars text bars request
    memory.rows = ((pySlice filtered (memory.page * memory.pageSize)
        (memory.page * memory.pageSize + memory.pageSize)).map fun bar =>
          projectBar bar memory.columns) ↔
      filtered = [] ∨ request.PageExists filtered := by
  have hpage : 0 ≤ clampPage request.page
      (totalPages (filterBars text request bars).length request.size) := by
    unfold clampPage
    split <;> omega
  have hsize := size_pos request
  have hstart := mul_nonneg hpage hsize.le
  rw [memory_pageBars]
  simp only
  rw [pySlice_eq_cut _ hstart (by omega)]
  by_cases hempty : filterBars text request bars = []
  · rw [hempty]
    simp [cut]
  · rw [rows_eq_iff hempty]
    exact (or_iff_right hempty).symm

/-- **The single pass and the repository return the same page exactly if no bar passes
the filters, or the page exists and the columns are chosen or all on the first bar; and
the rows of the single pass are those of the page it names exactly if no bar passes or
the page exists.** So what a query returns does not depend on the database under the first
condition. -/
theorem pageBars_eq_iff (text : PyValue → String) (bars : List BarDict) (request : PageRequest) :
    let filtered := filterBars text request bars
    let memory := Memory.pageBars text bars request
    (memory = Sql.pageBars text bars request ↔
      filtered = [] ∨ request.PageExists filtered ∧ request.ColumnsSettled filtered) ∧
    (memory.rows = ((pySlice filtered (memory.page * memory.pageSize)
          (memory.page * memory.pageSize + memory.pageSize)).map fun bar =>
            projectBar bar memory.columns) ↔
      filtered = [] ∨ request.PageExists filtered) ∧
    (queryArtifactBars text false (some bars) request =
        queryArtifactBars text true (some bars) request ↔
      filtered = [] ∨ request.PageExists filtered ∧ request.ColumnsSettled filtered) := by
  refine ⟨pages_eq_iff text bars request, rows_of_named_page_iff text bars request, ?_⟩
  unfold queryArtifactBars
  rw [Option.map_some, Option.map_some, Option.some_inj]
  exact pages_eq_iff text bars request

/-- Two bars, of which the second has a key of its own. -/
def twoBars : List BarDict :=
  [OrderedDict.assignAll {} [("timestamp", .str "2024-01-01")],
    OrderedDict.assignAll {} [("timestamp", .str "2024-01-02"), ("sma_20", .ofRat 100)]]

/-- The value as text, for texts. -/
def textOf : PyValue → String
  | .str text => text
  | _ => ""

/-- **Asked for page 7 of two bars, the manager returns no rows and names page 0, where
the repository returns both; and on page 0 it leaves out the second bar's column.** -/
theorem pageBars_differ :
    ¬ (∀ (text : PyValue → String) (bars : List BarDict) (request : PageRequest),
        Memory.pageBars text bars request = Sql.pageBars text bars request) ∧
      (Memory.pageBars textOf twoBars { page := 7 }).rows.length = 0 ∧
      (Memory.pageBars textOf twoBars { page := 7 }).page = 0 ∧
      (Sql.pageBars textOf twoBars { page := 7 }).rows.length = 2 ∧
      (Memory.pageBars textOf twoBars {}).columns = ["timestamp"] ∧
      (Sql.pageBars textOf twoBars {}).columns = ["timestamp", "sma_20"] := by
  have hmemory : (Memory.pageBars textOf twoBars { page := 7 }).rows.length = 0 := by
    decide +kernel
  have hsql : (Sql.pageBars textOf twoBars { page := 7 }).rows.length = 2 := by
    decide +kernel
  refine ⟨fun h => ?_, hmemory, by decide +kernel, hsql, by decide +kernel, by decide +kernel⟩
  rw [h, hsql] at hmemory
  cases hmemory

end Finbar.IndicatorJobs
