/-
Finbar.Prices.CacheTheorems — what the cache answers after any calls.

Every call comes down to writes to the table (`Action.writes`, `step_eq_written`): a
fetch that is accepted, answered and saved puts its bars in, all of them or none, and a
deletion that goes through erases those it names. What stands after these writes is what
the queries answer (`cache_answers`): each bar once, in the order of the timestamps.

No `sorry`, no `axiom`.
-/
import Finbar.Prices.Cache
import Mathlib.Data.List.Dedup

namespace Finbar.Prices

open Lib.Python Lib.Steps Lib.Table Finbar.Fetch

variable {upper : String → String}

/-! ## §1 Writes -/

/-- What a batch of bars writes: all of its rows, or nothing if the database raises or
one of them cannot be stored. -/
def savedWrites (upper : String → String) (fault : Option PyError) (bars : List PriceBar) :
    List (Write PriceBar) :=
  if fault = none ∧ ∀ bar ∈ bars, storable (domainToOrm upper bar) = true then
    bars.map fun bar => .put (domainToOrm upper bar)
  else []

/-- What a call writes. -/
def Action.writes (upper : String → String) : Action → List (Write PriceBar)
  | .fetchPrices fetcher fault request =>
      match validateSourceAndInterval request.source request.interval,
        fetcher request.symbol request.interval request.startDate request.endDate with
      | none, .ok bars => savedWrites upper fault bars
      | _, _ => []
  | .deleteCachedPrices fault symbol source interval beforeDate =>
      match validateDeleteFilters source interval, fault with
      | .ok (), none => [.erase (doomed upper symbol source interval beforeDate)]
      | _, _ => []

/-- The writes of calls one after another. -/
def writesOf (upper : String → String) (actions : List Action) : List (Write PriceBar) :=
  actions.flatMap (Action.writes upper)

theorem written_puts (rows batch : List PriceBar) :
    written uniqueKey rows (batch.map .put) = batch.foldl (insertOrReplace uniqueKey) rows := by
  induction batch generalizing rows with
  | nil => rfl
  | cons row batch ih => exact ih _

/-- **A batch is saved as a whole** or not at all. -/
theorem saveBars_eq_written (fault : Option PyError) (bars rows : List PriceBar) :
    (saveBars upper fault bars rows).2 = written uniqueKey rows (savedWrites upper fault bars) := by
  unfold saveBars savedWrites
  cases bars with
  | nil => cases fault <;> rfl
  | cons first later =>
      rw [List.isEmpty_cons, if_neg Bool.false_ne_true]
      generalize first :: later = bars
      by_cases hsaved : fault = none ∧ ∀ bar ∈ bars, storable (domainToOrm upper bar) = true
      · have hputs : bars.map (fun bar => Write.put (domainToOrm upper bar)) =
            (bars.map (domainToOrm upper)).map .put := by simp
        rw [if_pos hsaved, if_neg (by simpa [hsaved.1] using hsaved.2), hputs, written_puts]
      · rw [if_neg hsaved, if_pos ?_]
        · rfl
        · cases fault <;> simp_all

/-- **A call comes down to its writes.** -/
theorem step_eq_written (rows : List PriceBar) (action : Action) :
    step upper rows action = written uniqueKey rows (action.writes upper) := by
  cases action with
  | fetchPrices fetcher fault request =>
      simp only [step, fetchPrices, Action.writes]
      cases validateSourceAndInterval request.source request.interval with
      | some error => rfl
      | none =>
          cases fetcher request.symbol request.interval request.startDate request.endDate with
          | error exc => rfl
          | ok bars =>
              simp only [← saveBars_eq_written]
              cases bars <;> rfl
  | deleteCachedPrices fault symbol source interval beforeDate =>
      simp only [step, deleteCachedPrices, Action.writes]
      cases validateDeleteFilters source interval with
      | error exc => rfl
      | ok _ => cases fault <;> rfl

theorem cacheAfter_eq_written (actions : List Action) :
    cacheAfter upper actions = written uniqueKey [] (writesOf upper actions) := by
  have hrun : ∀ rows, run (step upper) rows actions =
      written uniqueKey rows (writesOf upper actions) := by
    induction actions with
    | nil => intro rows; rfl
    | cons action actions ih =>
        intro rows
        rw [run_cons, step_eq_written, ih, ← written_append]
        rfl
  exact hrun []

/-! ## §2 Answers -/

theorem mem_cacheAfter {actions : List Action} {bar : PriceBar} :
    bar ∈ cacheAfter upper actions ↔ Standing uniqueKey (writesOf upper actions) bar := by
  rw [cacheAfter_eq_written, mem_written_iff]

theorem nodup_cacheAfter (actions : List Action) :
    ((cacheAfter upper actions).map uniqueKey).Nodup := by
  rw [cacheAfter_eq_written]
  exact nodup_written (by simp)

/-- The bars of one series are told apart by their timestamps. -/
theorem uniqueKey_eq_of_ofSeries {symbol source interval : String} {a b : PriceBar}
    (ha : ofSeries upper symbol source interval a = true)
    (hb : ofSeries upper symbol source interval b = true) (h : a.timestamp = b.timestamp) :
    uniqueKey a = uniqueKey b := by
  obtain ⟨hsymbol, hsource, hinterval⟩ := of_decide_eq_true ha
  obtain ⟨hsymbol', hsource', hinterval'⟩ := of_decide_eq_true hb
  simp [uniqueKey, *]

theorem strict_queryBars (actions : List Action) (symbol source interval : String)
    (startDate endDate : Option String) :
    (queryBars upper symbol source interval startDate endDate
      (cacheAfter upper actions)).Pairwise fun a b => a.timestamp < b.timestamp := by
  refine strict_select (nodup_cacheAfter actions) fun a b ha hb => ?_
  exact uniqueKey_eq_of_ofSeries ((Bool.and_eq_true _ _).mp ha).1 ((Bool.and_eq_true _ _).mp hb).1

theorem mem_queryBars {actions : List Action} {symbol source interval : String}
    {startDate endDate : Option String} {bar : PriceBar} :
    bar ∈ queryBars upper symbol source interval startDate endDate (cacheAfter upper actions) ↔
      Standing uniqueKey (writesOf upper actions) bar ∧
        ofSeries upper symbol source interval bar = true ∧
        (∀ start ∈ given startDate, start ≤ bar.timestamp) ∧
        ∀ last ∈ given endDate, bar.timestamp ≤ last := by
  rw [queryBars, mem_select, mem_cacheAfter, within]
  simp only [Bool.and_eq_true, decide_eq_true_eq, Option.all_eq_true, Option.mem_def]

theorem getLatestBar_eq_some_iff {rows : List PriceBar} (hrows : (rows.map uniqueKey).Nodup)
    {symbol source interval : String} {bar : PriceBar} :
    getLatestBar upper symbol source interval rows = some bar ↔
      (bar ∈ rows ∧ ofSeries upper symbol source interval bar = true) ∧
        ∀ other ∈ rows, ofSeries upper symbol source interval other = true →
          other.timestamp ≤ bar.timestamp := by
  unfold getLatestBar
  set latest := select (fun row : PriceBar => OrderDual.toDual row.timestamp)
    (ofSeries upper symbol source interval) rows with hlatest
  have hmem (row : PriceBar) : row ∈ latest ↔
      row ∈ rows ∧ ofSeries upper symbol source interval row = true := mem_select
  have hsorted : latest.Pairwise fun a b =>
      OrderDual.toDual a.timestamp ≤ OrderDual.toDual b.timestamp := sorted_select
  rcases latest with _ | ⟨first, others⟩
  · simp only [List.head?_nil, reduceCtorEq, false_iff, not_and]
    intro hbar
    exact absurd ((hmem bar).mpr hbar) List.not_mem_nil
  · rw [List.head?_cons, Option.some_inj, ← hmem]
    have hfirst : ∀ row ∈ first :: others, row.timestamp ≤ first.timestamp := by
      simpa using fun row hrow => List.rel_of_pairwise_cons hsorted hrow
    constructor
    · rintro rfl
      exact ⟨List.mem_cons_self, fun row hrow hseries => hfirst row ((hmem row).mpr ⟨hrow, hseries⟩)⟩
    · rintro ⟨hbar, hmax⟩
      obtain ⟨hrows', hseries⟩ := (hmem first).mp List.mem_cons_self
      have heq := (hmax first hrows' hseries).antisymm (hfirst bar hbar)
      exact List.inj_on_of_nodup_map hrows hrows' ((hmem bar).mp hbar).1
        (uniqueKey_eq_of_ofSeries hseries ((hmem bar).mp hbar).2 heq)

theorem strict_listSymbols (source : Option String) (rows : List PriceBar) :
    (listSymbols source rows).Pairwise (· < ·) :=
  strict_select (by simpa using List.nodup_dedup _) fun _ _ _ _ h => h

theorem mem_listSymbols {source : Option String} {rows : List PriceBar} {symbol : String} :
    symbol ∈ listSymbols source rows ↔
      ∃ bar ∈ rows, (∀ value ∈ given source, bar.source = value) ∧ bar.symbol = symbol := by
  unfold listSymbols
  rw [mem_select, List.mem_dedup, List.mem_map]
  simp [List.mem_filter, and_assoc, Option.all_eq_true]

/-- The query use case answers for a source and an interval that there are. -/
theorem mem_queryCachedPrices {symbol source interval : String}
    {startDate endDate : Option String} {rows : List PriceBar} {bar : PriceBar} :
    bar ∈ (queryCachedPrices upper symbol source interval startDate endDate rows).bars ↔
      (source ∈ values DataSource ∧ interval ∈ values Interval) ∧
        bar ∈ queryBars upper symbol source interval startDate endDate rows := by
  unfold queryCachedPrices validateSourceAndInterval
  by_cases hsource : source ∈ values DataSource
  · by_cases hinterval : interval ∈ values Interval <;> simp [hsource, hinterval]
  · simp [hsource]

/-- The listing use case refuses a source that there is not. -/
theorem listCachedSymbols_eq_ok_iff {source : Option String} {rows : List PriceBar}
    {symbols : List String} :
    listCachedSymbols source rows = .ok symbols ↔
      (∀ value ∈ source, value ∈ values DataSource) ∧ symbols = listSymbols source rows := by
  unfold listCachedSymbols checkMember
  cases source with
  | none => simp [pure, Except.pure, eq_comm]
  | some value =>
      by_cases hvalue : value ∈ values DataSource <;>
        simp [hvalue, bind, pure, Except.bind, Except.pure, eq_comm]

/-- **After any calls the cache answers the bars that stand.** A bar stands if a fetch
that went through saved it, and nothing since saved another one for its symbol, source,
interval and timestamp or deleted it. `query_bars` lists those of a series within the
dates, each once and in the order of their timestamps; `get_latest_bar` is the last of a
series; `list_symbols` lists their symbols, each once and in order. The use cases pass these
answers on for the sources and intervals that there are. -/
theorem cache_answers (upper : String → String) (actions : List Action) :
    (∀ symbol source interval startDate endDate,
      (queryBars upper symbol source interval startDate endDate
        (cacheAfter upper actions)).Pairwise (fun a b => a.timestamp < b.timestamp) ∧
      ∀ bar, bar ∈ queryBars upper symbol source interval startDate endDate
          (cacheAfter upper actions) ↔
        Standing uniqueKey (writesOf upper actions) bar ∧
          ofSeries upper symbol source interval bar = true ∧
          (∀ start ∈ given startDate, start ≤ bar.timestamp) ∧
          ∀ last ∈ given endDate, bar.timestamp ≤ last) ∧
    (∀ symbol source interval bar,
      getLatestBar upper symbol source interval (cacheAfter upper actions) = some bar ↔
        (Standing uniqueKey (writesOf upper actions) bar ∧
          ofSeries upper symbol source interval bar = true) ∧
        ∀ other, Standing uniqueKey (writesOf upper actions) other →
          ofSeries upper symbol source interval other = true → other.timestamp ≤ bar.timestamp) ∧
    (∀ source,
      (listSymbols source (cacheAfter upper actions)).Pairwise (· < ·) ∧
      ∀ symbol, symbol ∈ listSymbols source (cacheAfter upper actions) ↔
        ∃ bar, Standing uniqueKey (writesOf upper actions) bar ∧
          (∀ value ∈ given source, bar.source = value) ∧ bar.symbol = symbol) ∧
    (∀ symbol source interval startDate endDate bar,
      bar ∈ (queryCachedPrices upper symbol source interval startDate endDate
          (cacheAfter upper actions)).bars ↔
        (source ∈ values DataSource ∧ interval ∈ values Interval) ∧
          bar ∈ queryBars upper symbol source interval startDate endDate
            (cacheAfter upper actions)) ∧
    ∀ source symbols, listCachedSymbols source (cacheAfter upper actions) = .ok symbols ↔
      (∀ value ∈ source, value ∈ values DataSource) ∧
        symbols = listSymbols source (cacheAfter upper actions) := by
  refine ⟨fun symbol source interval startDate endDate => ⟨?_, fun bar => mem_queryBars⟩,
    fun symbol source interval bar => ?_, fun source => ⟨strict_listSymbols _ _, fun symbol => ?_⟩,
    fun _ _ _ _ _ _ => mem_queryCachedPrices, fun _ _ => listCachedSymbols_eq_ok_iff⟩
  · exact strict_queryBars actions symbol source interval startDate endDate
  · rw [getLatestBar_eq_some_iff (nodup_cacheAfter actions)]
    simp only [mem_cacheAfter]
  · simp only [mem_listSymbols, mem_cacheAfter]

end Finbar.Prices
