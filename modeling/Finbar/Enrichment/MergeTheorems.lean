/-
Finbar.Enrichment.MergeTheorems — the live merge against the batch merge.

The live enricher attaches the last informative row available at a primary
bar. The batch merger first drops the rows all of whose columns are missing
and then looks up the last one available. The two agree except where the
last available row is all missing while an older row is not: there the live
row has NaN and the batch row carries the older values forward
(`live_eq_batch_iff`).

No `sorry`, no `axiom`.
-/
import Finbar.Enrichment.Merger
import Finbar.Enrichment.CursorTheorems
import Finbar.Streaming.EngineTheorems

namespace Finbar.Enrichment

open Lib Lib.Python Lib.AsOf Lib.Run Finbar.Streaming

/-! ## §1 What a merge attaches -/

/-- A merge assigns the suffixed columns of the row. -/
theorem mergeInformative_eq (merged infoRow : Row) (suffix : String) :
    mergeInformative merged infoRow suffix
      = merged.assignAll ((infoRow.items.filter fun column => decide (column.1 ∉ ohlcv)).map
          fun column => (column.1 ++ suffix, column.2)) := by
  unfold mergeInformative OrderedDict.assignAll
  generalize infoRow.items = items
  induction items generalizing merged with
  | nil => rfl
  | cons column items ih =>
      rw [List.foldl_cons, ih]
      by_cases h : column.1 ∈ ohlcv
      · have hmerge : mergeColumn suffix merged column = merged := if_pos h
        rw [hmerge, List.filter_cons_of_neg (by simpa using h)]
      · have hmerge : mergeColumn suffix merged column
            = merged.assign (column.1 ++ suffix) column.2 := if_neg h
        rw [hmerge, List.filter_cons_of_pos (by simpa using h), List.map_cons,
          List.foldl_cons]

theorem suffix_injective (suffix : String) :
    Function.Injective (fun column : String => column ++ suffix) :=
  fun _ _ h => (String.append_left_inj suffix).mp h

/-- A suffixed column holds the row's value. -/
theorem get_mergeInformative {merged infoRow : Row} {suffix column : String}
    {value : PyValue} (hcolumn : column ∉ ohlcv)
    (hvalue : infoRow.get column = some value) :
    (mergeInformative merged infoRow suffix).get (column ++ suffix) = some value := by
  rw [mergeInformative_eq]
  refine OrderedDict.get_assignAll_of_mem ?_ ?_ merged
  · have hkeys : ((infoRow.items.filter fun column => decide (column.1 ∉ ohlcv)).map
          fun column => (column.1 ++ suffix, column.2)).map Prod.fst
        = ((infoRow.items.filter fun column => decide (column.1 ∉ ohlcv)).map Prod.fst).map
          (fun column => column ++ suffix) := by
      rw [List.map_map, List.map_map]
      rfl
    rw [hkeys]
    refine List.Nodup.map (suffix_injective suffix) ?_
    exact infoRow.nodup.sublist (List.filter_sublist.map Prod.fst)
  · refine List.mem_map.mpr ⟨(column, value), ?_, rfl⟩
    rw [List.mem_filter]
    exact ⟨OrderedDict.mem_of_get hvalue, decide_eq_true hcolumn⟩

/-! ## §2 The live run -/

section Live

variable (env : Environment) (settings : EnricherSettings) (aliasName : String)

/-- One closed candle, as it is fed to the enricher. -/
inductive Feed where
  | informative (bar : StreamBar)
  | primary (bar : StreamBar)

/-- Feed one candle; the enriched primary bars are collected. -/
def feed (state : Enricher × List CausalEnrichedBar) :
    Feed → Except PyError (Enricher × List CausalEnrichedBar)
  | .informative bar => do
      let enricher ← state.1.updateInformative env settings aliasName bar
      return (enricher, state.2)
  | .primary bar => do
      let (enricher, enriched) ← state.1.updatePrimary env settings bar
      return (enricher, state.2 ++ [enriched])

/-- The informative bars of a sequence of candles. -/
def informativeBars (candles : List Feed) : List StreamBar :=
  candles.filterMap fun
    | .informative bar => some bar
    | .primary _ => none

/-- The open timestamps of its primary bars. -/
def primaryOpens (candles : List Feed) : List Timestamp :=
  candles.filterMap fun
    | .informative _ => none
    | .primary bar => (barOpenTs env bar).toOption

/-- Every informative row is fed before the primary bars at which it is
available; `unfed` are the rows that are still to be fed. -/
def Timely (offset : ℤ) : List (Timestamp × Row) → List Feed → Prop
  | _, [] => True
  | unfed, .informative _ :: candles => Timely offset unfed.tail candles
  | unfed, .primary bar :: candles =>
      (∀ t, barOpenTs env bar = .ok t → ∀ entry ∈ unfed, t < entry.1 + offset) ∧
        Timely offset unfed candles

/-- Rows with the timestamps from which they are available. -/
def available (offset : ℤ) (rows : List (Timestamp × Row)) : List (Timestamp × Row) :=
  rows.map fun entry => (entry.1 + offset, entry.2)

/-- The row with what is visible merged into it. -/
def attach (row : Row) (visible : Option Row) (suffix : String) : Row :=
  match visible with
  | none => row
  | some infoRow => mergeInformative row infoRow suffix

/-- The enricher in the middle of the candles: it has one informative alias,
whose cursor holds the rows fed so far and is behind the queries to come. -/
structure Serves (offset : ℤ) (suffix : String) (history : List (Timestamp × Row))
    (queries : List Timestamp) (enricher : Enricher) (state : InfoState) : Prop where
  items : enricher.info.items = [(aliasName, state)]
  suffix_eq : state.suffix = suffix
  reached : Reached offset history queries state.cursor

variable {env settings aliasName}

theorem get_of_items {enricher : Enricher} {state : InfoState}
    (h : enricher.info.items = [(aliasName, state)]) :
    enricher.info.get aliasName = some state := by
  refine OrderedDict.get_of_mem ?_
  rw [h]
  exact List.mem_singleton.mpr rfl

/-- Ingesting a bar appends its row. -/
theorem updateInformative_serves {offset : ℤ} {suffix : String}
    {history : List (Timestamp × Row)} {queries : List Timestamp}
    {enricher enricher' : Enricher} {state : InfoState} {bar : StreamBar}
    (h : Serves aliasName offset suffix history queries enricher state)
    (hupdate : enricher.updateInformative env settings aliasName bar = .ok enricher') :
    ∃ engine row isReady openTs state',
      enrichBar env state.engine (settings.indicatorsOf aliasName) bar
        = .ok (engine, row, isReady) ∧
      barOpenTs env bar = .ok openTs ∧ state'.engine = engine ∧
      Serves aliasName offset suffix (history ++ [(openTs + offset, row)]) queries enricher'
        state' := by
  unfold Enricher.updateInformative at hupdate
  rw [get_of_items h.items] at hupdate
  simp only at hupdate
  obtain ⟨state', hstate', hpure⟩ := bind_eq_ok.mp hupdate
  obtain rfl := Except.ok.inj hpure
  unfold InfoState.ingest at hstate'
  obtain ⟨⟨engine, row, isReady⟩, hrow, hstate'⟩ := bind_eq_ok.mp hstate'
  obtain ⟨openTs, hopen, hstate'⟩ := bind_eq_ok.mp hstate'
  obtain ⟨cursor, hcursor, hpure⟩ := bind_eq_ok.mp hstate'
  obtain rfl := Except.ok.inj hpure
  refine ⟨engine, row, isReady, openTs, { state with engine := engine, cursor := cursor },
    hrow, hopen, rfl, ?_, h.suffix_eq, ?_⟩
  · show OrderedDict.assignItems enricher.info.items aliasName _ = _
    rw [h.items]
    unfold OrderedDict.assignItems
    rw [if_pos rfl]
  · have haccepts : state.cursor.Accepts (openTs + state.cursor.offset) := by
      by_contra hrefused
      unfold AsOfInformativeCursor.append at hcursor
      rw [dif_neg hrefused] at hcursor
      cases hcursor
    obtain ⟨cursor', hcursor', hentries, hoffset, -, hbehind⟩ :=
      AsOfInformativeCursor.append_spec haccepts row
    obtain rfl : cursor = cursor' := Except.ok.inj (hcursor.symm.trans hcursor')
    refine ⟨hoffset.trans h.reached.offset_eq, ?_, fun t ht => ?_⟩
    · rw [hentries, h.reached.entries_eq, h.reached.offset_eq]
    · exact hbehind t (h.reached.behind t ht)

/-- What an update by a primary bar does. -/
theorem updatePrimary_eq_ok {enricher enricher' : Enricher} {bar : StreamBar}
    {enriched : CausalEnrichedBar}
    (h : enricher.updatePrimary env settings bar = .ok (enricher', enriched)) :
    ∃ engine row isReady t,
      enrichBar env enricher.primaryEngine settings.primaryIndicators bar
        = .ok (engine, row, isReady) ∧
      barOpenTs env bar = .ok t ∧
      enricher' = { primaryEngine := engine, info := (mergeAllVisible enricher.info t row).1 } ∧
      enriched = { values := (mergeAllVisible enricher.info t row).2, timestamp := t
                   isReady := isReady } := by
  unfold Enricher.updatePrimary at h
  obtain ⟨⟨engine, row, isReady⟩, hrow, h⟩ := bind_eq_ok.mp h
  obtain ⟨t, ht, hpure⟩ := bind_eq_ok.mp h
  obtain ⟨rfl, rfl⟩ := Prod.mk.inj (Except.ok.inj hpure)
  exact ⟨engine, row, isReady, t, hrow, ht, rfl, rfl⟩

/-- A primary bar attaches the last row available at its open. -/
theorem updatePrimary_serves {offset : ℤ} {suffix : String}
    {history : List (Timestamp × Row)} {t : Timestamp} {queries : List Timestamp}
    {enricher enricher' : Enricher} {state : InfoState} {bar : StreamBar}
    {enriched : CausalEnrichedBar} (ht : barOpenTs env bar = .ok t)
    (h : Serves aliasName offset suffix history (t :: queries) enricher state)
    (hlater : ∀ t' ∈ queries, t ≤ t')
    (hupdate : enricher.updatePrimary env settings bar = .ok (enricher', enriched)) :
    enriched.timestamp = t ∧
      (∃ row, enriched.values = attach row ((asOf history t).map Prod.snd) suffix) ∧
      ∃ state', state'.engine = state.engine ∧
        Serves aliasName offset suffix history queries enricher' state' := by
  obtain ⟨engine, row, isReady, t', -, ht', rfl, rfl⟩ := updatePrimary_eq_ok hupdate
  obtain rfl : t = t' := Except.ok.inj (ht.symm.trans ht')
  obtain ⟨hanswer, hbehind, hentries, hoffset⟩ :=
    AsOfInformativeCursor.latestVisibleAt_spec (h.reached.behind t List.mem_cons_self)
  refine ⟨rfl, ⟨row, ?_⟩, { state with cursor := (state.cursor.latestVisibleAt t).1 }, rfl,
    ?_, h.suffix_eq, ?_⟩
  · show (enricher.info.items.foldl (mergeVisible t) ([], row)).2 = _
    rw [h.items, ← h.reached.entries_eq, ← hanswer, ← h.suffix_eq]
    rfl
  · show (enricher.info.items.foldl (mergeVisible t) ([], row)).1 = _
    rw [h.items]
    rfl
  · refine ⟨hoffset.trans h.reached.offset_eq, hentries.trans h.reached.entries_eq, ?_⟩
    exact fun t' ht' => hbehind.mono (hlater t' ht')

/-- The rows of a list of bars, one bar at a time. -/
theorem enrichRows_cons {indicators : List String} {engine : Engine} {bar : StreamBar}
    {bars : List StreamBar} {rows : List (Timestamp × Row)}
    (h : enrichRows env indicators engine (bar :: bars) = .ok rows) :
    ∃ engine' row isReady openTs rows', enrichBar env engine indicators bar
        = .ok (engine', row, isReady) ∧
      barOpenTs env bar = .ok openTs ∧ enrichRows env indicators engine' bars = .ok rows' ∧
      rows = (openTs, row) :: rows' := by
  unfold enrichRows at h
  obtain ⟨⟨engine', row, isReady⟩, hrow, h⟩ := bind_eq_ok.mp h
  obtain ⟨openTs, hopen, h⟩ := bind_eq_ok.mp h
  obtain ⟨rows', hrows, hpure⟩ := bind_eq_ok.mp h
  exact ⟨engine', row, isReady, openTs, rows', hrow, hopen, hrows, (Except.ok.inj hpure).symm⟩

/-- **What a run attaches.** Every primary bar of a run has attached to it
the last row that is available at its open, among all rows, fed by then or
not. -/
theorem run_attaches {offset : ℤ} {suffix : String} (candles : List Feed)
    {history unfed : List (Timestamp × Row)} {enricher : Enricher} {state : InfoState}
    {unfedBars : List StreamBar} (enriched : List CausalEnrichedBar)
    (hserves : Serves aliasName offset suffix history (primaryOpens env candles) enricher
      state)
    (hunfed : enrichRows env (settings.indicatorsOf aliasName) state.engine unfedBars
      = .ok unfed)
    (hfed : informativeBars candles <+: unfedBars)
    (hopens : (primaryOpens env candles).Pairwise (· ≤ ·))
    (htimely : Timely env offset unfed candles) :
    Yields (candles.foldlM (feed env settings aliasName) (enricher, enriched)) fun result =>
      ∃ new : List CausalEnrichedBar, result.2 = enriched ++ new ∧
        ∀ bar ∈ new, ∃ row, bar.values = attach row
          ((asOf (history ++ available offset unfed) bar.timestamp).map Prod.snd) suffix := by
  induction candles generalizing history unfed enricher state unfedBars enriched with
  | nil => exact Yields.pure ⟨[], (List.append_nil _).symm, fun _ hbar => nomatch hbar⟩
  | cons candle candles ih =>
      rw [List.foldlM_cons]
      intro result hresult
      obtain ⟨⟨enricher', enriched'⟩, hcandle, hrest⟩ := bind_eq_ok.mp hresult
      cases candle with
      | informative bar =>
          obtain ⟨enricher'', hupdate, hpure⟩ := bind_eq_ok.mp hcandle
          obtain ⟨rfl, rfl⟩ := Prod.mk.inj (Except.ok.inj hpure)
          obtain ⟨engine, row, isReady, openTs, state', hrow, hopen, hengine, hserves'⟩ :=
            updateInformative_serves hserves hupdate
          -- The bar is the next one of the frame, and so is its row.
          obtain ⟨rest, hsplit⟩ := hfed
          have hbars : unfedBars = bar :: (informativeBars candles ++ rest) := hsplit.symm
          rw [hbars] at hunfed
          obtain ⟨engine', row', isReady', openTs', rows, hrow', hopen', hrows, rfl⟩ :=
            enrichRows_cons hunfed
          obtain ⟨rfl, heq⟩ := Prod.mk.inj (Except.ok.inj (hrow.symm.trans hrow'))
          obtain rfl := (Prod.mk.inj heq).1
          obtain rfl : openTs = openTs' := Except.ok.inj (hopen.symm.trans hopen')
          have hassoc : history ++ available offset ((openTs, row) :: rows)
              = history ++ [(openTs + offset, row)] ++ available offset rows := by
            rw [List.append_assoc]
            rfl
          rw [hassoc]
          exact ih _ hserves' (by rw [hengine]; exact hrows) ⟨rest, rfl⟩ hopens htimely
            result hrest
      | primary bar =>
          obtain ⟨⟨enricher'', bar'⟩, hupdate, hpure⟩ := bind_eq_ok.mp hcandle
          obtain ⟨rfl, rfl⟩ := Prod.mk.inj (Except.ok.inj hpure)
          obtain ⟨-, -, -, t, -, ht, -, -⟩ := updatePrimary_eq_ok hupdate
          have hcons : primaryOpens env (.primary bar :: candles)
              = t :: primaryOpens env candles := by
            unfold primaryOpens
            refine List.filterMap_cons_some ?_
            show (barOpenTs env bar).toOption = some t
            rw [ht]
            rfl
          rw [hcons] at hopens hserves
          obtain ⟨hlater, hopens'⟩ := List.pairwise_cons.mp hopens
          obtain ⟨htimestamp, ⟨row, hvalues⟩, state', hengine, hserves'⟩ :=
            updatePrimary_serves ht hserves hlater hupdate
          obtain ⟨new, hnew, hall⟩ := ih (enriched ++ [bar']) hserves'
            (by rw [hengine]; exact hunfed) hfed hopens' htimely.2 result hrest
          have hunseen : asOf (history ++ available offset unfed) t = asOf history t := by
            refine asOf_append_later ?_
            intro entry hentry
            obtain ⟨row', hrow', rfl⟩ := List.mem_map.mp hentry
            exact htimely.1 t ht row' hrow'
          refine ⟨bar' :: new, ?_, fun b hb => ?_⟩
          · rw [hnew, List.append_assoc]
            rfl
          · rcases List.mem_cons.mp hb with rfl | hb
            · refine ⟨row, ?_⟩
              rw [htimestamp, hunseen]
              exact hvalues
            · exact hall b hb

end Live

/-! ## §3 The batch merge -/

section Batch

variable {α : Type}

/-- The entry is the last of its timestamp. -/
def Kept (entries : List (Timestamp × α)) (e : Timestamp × α) : Prop :=
  ∃ earlier later, entries = earlier ++ e :: later ∧ ∀ f ∈ later, f.1 ≠ e.1

theorem dropDuplicated_cons_of_last {e : Timestamp × α} {entries : List (Timestamp × α)}
    (h : ∀ f ∈ entries, f.1 ≠ e.1) :
    dropDuplicated (e :: entries) = e :: dropDuplicated entries := by
  have hany : entries.any (fun later => decide (later.1 = e.1)) = false := by
    rw [List.any_eq_false]
    intro f hf
    simpa using h f hf
  rw [dropDuplicated, hany, if_neg Bool.false_ne_true]

/-- What is dropped from a list is dropped from its front. -/
theorem dropDuplicated_append (front back : List (Timestamp × α)) :
    ∃ kept, dropDuplicated (front ++ back) = kept ++ dropDuplicated back := by
  induction front with
  | nil => exact ⟨[], rfl⟩
  | cons e front ih =>
      obtain ⟨kept, hkept⟩ := ih
      rw [List.cons_append, dropDuplicated]
      split
      · exact ⟨kept, hkept⟩
      · exact ⟨e :: kept, by rw [hkept, List.cons_append]⟩

theorem dropDuplicated_subset {entries : List (Timestamp × α)} {e : Timestamp × α}
    (h : e ∈ dropDuplicated entries) : Kept entries e := by
  induction entries with
  | nil => cases h
  | cons f entries ih =>
      rw [dropDuplicated] at h
      split at h
      · obtain ⟨earlier, later, hsplit, hlast⟩ := ih h
        exact ⟨f :: earlier, later, by rw [hsplit]; rfl, hlast⟩
      · rename_i hany
        rcases List.mem_cons.mp h with rfl | h
        · refine ⟨[], entries, rfl, fun g hg heq => hany ?_⟩
          exact List.any_eq_true.mpr ⟨g, hg, decide_eq_true heq⟩
        · obtain ⟨earlier, later, hsplit, hlast⟩ := ih h
          exact ⟨f :: earlier, later, by rw [hsplit]; rfl, hlast⟩

/-- The entries that remain are the last of their timestamps. -/
theorem mem_dropDuplicated {entries : List (Timestamp × α)} {e : Timestamp × α} :
    e ∈ dropDuplicated entries ↔ Kept entries e := by
  refine ⟨dropDuplicated_subset, ?_⟩
  rintro ⟨earlier, later, rfl, hlast⟩
  obtain ⟨kept, hkept⟩ := dropDuplicated_append earlier (e :: later)
  rw [hkept, dropDuplicated_cons_of_last hlast]
  exact List.mem_append_right kept List.mem_cons_self

/-- Dropping duplicates only looks at the timestamps. -/
theorem dropDuplicated_map {β : Type} (f : α → β) (entries : List (Timestamp × α)) :
    dropDuplicated (entries.map fun e => (e.1, f e.2))
      = (dropDuplicated entries).map fun e => (e.1, f e.2) := by
  induction entries with
  | nil => rfl
  | cons e entries ih =>
      have hany : (entries.map fun e => (e.1, f e.2)).any
            (fun later => decide (later.1 = e.1))
          = entries.any (fun later => decide (later.1 = e.1)) := by
        rw [List.any_map]
        rfl
      rw [List.map_cons, dropDuplicated, dropDuplicated, hany]
      split
      · exact ih
      · rw [List.map_cons, ih]

/-- The last available entry survives the dropping of duplicates, and is
still the one found if it also passes the filter. -/
theorem asOf_filter_dropDuplicated {entries : List (Timestamp × α)} {t : Timestamp}
    {e : Timestamp × α} {keep : Timestamp × α → Bool} (h : asOf entries t = some e)
    (hkeep : keep e = true) :
    asOf ((dropDuplicated entries).filter keep) t = some e := by
  rcases asOf_cases entries t with ⟨hnone, -⟩ | ⟨earlier, e', later, hsplit, hsome, hle, hlater⟩
  · rw [hnone] at h
    cases h
  · obtain rfl : e' = e := Option.some.inj (hsome.symm.trans h)
    have hlast : ∀ f ∈ later, f.1 ≠ e'.1 := by
      intro f hf heq
      have hlt := hlater f hf
      rw [heq] at hlt
      exact absurd hle (not_le.mpr hlt)
    obtain ⟨kept, hkept⟩ := dropDuplicated_append earlier (e' :: later)
    have hafter : ∀ f ∈ (dropDuplicated later).filter keep, t < f.1 := by
      intro f hf
      obtain ⟨front, back, hfront, -⟩ := dropDuplicated_subset (List.mem_of_mem_filter hf)
      refine hlater f ?_
      rw [hfront]
      exact List.mem_append_right front List.mem_cons_self
    rw [hsplit, hkept, dropDuplicated_cons_of_last hlast, List.filter_append,
      List.filter_cons_of_pos hkeep, List.append_cons]
    rw [asOf_append_later hafter]
    exact asOf_append_one hle

end Batch

/-- All selected columns of the row are missing. -/
def AllMissing (columns : List String) (row : Row) : Prop :=
  ∀ column ∈ columns, (numericCell (row.get column)).isNan = true

instance (columns : List String) (row : Row) : Decidable (AllMissing columns row) :=
  inferInstanceAs (Decidable (∀ column ∈ columns, _))

theorem hasValue_cellsOf {columns : List String} {suffix : String} {e : Timestamp × Row} :
    hasValue (e.1, cellsOf columns suffix e.2) = true ↔ ¬ AllMissing columns e.2 := by
  unfold hasValue cellsOf AllMissing
  rw [List.any_map, List.any_eq_true]
  constructor
  · rintro ⟨column, hcolumn, hvalue⟩ hmissing
    have h := hmissing column hcolumn
    simp only [Function.comp_apply, h, Bool.not_true] at hvalue
    cases hvalue
  · intro h
    by_contra hnone
    refine h fun column hcolumn => ?_
    by_contra hvalue
    exact hnone ⟨column, hcolumn, by simpa using hvalue⟩

/-- The rows that the batch merge looks up. -/
def mergedRows (columns : List String) (suffix : String) (entries : List (Timestamp × Row)) :
    List (Timestamp × Row) :=
  (dropDuplicated entries).filter fun e => hasValue (e.1, cellsOf columns suffix e.2)

theorem mem_mergedRows {columns : List String} {suffix : String}
    {entries : List (Timestamp × Row)} {e : Timestamp × Row} :
    e ∈ mergedRows columns suffix entries ↔ Kept entries e ∧ ¬ AllMissing columns e.2 := by
  unfold mergedRows
  rw [List.mem_filter, mem_dropDuplicated, hasValue_cellsOf]

/-- The frame of available rows, for rows sorted by timestamp. -/
theorem buildAvailableInformativeFrame_eq {informative : Frame}
    (hsorted : Sorted informative.rows) (columns : List String) (offset : ℤ)
    (suffix : String) :
    buildAvailableInformativeFrame informative columns offset suffix
      = (mergedRows columns suffix (available offset informative.rows)).map
          fun e => (e.1, cellsOf columns suffix e.2) := by
  have hframe : (informative.rows.map fun entry =>
        (entry.1 + offset, cellsOf columns suffix entry.2))
      = (available offset informative.rows).map fun e => (e.1, cellsOf columns suffix e.2) := by
    unfold available
    rw [List.map_map]
    rfl
  have hpairwise : ((available offset informative.rows).map
      fun e => (e.1, cellsOf columns suffix e.2)).Pairwise
        (fun a b => a.1 ≤ b.1) := by
    unfold available
    rw [List.map_map, List.pairwise_map]
    refine hsorted.imp fun {a b} hab => ?_
    exact Int.add_le_add_right hab offset
  unfold buildAvailableInformativeFrame mergedRows
  simp only
  rw [hframe, hpairwise.insertionSort_eq, dropDuplicated_map, List.filter_map]
  rfl

/-- The cell of a column at `t`: that of the last merged row. -/
def cellAt (kept : List (Timestamp × Row)) (t : Timestamp) (column : String) : PyFloat :=
  match asOf kept t with
  | some e => numericCell (e.2.get column)
  | none => .nan

theorem alignedCells_eq (kept : List (Timestamp × Row)) (columns : List String)
    (suffix : String) (t : Timestamp) :
    alignedCells (kept.map fun e => (e.1, cellsOf columns suffix e.2)) columns suffix t
      = columns.map fun column => (column ++ suffix, cellAt kept t column) := by
  unfold alignedCells cellAt
  rw [asOf_map]
  cases asOf kept t with
  | none => rfl
  | some e => rfl

/-- The batch merge of a frame that is sorted and not empty. -/
theorem mergeTimeframes_eq {primary informative : Frame} {interval : String} {offset : ℤ}
    (hsorted : Sorted informative.rows) (hoffset : intervalOffset interval = .ok offset)
    (hrows : informative.rows ≠ []) (hselected : selectedColumns informative none ≠ []) :
    mergeTimeframes primary informative interval none = .ok
      (let columns := selectedColumns informative none
      let kept := mergedRows columns ("_" ++ interval) (available offset informative.rows)
      if kept = [] then primary.rows
      else primary.rows.map fun entry => (entry.1, entry.2.assignAll
        ((columns.map fun column => (column ++ ("_" ++ interval), cellAt kept entry.1 column)).map
          fun cell => (cell.1, PyValue.num cell.2)))) := by
  unfold mergeTimeframes
  simp only
  rw [if_neg hrows, if_neg hselected, hoffset]
  generalize selectedColumns informative none = columns
  generalize "_" ++ interval = suffix
  show (if buildAvailableInformativeFrame informative columns offset suffix = [] then _
    else _) = _
  rw [buildAvailableInformativeFrame_eq hsorted]
  generalize mergedRows columns suffix (available offset informative.rows) = kept
  by_cases hkept : kept = []
  · have hmap : (kept.map fun e => (e.1, cellsOf columns suffix e.2)) = [] := by
      rw [hkept]
      rfl
    rw [if_pos hmap, if_pos hkept]
    rfl
  · have hmap : (kept.map fun e => (e.1, cellsOf columns suffix e.2)) ≠ [] := by
      simpa using hkept
    rw [if_neg hmap, if_neg hkept]
    simp only [alignedCells_eq]
    rfl

/-- A cell that the batch merge writes. -/
theorem get_assignCells {columns : List String} (hnodup : columns.Nodup) (suffix : String)
    (cell : String → PyFloat) (row : Row) {column : String} (hcolumn : column ∈ columns) :
    numericCell ((row.assignAll ((columns.map fun column => (column ++ suffix, cell column)).map
      fun cell => (cell.1, PyValue.num cell.2))).get (column ++ suffix)) = cell column := by
  have hget : (row.assignAll ((columns.map fun column => (column ++ suffix, cell column)).map
      fun cell => (cell.1, PyValue.num cell.2))).get (column ++ suffix)
        = some (.num (cell column)) := by
    refine OrderedDict.get_assignAll_of_mem ?_ ?_ row
    · have hkeys : (((columns.map fun column => (column ++ suffix, cell column)).map
          fun cell => (cell.1, PyValue.num cell.2)).map Prod.fst)
            = columns.map (fun column => column ++ suffix) := by
        rw [List.map_map, List.map_map]
        rfl
      rw [hkeys]
      exact hnodup.map (suffix_injective suffix)
    · rw [List.map_map]
      exact List.mem_map.mpr ⟨column, hcolumn, rfl⟩
  rw [hget]
  rfl

/-! ## §4 Where the two agree -/

/-- The last row available at `t` is all missing, while an older row that is
the last of its timestamp is not. -/
def CarriesForward (columns : List String) (entries : List (Timestamp × Row))
    (t : Timestamp) : Prop :=
  (∃ last, asOf entries t = some last ∧ AllMissing columns last.2) ∧
    ∃ e, Kept entries e ∧ e.1 ≤ t ∧ ¬ AllMissing columns e.2

/-- A row is available, but all rows are all missing, so that nothing is
merged, and the primary row has a value of its own in a suffixed column. -/
def KeepsOwn (columns : List String) (suffix : String) (entries : List (Timestamp × Row))
    (t : Timestamp) (own : Row) : Prop :=
  (asOf entries t).isSome = true ∧ (∀ e, Kept entries e → AllMissing columns e.2) ∧
    ∃ column ∈ columns, (numericCell (own.get (column ++ suffix))).isNan = false

/-- The suffixed columns that are attached to a primary bar, all selected
ones when a row is available and none otherwise, have the same values in the
live and in the batch row. -/
def AgreeAt (columns : List String) (suffix : String) (entries : List (Timestamp × Row))
    (t : Timestamp) (live batch : Row) : Prop :=
  (asOf entries t).isSome = true → ∀ column ∈ columns,
    numericCell (live.get (column ++ suffix)) = numericCell (batch.get (column ++ suffix))

instance (columns : List String) (suffix : String) (entries : List (Timestamp × Row))
    (t : Timestamp) (live batch : Row) :
    Decidable (AgreeAt columns suffix entries t live batch) :=
  inferInstanceAs (Decidable (_ → ∀ column ∈ columns, _))

/-- A candle-by-candle run of the enricher and a frame of the same
informative rows. -/
structure FedAlike (env : Environment) (settings : EnricherSettings)
    (item : InformativeTimeframe) (candles : List Feed) (frame : Frame)
    (enriched : List CausalEnrichedBar) : Prop where
  /-- The strategy declares one informative timeframe. -/
  informative : settings.informative = [item]
  run : ∃ enricher final, Enricher.create env settings = .ok enricher ∧
    candles.foldlM (feed env settings item.aliasName) (enricher, []) = .ok (final, enriched)
  /-- The frame has the rows that the informative engine computes; they are
  fed in the frame's order. -/
  rows : ∃ bars engine, informativeBars candles <+: bars ∧
    newEngine env (windowResolverFor item.interval settings.marketCalendar)
      (settings.indicatorsOf item.aliasName) = .ok engine ∧
    enrichRows env (settings.indicatorsOf item.aliasName) engine bars = .ok frame.rows
  sorted : Sorted frame.rows
  complete : ∀ entry ∈ frame.rows, ∀ column ∈ frame.columns,
    (entry.2.get column).isSome = true
  opens : (primaryOpens env candles).Pairwise (· ≤ ·)
  timely : ∀ offset, intervalOffset item.interval = .ok offset →
    Timely env offset frame.rows candles

/-- A new state has an engine of its own and an empty cursor. -/
theorem newInfoState_eq_ok {env : Environment} {settings : EnricherSettings}
    {item : InformativeTimeframe} {state : InfoState}
    (h : newInfoState env settings item = .ok state) :
    ∃ engine offset,
      newEngine env (windowResolverFor item.interval settings.marketCalendar)
        (settings.indicatorsOf item.aliasName) = .ok engine ∧
      intervalOffset item.interval = .ok offset ∧
      state = { engine := engine, suffix := "_" ++ item.interval
                cursor := { offset := offset } } := by
  unfold newInfoState at h
  obtain ⟨engine, hengine, h⟩ := bind_eq_ok.mp h
  obtain ⟨offset, hoffset, hpure⟩ := bind_eq_ok.mp h
  exact ⟨engine, offset, hengine, hoffset, (Except.ok.inj hpure).symm⟩

/-- The enricher of one informative timeframe, as it is created. -/
theorem create_serves {env : Environment} {settings : EnricherSettings}
    {item : InformativeTimeframe} {enricher : Enricher}
    (hinformative : settings.informative = [item])
    (h : Enricher.create env settings = .ok enricher) :
    ∃ engine offset state,
      newEngine env (windowResolverFor item.interval settings.marketCalendar)
        (settings.indicatorsOf item.aliasName) = .ok engine ∧
      intervalOffset item.interval = .ok offset ∧ state.engine = engine ∧
      ∀ queries, Serves item.aliasName offset ("_" ++ item.interval) [] queries enricher state := by
  unfold Enricher.create at h
  obtain ⟨primaryEngine, -, h⟩ := bind_eq_ok.mp h
  obtain ⟨info, hinfo, hpure⟩ := bind_eq_ok.mp h
  obtain rfl := Except.ok.inj hpure
  rw [hinformative, List.foldlM_cons] at hinfo
  obtain ⟨added, hadded, hnil⟩ := bind_eq_ok.mp hinfo
  obtain rfl := Except.ok.inj hnil
  unfold addInfoState at hadded
  obtain ⟨state, hstate, hassign⟩ := bind_eq_ok.mp hadded
  obtain rfl := Except.ok.inj hassign
  obtain ⟨engine, offset, hengine, hoffset, rfl⟩ := newInfoState_eq_ok hstate
  exact ⟨engine, offset, _, hengine, hoffset, rfl, fun queries =>
    ⟨rfl, rfl, rfl, rfl, fun t _ e he => nomatch he⟩⟩

/-- The live run attaches, to each primary bar, the last row of the frame
that is available at its open. -/
theorem FedAlike.attaches {env : Environment} {settings : EnricherSettings}
    {item : InformativeTimeframe} {candles : List Feed} {frame : Frame}
    {enriched : List CausalEnrichedBar} (h : FedAlike env settings item candles frame enriched) :
    ∃ offset, intervalOffset item.interval = .ok offset ∧ ∀ live ∈ enriched, ∃ row,
      live.values = attach row ((asOf (available offset frame.rows) live.timestamp).map Prod.snd)
        ("_" ++ item.interval) := by
  obtain ⟨enricher, final, hcreate, hrun⟩ := h.run
  obtain ⟨bars, engine, hprefix', hengine, hrows⟩ := h.rows
  obtain ⟨engine', offset, state, hengine', hoffset, hstate, hserves⟩ :=
    create_serves h.informative hcreate
  obtain rfl : engine = engine' := Except.ok.inj (hengine.symm.trans hengine')
  obtain ⟨new, hnew, hall⟩ := run_attaches candles [] (hserves _)
    (by rw [hstate]; exact hrows) hprefix' h.opens (h.timely offset hoffset) _ hrun
  have hsame : enriched = new := hnew
  rw [hsame]
  exact ⟨offset, hoffset, hall⟩

/-- A missing cell is NaN. -/
theorem eq_nan_of_isNan {x : PyFloat} (h : x.isNan = true) : x = .nan := by
  cases x with
  | nan => rfl
  | negInf => cases h
  | fin q => cases h
  | posInf => cases h

/-- What the lookup finds is the last of its timestamp. -/
theorem kept_of_asOf {α : Type} {entries : List (Timestamp × α)} {t : Timestamp}
    {e : Timestamp × α} (h : asOf entries t = some e) : Kept entries e ∧ e.1 ≤ t := by
  rcases asOf_cases entries t with ⟨hnone, -⟩ | ⟨earlier, e', later, hsplit, hsome, hle, hlater⟩
  · rw [hnone] at h
    cases h
  · obtain rfl : e' = e := Option.some.inj (hsome.symm.trans h)
    refine ⟨⟨earlier, later, hsplit, fun f hf heq => ?_⟩, hle⟩
    have hlt := hlater f hf
    rw [heq] at hlt
    exact absurd hle (not_le.mpr hlt)

section OnePrimaryBar

variable {columns : List String} {suffix : String} {entries : List (Timestamp × Row)}
  {t : Timestamp} {live batch own : Row} {last : Timestamp × Row}

/-- Before the first row is available nothing is attached, and nothing to carry on. -/
theorem agree_iff_of_none (h : asOf entries t = none) :
    AgreeAt columns suffix entries t live batch
      ↔ ¬ CarriesForward columns entries t ∧ ¬ KeepsOwn columns suffix entries t own := by
  refine iff_of_true (fun hsome => ?_) ⟨?_, ?_⟩
  · rw [h] at hsome
    cases hsome
  · rintro ⟨⟨last, hlast, -⟩, -⟩
    rw [h] at hlast
    cases hlast
  · rintro ⟨hsome, -⟩
    rw [h] at hsome
    cases hsome

/-- Without columns there is nothing to attach. -/
theorem agree_iff_of_nil :
    AgreeAt [] suffix entries t live batch
      ↔ ¬ CarriesForward [] entries t ∧ ¬ KeepsOwn [] suffix entries t own := by
  refine iff_of_true (fun _ => List.forall_mem_nil _) ⟨?_, ?_⟩
  · rintro ⟨-, e, -, -, hvalue⟩
    exact hvalue (List.forall_mem_nil _)
  · rintro ⟨-, -, column, hcolumn, -⟩
    cases hcolumn

/-- A last row with a value: the batch merge finds it too. -/
theorem asOf_mergedRows (hlast : asOf entries t = some last)
    (hvalue : ¬ AllMissing columns last.2) :
    mergedRows columns suffix entries ≠ []
      ∧ asOf (mergedRows columns suffix entries) t = some last := by
  have hmem : last ∈ mergedRows columns suffix entries :=
    mem_mergedRows.mpr ⟨(kept_of_asOf hlast).1, hvalue⟩
  exact ⟨List.ne_nil_of_mem hmem,
    asOf_filter_dropDuplicated hlast (hasValue_cellsOf.mpr hvalue)⟩

/-- … and neither exception is met. -/
theorem not_excepted_of_hasValue (hlast : asOf entries t = some last)
    (hvalue : ¬ AllMissing columns last.2) :
    ¬ CarriesForward columns entries t ∧ ¬ KeepsOwn columns suffix entries t own := by
  constructor
  · rintro ⟨⟨last', hlast', hmissing⟩, -⟩
    obtain rfl : last = last' := Option.some.inj (hlast.symm.trans hlast')
    exact hvalue hmissing
  · rintro ⟨-, hall, -⟩
    exact hvalue (hall last (kept_of_asOf hlast).1)

/-- Nothing is merged at all: the primary row keeps what it has. -/
theorem unmerged_agree_iff (hlast : asOf entries t = some last)
    (hmissing : AllMissing columns last.2) (hnone : mergedRows columns suffix entries = []) :
    (∀ column ∈ columns,
        numericCell (last.2.get column) = numericCell (own.get (column ++ suffix)))
      ↔ ¬ CarriesForward columns entries t ∧ ¬ KeepsOwn columns suffix entries t own := by
  have hnan : ∀ column ∈ columns, numericCell (last.2.get column) = .nan :=
    fun column hcolumn => eq_nan_of_isNan (hmissing column hcolumn)
  have hall : ∀ e, Kept entries e → AllMissing columns e.2 := by
    intro e he
    by_contra hvalue
    have hmem : e ∈ mergedRows columns suffix entries := mem_mergedRows.mpr ⟨he, hvalue⟩
    rw [hnone] at hmem
    cases hmem
  constructor
  · intro h
    refine ⟨fun hc => hc.2.elim fun e he => he.2.2 (hall e he.1), ?_⟩
    rintro ⟨-, -, column, hcolumn, hvalue⟩
    rw [← h column hcolumn, hnan column hcolumn] at hvalue
    cases hvalue
  · rintro ⟨-, hown⟩ column hcolumn
    rw [hnan column hcolumn]
    by_contra hvalue
    refine hown ⟨by rw [hlast]; rfl, hall, column, hcolumn, ?_⟩
    cases hcell : numericCell (own.get (column ++ suffix)) with
    | nan => exact absurd hcell.symm hvalue
    | negInf => rfl
    | fin q => rfl
    | posInf => rfl

/-- Some row is merged, and the last one has no value: the cells agree unless an older
row with a value is carried forward. -/
theorem merged_agree_iff (hlast : asOf entries t = some last)
    (hmissing : AllMissing columns last.2) (hsome : mergedRows columns suffix entries ≠ []) :
    (∀ column ∈ columns,
        numericCell (last.2.get column) = cellAt (mergedRows columns suffix entries) t column)
      ↔ ¬ CarriesForward columns entries t ∧ ¬ KeepsOwn columns suffix entries t own := by
  have hnan : ∀ column ∈ columns, numericCell (last.2.get column) = .nan :=
    fun column hcolumn => eq_nan_of_isNan (hmissing column hcolumn)
  have hown : ¬ KeepsOwn columns suffix entries t own := by
    rintro ⟨-, hall, -⟩
    obtain ⟨e, he⟩ := List.exists_mem_of_ne_nil _ hsome
    exact (mem_mergedRows.mp he).2 (hall e (mem_mergedRows.mp he).1)
  rcases asOf_cases (mergedRows columns suffix entries) t with
    ⟨hfound, hlater⟩ | ⟨earlier, e, later, hsplit, hfound, hle, -⟩
  · -- No valued row up to `t`: the batch cells are NaN.
    have hforward : ¬ CarriesForward columns entries t := by
      rintro ⟨-, e, he, hle, hvalue⟩
      exact absurd hle (not_le.mpr (hlater e (mem_mergedRows.mpr ⟨he, hvalue⟩)))
    refine ⟨fun _ => ⟨hforward, hown⟩, fun _ column hcolumn => ?_⟩
    unfold cellAt
    rw [hfound, hnan column hcolumn]
  · -- An older valued row is carried forward.
    have hmem : e ∈ mergedRows columns suffix entries := by
      rw [hsplit]
      exact List.mem_append_right earlier List.mem_cons_self
    obtain ⟨hkeptE, hvalue⟩ := mem_mergedRows.mp hmem
    have hforward : CarriesForward columns entries t :=
      ⟨⟨last, hlast, hmissing⟩, e, hkeptE, hle, hvalue⟩
    refine ⟨fun h => absurd ?_ hvalue, fun h => absurd hforward h.1⟩
    intro column hcolumn
    have hcell := h column hcolumn
    unfold cellAt at hcell
    rw [hfound, hnan column hcolumn] at hcell
    simp only at hcell
    rw [← hcell]
    rfl

/-- **One primary bar.** When a row is available, the live cells, which are
those of the last available row, are the batch cells exactly when nothing is
carried forward over it and no value of the primary row is kept instead. -/
theorem agree_iff (hlast : asOf entries t = some last)
    (hlive : ∀ column ∈ columns,
      numericCell (live.get (column ++ suffix)) = numericCell (last.2.get column))
    (hbatch : ∀ column ∈ columns, numericCell (batch.get (column ++ suffix))
      = if mergedRows columns suffix entries = []
        then numericCell (own.get (column ++ suffix))
        else cellAt (mergedRows columns suffix entries) t column) :
    AgreeAt columns suffix entries t live batch
      ↔ ¬ CarriesForward columns entries t ∧ ¬ KeepsOwn columns suffix entries t own := by
  have hagree : AgreeAt columns suffix entries t live batch ↔ ∀ column ∈ columns,
      numericCell (last.2.get column)
        = if mergedRows columns suffix entries = []
          then numericCell (own.get (column ++ suffix))
          else cellAt (mergedRows columns suffix entries) t column := by
    constructor
    · intro h column hcolumn
      rw [← hlive column hcolumn, ← hbatch column hcolumn]
      exact h (by rw [hlast]; rfl) column hcolumn
    · intro h _ column hcolumn
      rw [hlive column hcolumn, hbatch column hcolumn]
      exact h column hcolumn
  rw [hagree]
  by_cases hmissing : AllMissing columns last.2
  · by_cases hnone : mergedRows columns suffix entries = []
    · simp only [if_pos hnone]
      exact unmerged_agree_iff hlast hmissing hnone
    · simp only [if_neg hnone]
      exact merged_agree_iff hlast hmissing hnone
  · obtain ⟨hsome, hfound⟩ := @asOf_mergedRows columns suffix _ _ _ hlast hmissing
    simp only [if_neg hsome]
    refine iff_of_true (fun column hcolumn => ?_) (not_excepted_of_hasValue hlast hmissing)
    unfold cellAt
    rw [hfound]

end OnePrimaryBar

/-- **Where the live merge is the batch merge.** For every run of candles in
order and the frame of the same informative rows: the batch merge returns,
and at every primary bar the attached columns agree if and only if

* the last informative row available there has a value in some column, or no
  older row that is the last of its timestamp has one; and
* if no informative row at all has a value, the primary frame has none in a
  suffixed column either. -/
theorem live_eq_batch_iff {env : Environment} {settings : EnricherSettings}
    {item : InformativeTimeframe} {candles : List Feed} {frame primary : Frame}
    {enriched : List CausalEnrichedBar} (h : FedAlike env settings item candles frame enriched)
    (hprimary : primary.rows.map Prod.fst = enriched.map CausalEnrichedBar.timestamp) :
    ∃ (offset : ℤ) (merged : List (Timestamp × Row)),
      intervalOffset item.interval = .ok offset ∧
      mergeTimeframes primary frame item.interval none = .ok merged ∧
      merged.map Prod.fst = enriched.map CausalEnrichedBar.timestamp ∧
      ∀ (i : ℕ) (live : CausalEnrichedBar) (batch own : Timestamp × Row),
        enriched[i]? = some live → merged[i]? = some batch → primary.rows[i]? = some own →
        (AgreeAt (selectedColumns frame none) ("_" ++ item.interval)
            (available offset frame.rows) live.timestamp live.values batch.2
          ↔ ¬ CarriesForward (selectedColumns frame none) (available offset frame.rows)
                live.timestamp ∧
            ¬ KeepsOwn (selectedColumns frame none) ("_" ++ item.interval)
                (available offset frame.rows) live.timestamp own.2) := by
  obtain ⟨offset, hoffset, hattach⟩ := h.attaches
  -- Without rows or without columns nothing is attached and nothing is merged.
  by_cases hempty : frame.rows = [] ∨ selectedColumns frame none = []
  · refine ⟨offset, primary.rows, hoffset, ?_, hprimary, fun i live batch own _ _ _ => ?_⟩
    · unfold mergeTimeframes
      simp only
      split
      · rfl
      · rename_i hrows
        rw [if_pos (hempty.resolve_left hrows)]
    · rcases hempty with hrows | hselected
      · rw [hrows]
        exact agree_iff_of_none rfl
      · rw [hselected]
        exact agree_iff_of_nil
  · obtain ⟨hrows, hselected⟩ := not_or.mp hempty
    refine ⟨offset, _, hoffset, mergeTimeframes_eq h.sorted hoffset hrows hselected, ?_, ?_⟩
    · simp only
      split
      · exact hprimary
      · rw [List.map_map, ← hprimary]
        rfl
    · intro i live batch own hlive hbatch hown
      have htimestamp : own.1 = live.timestamp := by
        have hat := congrArg (fun times => times[i]?) hprimary
        simp only [List.getElem?_map, hown, hlive, Option.map_some] at hat
        exact Option.some.inj hat
      obtain ⟨row, hvalues⟩ := hattach live (List.mem_of_getElem? hlive)
      cases hlast : asOf (available offset frame.rows) live.timestamp with
      | none => exact agree_iff_of_none hlast
      | some last =>
          refine agree_iff hlast (fun column hcolumn => ?_) (fun column hcolumn => ?_)
          · have hmem : last ∈ available offset frame.rows := by
              obtain ⟨⟨earlier, later, hsplit, -⟩, -⟩ := kept_of_asOf hlast
              rw [hsplit]
              exact List.mem_append_right earlier List.mem_cons_self
            obtain ⟨entry, hentry, rfl⟩ := List.mem_map.mp hmem
            obtain ⟨hin, hohlcv⟩ := List.mem_filter.mp hcolumn
            obtain ⟨value, hvalue⟩ :=
              Option.isSome_iff_exists.mp (h.complete entry hentry column hin)
            rw [hvalues, hlast]
            show numericCell ((mergeInformative row entry.2 _).get _) = _
            rw [get_mergeInformative (of_decide_eq_true hohlcv) hvalue]
            exact congrArg numericCell hvalue.symm
          · have hnodup : (selectedColumns frame none).Nodup :=
              frame.nodup.sublist List.filter_sublist
            simp only at hbatch
            split at hbatch
            · rename_i hnone
              rw [if_pos hnone]
              obtain rfl : own = batch := Option.some.inj (hown.symm.trans hbatch)
              rfl
            · rename_i hnone
              rw [if_neg hnone]
              rw [List.getElem?_map, hown] at hbatch
              obtain rfl := Option.some.inj hbatch
              rw [← htimestamp]
              exact get_assignCells hnodup _ _ own.2 hcolumn

/-! ## §5 A row without values

Two days of a column, the second one missing, and a primary bar after both. -/

/-- Timestamps are seconds. -/
def secondsEnvironment : Environment where
  runtime := sampleRuntime
  parseTimestamp
    | .num (.fin q) => .ok (⌊q * 1000000000⌋)
    | value => .error (.valueError { template := "%", args := [.text value.toStr] })

/-- One daily timeframe, without indicators. -/
def dailySettings : EnricherSettings where
  timeframes := some { primary := "1h", informative := [⟨"daily", "1d"⟩] }
  primaryIndicators := []
  informativeIndicators := {}

/-- A bar at a time in seconds, with a column of its own. -/
def flagBar (seconds : ℚ) (extra : List (String × PyValue)) : StreamBar where
  openPrice := 100
  high := 101
  low := 99
  close := 100
  volume := 10
  timestamp := some (.ofRat seconds)
  extra := extra

/-- The daily bars: a flag, then a missing one. -/
def flagBars : List StreamBar :=
  [flagBar 0 [("flag", .ofRat 5)], flagBar 86400 [("flag", .none)]]

/-- Both daily bars, then an hourly bar three days later. -/
def flagCandles : List Feed :=
  flagBars.map .informative ++ [.primary (flagBar 259200 [])]

/-- The frame of informative rows with the column. -/
def flagFrame (rows : List (Timestamp × Row)) : Frame where
  columns := ["flag"]
  rows := rows

/-- The primary frame. -/
def hourFrame : Frame where
  columns := []
  rows := [(259200000000000, {})]

/-- The two runs: the rows, the live bars and the merged frame. -/
def flagRuns : Except PyError
    (List (Timestamp × Row) × List CausalEnrichedBar × List (Timestamp × Row)) := do
  let engine ← newEngine secondsEnvironment none []
  let rows ← enrichRows secondsEnvironment [] engine flagBars
  let enricher ← Enricher.create secondsEnvironment dailySettings
  let (_, enriched) ← flagCandles.foldlM (feed secondsEnvironment dailySettings "daily")
    (enricher, [])
  let merged ← mergeTimeframes hourFrame (flagFrame rows) "1d" none
  return (rows, enriched, merged)

/-- A day, in nanoseconds. -/
def day : ℤ := 86400000000000

theorem flagRuns_ok : Ensures flagRuns fun result =>
    (result.1.length = 2 ∧ result.1.Pairwise (fun e f => e.1 ≤ f.1) ∧
      ∀ entry ∈ result.1, (entry.2.get "flag").isSome = true) ∧
    (hourFrame.rows.map Prod.fst = result.2.1.map CausalEnrichedBar.timestamp) ∧
    result.2.1.length = 1 ∧ result.2.2.length = 1 ∧
    ∀ live ∈ result.2.1, ∀ batch ∈ result.2.2,
      ¬ AgreeAt ["flag"] "_1d" (available day result.1) live.timestamp live.values batch.2 :=
  Ensures.of_run (by decide +kernel)

/-- The two runs are of the same rows. -/
theorem flagRuns_fedAlike : ∃ (rows : List (Timestamp × Row))
    (enriched : List CausalEnrichedBar) (merged : List (Timestamp × Row)),
    FedAlike secondsEnvironment dailySettings ⟨"daily", "1d"⟩ flagCandles (flagFrame rows)
      enriched ∧
    hourFrame.rows.map Prod.fst = enriched.map CausalEnrichedBar.timestamp ∧
    mergeTimeframes hourFrame (flagFrame rows) "1d" none = .ok merged ∧
    ∃ live batch, enriched[0]? = some live ∧ merged[0]? = some batch ∧
      ¬ AgreeAt ["flag"] "_1d" (available day rows) live.timestamp live.values batch.2 := by
  obtain ⟨⟨rows, enriched, merged⟩, hruns, ⟨hlength, hsorted, hcomplete⟩, hopens, hlive,
    hbatch, hdisagree⟩ := flagRuns_ok
  unfold flagRuns at hruns
  obtain ⟨engine, hengine, hruns⟩ := bind_eq_ok.mp hruns
  obtain ⟨rows', hrows, hruns⟩ := bind_eq_ok.mp hruns
  obtain ⟨enricher, hcreate, hruns⟩ := bind_eq_ok.mp hruns
  obtain ⟨⟨final, enriched'⟩, hrun, hruns⟩ := bind_eq_ok.mp hruns
  obtain ⟨merged', hmerged, hruns⟩ := bind_eq_ok.mp hruns
  obtain ⟨rfl, heq⟩ := Prod.mk.inj (Except.ok.inj hruns)
  obtain ⟨rfl, rfl⟩ := Prod.mk.inj heq
  have hunfed : rows'.tail.tail = [] := by
    rw [← List.length_eq_zero_iff, List.length_tail, List.length_tail, hlength]
  refine ⟨rows', enriched', merged', ⟨rfl, ⟨enricher, final, hcreate, hrun⟩, ?_, hsorted,
    ?_, ?_, fun offset _ => ?_⟩, hopens, hmerged, ?_⟩
  · exact ⟨flagBars, engine, List.prefix_rfl, hengine, hrows⟩
  · intro entry hentry column hcolumn
    obtain rfl := List.mem_singleton.mp hcolumn
    exact hcomplete entry hentry
  · decide +kernel
  · refine ⟨fun t _ entry hentry => ?_, trivial⟩
    have hentry' : entry ∈ rows'.tail.tail := hentry
    rw [hunfed] at hentry'
    cases hentry'
  · obtain ⟨live, hlive⟩ : ∃ live, enriched' = [live] := List.length_eq_one_iff.mp hlive
    obtain ⟨batch, hbatch⟩ : ∃ batch, merged' = [batch] := List.length_eq_one_iff.mp hbatch
    refine ⟨live, batch, by rw [hlive]; rfl, by rw [hbatch]; rfl, ?_⟩
    exact hdisagree live (by rw [hlive]; exact List.mem_singleton.mpr rfl) batch
      (by rw [hbatch]; exact List.mem_singleton.mpr rfl)

/-- The live row has NaN in the column and the batch row the flag of two
days before, so the merges do not always agree. -/
theorem missing_row_disagrees : ¬ ∀ (env : Environment) (settings : EnricherSettings)
    (item : InformativeTimeframe) (candles : List Feed) (frame primary : Frame)
    (enriched : List CausalEnrichedBar) (merged : List (Timestamp × Row)) (offset : ℤ),
    FedAlike env settings item candles frame enriched →
    primary.rows.map Prod.fst = enriched.map CausalEnrichedBar.timestamp →
    intervalOffset item.interval = .ok offset →
    mergeTimeframes primary frame item.interval none = .ok merged →
    ∀ (i : ℕ) (live : CausalEnrichedBar) (batch : Timestamp × Row),
      enriched[i]? = some live → merged[i]? = some batch →
      AgreeAt (selectedColumns frame none) ("_" ++ item.interval)
        (available offset frame.rows) live.timestamp live.values batch.2 := by
  intro hclaim
  obtain ⟨rows, enriched, merged, hfed, hopens, hmerged, live, batch, hlive, hbatch,
    hdisagree⟩ := flagRuns_fedAlike
  have hoffset : intervalOffset "1d" = .ok day := by decide +kernel
  exact hdisagree (hclaim _ _ _ _ _ hourFrame _ merged day hfed hopens hoffset hmerged 0 live
    batch hlive hbatch)

/-- The two runs at the bar where they disagree. -/
theorem live_eq_batch_iff_flag : ∃ (rows : List (Timestamp × Row))
    (enriched : List CausalEnrichedBar) (offset : ℤ) (merged : List (Timestamp × Row)),
    intervalOffset "1d" = .ok offset ∧
    mergeTimeframes hourFrame (flagFrame rows) "1d" none = .ok merged ∧
    ∀ (i : ℕ) (live : CausalEnrichedBar) (batch own : Timestamp × Row),
      enriched[i]? = some live → merged[i]? = some batch → hourFrame.rows[i]? = some own →
      (AgreeAt (selectedColumns (flagFrame rows) none) ("_" ++ "1d")
          (available offset rows) live.timestamp live.values batch.2
        ↔ ¬ CarriesForward (selectedColumns (flagFrame rows) none) (available offset rows)
              live.timestamp ∧
          ¬ KeepsOwn (selectedColumns (flagFrame rows) none) ("_" ++ "1d")
              (available offset rows) live.timestamp own.2) := by
  obtain ⟨rows, enriched, -, hfed, hopens, -⟩ := flagRuns_fedAlike
  obtain ⟨offset, merged, hoffset, hmerged, -, hiff⟩ := live_eq_batch_iff hfed hopens
  exact ⟨rows, enriched, offset, merged, hoffset, hmerged, hiff⟩

end Finbar.Enrichment
