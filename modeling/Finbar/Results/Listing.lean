/-
Finbar.Results.Listing — `list_results`: what the store lists.

The newest rows of the table come first, as many as the limit allows, and then the
records in memory that the table does not list, as far as there is room. `Shelf` says
what the listing is of: the results whose save has returned, in that order, less those
deleted. After an orderly run in which no save is under way, the listing is the newest
`limit` of them that match (`listResults_newest`), though the memory holds some of them
only and in an order of its own.

The filter by symbol compares upper-case symbols in memory, and the column with the
upper-case symbol in the table: a result with another spelling is listed only as long
as it is in memory, which is why the symbols must be in upper case.

No `sorry`, no `axiom`.
-/
import Finbar.Results.HistoryTheorems

namespace Finbar.Results

open Lib Lib.Eviction Lib.History Lib.Steps

variable {R J S τ κ : Type}

/-! ## §1 The source -/

/-- What is listed of a result; the table does not hold its summary. -/
structure Listed (S τ : Type) where
  resultId : String
  createdAt : τ
  info : ResultInfo
  summary : Option S
  deriving DecidableEq

/-- A filter as Python reads it: `None` and the empty string let everything pass. -/
def given (filter : Option String) : Option String := filter.filter (· ≠ "")

/-- `_matches`. -/
def infoMatches (upper : String → String) (symbol strategyName : Option String)
    (info : ResultInfo) : Bool :=
  (given symbol).all (fun s => decide (upper info.symbol = upper s)) &&
    (given strategyName).all (fun s => decide (info.strategyName = s))

/-- The `where` clauses of `list_metadata`. -/
def rowSelected (upper : String → String) (symbol strategyName : Option String)
    (info : ResultInfo) : Bool :=
  (given symbol).all (fun s => decide (info.symbol = upper s)) &&
    (given strategyName).all (fun s => decide (info.strategyName = s))

/-- `SqlBacktestResultRepository.list_metadata`. -/
def listMetadata (upper : String → String) (symbol strategyName : Option String) (limit : ℕ)
    (rows : List (Row J τ)) : List (Listed S τ) :=
  ((rows.reverse.filter fun row => rowSelected upper symbol strategyName row.info).take limit).map
    fun row => ⟨row.resultId, row.createdAt, row.info, none⟩

/-- `_public_record`. -/
def publicRecord (summary : R → S) (entry : String × Record R τ) : Listed S τ :=
  ⟨entry.1, entry.2.createdAt, entry.2.info, some (summary entry.2.result)⟩

/-- The records in memory that match, newest first. -/
def listMemory [LinearOrder τ] (summary : R → S) (upper : String → String)
    (symbol strategyName : Option String) (m : Memory R τ) : List (Listed S τ) :=
  ((m.records.items.mergeSort fun a b => decide (b.2.createdAt ≤ a.2.createdAt)).filter
    fun entry => infoMatches upper symbol strategyName entry.2.info).map (publicRecord summary)

/-- `list_results` with a session factory. -/
def listResults [LinearOrder τ] (summary : R → S) (upper : String → String)
    (symbol strategyName : Option String) (limit : ℤ) (s : System R J τ κ) : List (Listed S τ) :=
  let limit := (max 1 (min limit s.memory.maxResults)).toNat
  let merged : OrderedDict String (Listed S τ) := ({} : OrderedDict String (Listed S τ)).assignAll
    ((listMetadata upper symbol strategyName limit s.rows).map fun r => (r.resultId, r))
  ((merged.assignAll ((listMemory summary upper symbol strategyName s.memory).map
    fun r => (r.resultId, r))).items.map Prod.snd).take limit

/-! ## §2 The shelf -/

/-- What the saves and deletes leave: the results filed, and those whose save has returned,
in that order. -/
structure Shelf (R : Type) where
  filed : List (String × R) := []
  kept : List (String × R) := []

/-- What an event changes. -/
def Shelf.step (shelf : Shelf R) : Event R → Shelf R
  | .saving resultId result => { shelf with filed := shelf.filed ++ [(resultId, result)] }
  | .saved resultId =>
      { shelf with kept := shelf.kept ++ shelf.filed.filter fun p => decide (p.1 = resultId) }
  | .deleted resultId _ =>
      { shelf with kept := shelf.kept.filter fun p => decide (p.1 ≠ resultId) }
  | _ => shelf

/-- The shelf after a history. -/
def shelf (history : List (Event R)) : Shelf R := run Shelf.step {} history

theorem shelf_concat (history : List (Event R)) (event : Event R) :
    shelf (history ++ [event]) = (shelf history).step event :=
  run_append Shelf.step {} history [event]

/-- The events that are about no save and no delete change nothing. -/
theorem shelf_quiet {history : List (Event R)} {event : Event R} (h : event.quiet = true) :
    shelf (history ++ [event]) = shelf history := by
  rw [shelf_concat]
  cases event <;> first | rfl | cases h

/-- What is filed under an id, if no id is filed twice. -/
theorem filter_filed {filed : List (String × R)} (hnodup : (filed.map Prod.fst).Nodup)
    {resultId : String} {result : R} (h : (resultId, result) ∈ filed) :
    (filed.filter fun p => decide (p.1 = resultId)) = [(resultId, result)] := by
  induction filed with
  | nil => cases h
  | cons first filed ih =>
      rw [List.map_cons, List.nodup_cons] at hnodup
      rcases List.mem_cons.mp h with rfl | hmem
      · rw [List.filter_cons, if_pos (decide_eq_true rfl)]
        refine congrArg _ (List.filter_eq_nil_iff.mpr fun p hp heq => hnodup.1 ?_)
        exact List.mem_map.mpr ⟨p, hp, of_decide_eq_true heq⟩
      · rw [List.filter_cons_of_neg, ih hnodup.2 hmem]
        intro heq
        exact hnodup.1 (List.mem_map.mpr ⟨_, hmem, (of_decide_eq_true heq).symm⟩)

/-! ## §3 The ids listed -/

variable {upper : String → String} {symbol strategyName : Option String}

/-- The two filters agree where the symbol is in upper case. -/
theorem infoMatches_eq_rowSelected {info : ResultInfo} (h : upper info.symbol = info.symbol) :
    infoMatches upper symbol strategyName info = rowSelected upper symbol strategyName info := by
  rw [infoMatches, rowSelected, h]

/-- The rows that `list_metadata` selects, newest first. -/
def selectedRows (upper : String → String) (symbol strategyName : Option String)
    (rows : List (Row J τ)) : List (Row J τ) :=
  rows.reverse.filter fun row => rowSelected upper symbol strategyName row.info

/-- The ids listed, when all that memory lists is in a selected row. -/
theorem listResults_ids [LinearOrder τ] {summary : R → S} {s : System R J τ κ} (limit : ℤ) (hrows : (rowIds s.rows).Nodup)
    (hmemory : ∀ listed ∈ listMemory summary upper symbol strategyName s.memory,
      listed.resultId ∈ (selectedRows upper symbol strategyName s.rows).map Row.resultId) :
    (listResults summary upper symbol strategyName limit s).map Listed.resultId =
      ((selectedRows upper symbol strategyName s.rows).map Row.resultId).take
        (max 1 (min limit s.memory.maxResults)).toNat := by
  set n := (max 1 (min limit s.memory.maxResults)).toNat
  set selected := selectedRows upper symbol strategyName s.rows with hselected
  set listed : List (Listed S τ) := listMemory summary upper symbol strategyName s.memory
  set table := (listMetadata upper symbol strategyName n s.rows : List (Listed S τ)) with htable
  set keyed : Listed S τ → String × Listed S τ := fun r => (r.resultId, r)
  set d := ({} : OrderedDict String (Listed S τ)).assignAll (table.map keyed) with hd
  have hids : table.map Listed.resultId = (selected.take n).map Row.resultId := by
    rw [htable, listMetadata, List.map_map]
    rfl
  have hnodup : ((table.map keyed).map Prod.fst).Nodup := by
    rw [List.map_map]
    show (table.map Listed.resultId).Nodup
    rw [hids]
    have hsublist : (selected.take n).Sublist s.rows.reverse :=
      (List.take_sublist n selected).trans List.filter_sublist
    have hreversed : (s.rows.reverse.map Row.resultId).Nodup := by
      rw [List.map_reverse]
      exact List.nodup_reverse.mpr hrows
    exact hreversed.sublist (hsublist.map Row.resultId)
  have hitems : d.items = table.map keyed := OrderedDict.items_assignAll hnodup
  have hkeys : d.keys = (selected.take n).map Row.resultId := by
    rw [OrderedDict.keys, hitems, List.map_map, ← hids]
    rfl
  have hself : ∀ entry ∈ (d.assignAll (listed.map keyed)).items, entry.2.resultId = entry.1 := by
    intro entry hentry
    rcases OrderedDict.mem_items_assignAll hentry with hentry | hentry
    · rw [hitems] at hentry
      obtain ⟨r, -, rfl⟩ := List.mem_map.mp hentry
      rfl
    · obtain ⟨r, -, rfl⟩ := List.mem_map.mp hentry
      rfl
  have hlisted : (listResults summary upper symbol strategyName limit s).map Listed.resultId =
      (d.assignAll (listed.map keyed)).keys.take n := by
    rw [OrderedDict.keys, ← List.map_congr_left hself]
    show (((d.assignAll (listed.map keyed)).items.map Prod.snd).take n).map Listed.resultId = _
    rw [List.map_take, List.map_map]
    rfl
  rw [hlisted, ← List.map_take, ← hkeys]
  by_cases hfull : n ≤ selected.length
  · have hlength : d.items.length = n := by
      rw [hitems, List.length_map, ← List.length_map Listed.resultId, hids, List.length_map,
        List.length_take, min_eq_left hfull]
    rw [← hlength]
    exact OrderedDict.keys_assignAll_take d _
  · -- the table lists all that is selected, and memory adds nothing
    have hall : selected.take n = selected := List.take_of_length_le (not_le.mp hfull).le
    rw [hall] at hkeys
    rw [OrderedDict.keys_assignAll_of_mem]
    · refine List.take_of_length_le ?_
      rw [hkeys, List.length_map]
      exact (not_le.mp hfull).le
    · intro entry hentry
      obtain ⟨r, hr, rfl⟩ := List.mem_map.mp hentry
      rw [hkeys]
      exact hmemory r hr

/-! ## §4 The table is the shelf -/

/-- The rows are what the shelf keeps, in its order, and what is in memory is on its way there. -/
structure Shelved (codec : Codec R J) (s : System R J τ κ) : Prop where
  rows : (s.rows.map fun row => (row.resultId, row.info)) =
    (shelf s.history).kept.map fun p => (p.1, codec.info p.2)
  filed : ∀ resultId result, (resultId, result) ∈ (shelf s.history).filed ↔
    Event.saving resultId result ∈ s.history
  filed_nodup : ((shelf s.history).filed.map Prod.fst).Nodup
  kept : ∀ p ∈ (shelf s.history).kept, Event.saving p.1 p.2 ∈ s.history
  rows_nodup : (rowIds s.rows).Nodup
  info : ∀ resultId record, s.memory.records.get resultId = some record →
    record.info = codec.info record.result
  under_way : ∀ resultId result, Event.saving resultId result ∈ s.history →
    Event.saved resultId ∈ s.history ∨
      ∃ thread, s.calls thread = some (.persisting resultId result)

variable {codec : Codec R J} {s : System R J τ κ} {resultId : String}

theorem shelved_init (codec : Codec R J) (maxResults : ℤ) :
    Shelved codec (System.init maxResults : System R J τ κ) where
  rows := rfl
  filed _ _ := ⟨fun h => (nomatch h), fun h => nomatch h⟩
  filed_nodup := List.nodup_nil
  kept _ h := nomatch h
  rows_nodup := List.nodup_nil
  info _ _ h := nomatch h
  under_way _ _ h := nomatch h

/-- The selected rows are the matching part of the shelf, newest first. -/
theorem map_selectedRows (h : Shelved codec s) :
    (selectedRows upper symbol strategyName s.rows).map Row.resultId =
      (((shelf s.history).kept.reverse.filter fun p =>
        rowSelected upper symbol strategyName (codec.info p.2)).map Prod.fst) := by
  have hpairs := congrArg (fun pairs => (pairs.reverse.filter fun p : String × ResultInfo =>
    rowSelected upper symbol strategyName p.2).map Prod.fst) h.rows
  simp only [← List.map_reverse, List.filter_map, List.map_map] at hpairs
  exact hpairs

/-- What memory lists is in a selected row. -/
theorem mem_selectedRows [LinearOrder τ] {summary : R → S} (h : Shelved codec s) (hs : Consistent codec s)
    (hdone : ∀ thread resultId result, s.calls thread ≠ some (.persisting resultId result))
    (hupper : ∀ p ∈ (shelf s.history).kept,
      upper (codec.info p.2).symbol = (codec.info p.2).symbol)
    {listed : Listed S τ} (hlisted : listed ∈ listMemory summary upper symbol strategyName s.memory) :
    listed.resultId ∈ (selectedRows upper symbol strategyName s.rows).map Row.resultId := by
  obtain ⟨⟨id, record⟩, hentry, rfl⟩ := List.mem_map.mp hlisted
  obtain ⟨hentry, hmatches⟩ := List.mem_filter.mp hentry
  rw [List.mem_mergeSort, OrderedDict.mem_items] at hentry
  have hsaving := hs.memory id record hentry
  have hsaved : Event.saved id ∈ s.history :=
    (h.under_way id _ hsaving).resolve_right fun ⟨thread, hcall⟩ => hdone thread id _ hcall
  have hkept : ∀ existed, Event.deleted id existed ∉ s.history := by
    intro existed hdeleted
    have hnone := (hs.popped id (hs.gone id existed hdeleted).2).1
    exact Option.some_ne_none record (hentry.symm.trans hnone)
  obtain ⟨row, hrow, rfl⟩ := List.mem_map.mp (hs.present id hsaved hkept)
  have hpair : (row.resultId, row.info) ∈
      (shelf s.history).kept.map fun p => (p.1, codec.info p.2) :=
    h.rows ▸ List.mem_map.mpr ⟨row, hrow, rfl⟩
  obtain ⟨⟨id, result⟩, hp, heq⟩ := List.mem_map.mp hpair
  obtain ⟨rfl, hinfo⟩ := Prod.mk.inj heq
  have hresult : result = record.result := hs.saving_unique _ _ _ (h.kept _ hp) hsaving
  refine List.mem_map.mpr ⟨row, List.mem_filter.mpr ⟨List.mem_reverse.mpr hrow, ?_⟩, rfl⟩
  rw [← hinfo, ← infoMatches_eq_rowSelected (hupper _ hp), hresult, ← h.info _ _ hentry]
  exact hmatches

/-- A quiet event. -/
theorem Shelved.note (h : Shelved codec s) {event : Event R} (hquiet : event.quiet = true) :
    Shelved codec (s.note event) := by
  have hmem : ∀ {other : Event R}, other.quiet = false →
      (other ∈ s.history ++ [event] ↔ other ∈ s.history) := by
    intro other hother
    rw [mem_append_singleton, or_iff_left]
    rintro rfl
    exact Bool.false_ne_true (hother.symm.trans hquiet)
  refine { h with rows := ?_, filed := ?_, filed_nodup := ?_, kept := ?_, under_way := ?_ }
  all_goals simp only [System.note, shelf_quiet hquiet,
    hmem (show (Event.saving _ _).quiet = false from rfl),
    hmem (show (Event.saved _ : Event R).quiet = false from rfl)]
  · exact h.rows
  · exact h.filed
  · exact h.filed_nodup
  · exact h.kept
  · exact h.under_way

variable [DecidableEq κ]

/-- A thread that persists nothing enters or leaves a call. -/
theorem Shelved.other (h : Shelved codec s) {thread : κ} {pending : Option (Pending R)}
    (hbefore : ∀ id result, s.calls thread ≠ some (.persisting id result)) :
    Shelved codec { s with calls := Function.update s.calls thread pending } := by
  refine { h with under_way := fun id result hsaving => ?_ }
  refine (h.under_way id result hsaving).imp_right ?_
  rintro ⟨thread', hcall⟩
  refine ⟨thread', ?_⟩
  have hne : thread' ≠ thread := by
    rintro rfl
    exact hbefore id result hcall
  show Function.update s.calls thread pending thread' = _
  rw [Function.update_of_ne hne, hcall]

theorem Shelved.beginSave [LinearOrder τ] (h : Shelved codec s) {thread : κ} (now : τ) (result : R)
    (hfree : s.calls thread = none)
    (hfresh : ∀ result, Event.saving resultId result ∉ s.history) :
    Shelved codec (s.beginSave codec thread now resultId result) := by
  refine
    { rows := ?_, filed := ?_, filed_nodup := ?_, kept := ?_, rows_nodup := ?_, info := ?_
      under_way := ?_ }
  all_goals simp only [System.beginSave, System.note, System.enter, shelf_concat, Shelf.step,
    mem_append_singleton, reduceCtorEq, or_false, Event.saving.injEq]
  · exact h.rows
  · intro id r
    rw [List.mem_append, List.mem_singleton, Prod.mk.injEq, h.filed]
  · rw [List.map_append, List.nodup_append]
    refine ⟨h.filed_nodup, List.nodup_singleton _, ?_⟩
    rintro id hid other hother rfl
    obtain rfl := List.mem_singleton.mp hother
    obtain ⟨⟨id, r⟩, hmem, rfl⟩ := List.mem_map.mp hid
    exact hfresh r ((h.filed id r).mp hmem)
  · exact fun p hp => .inl (h.kept p hp)
  · exact h.rows_nodup
  · intro id record hrecord
    have hassign := get_of_get_evict hrecord
    rw [OrderedDict.get_assign] at hassign
    split at hassign
    · obtain rfl := Option.some.inj hassign
      rfl
    · exact h.info id record hassign
  · rintro id r (hold | ⟨rfl, rfl⟩)
    · refine (h.under_way id r hold).imp_right ?_
      rintro ⟨thread', hcall⟩
      refine ⟨thread', ?_⟩
      have hne : thread' ≠ thread := by
        rintro rfl
        exact Option.some_ne_none _ (hcall.symm.trans hfree)
      rw [Function.update_of_ne hne, hcall]
    · exact .inr ⟨thread, Function.update_self ..⟩

theorem Shelved.beginGet (h : Shelved codec s) {thread : κ} (hfree : s.calls thread = none) :
    Shelved codec (s.beginGet thread resultId) := by
  unfold System.beginGet
  split
  · exact h.note rfl
  · exact h.other fun _ _ hcall => Option.some_ne_none _ (hcall.symm.trans hfree)

theorem Shelved.beginDelete (h : Shelved codec s) {thread : κ} (hfree : s.calls thread = none) :
    Shelved codec (s.beginDelete thread resultId) := by
  have hother : Shelved codec
      { s with calls := Function.update s.calls thread
                 (some (.deleting resultId (s.memory.records.get resultId).isSome)) } :=
    h.other fun _ _ hcall => Option.some_ne_none _ (hcall.symm.trans hfree)
  refine
    { rows := ?_, filed := ?_, filed_nodup := ?_, kept := ?_, rows_nodup := ?_, info := ?_
      under_way := ?_ }
  all_goals simp only [System.beginDelete, System.note, System.enter, Memory.pop, shelf_concat,
    Shelf.step, mem_append_singleton, reduceCtorEq, or_false]
  · exact h.rows
  · exact h.filed
  · exact h.filed_nodup
  · exact h.kept
  · exact h.rows_nodup
  · intro id record hrecord
    rw [OrderedDict.get_erase] at hrecord
    split at hrecord
    · cases hrecord
    · exact h.info id record hrecord
  · exact hother.under_way

/-- The block in which the row is written. -/
theorem Shelved.finishSave (h : Shelved codec s) (hs : Consistent codec s) {thread : κ}
    {result : R} (hcall : s.calls thread = some (.persisting resultId result)) (now : τ)
    (hdumps : (codec.dumps result).isSome) :
    Shelved codec (s.finish codec thread now (.persisting resultId result)) := by
  obtain ⟨json, hjson⟩ := Option.isSome_iff_exists.mp hdumps
  obtain ⟨hsaving, hunsaved⟩ := hs.persisting _ _ _ hcall
  have hnew : resultId ∉ rowIds s.rows := by
    intro hmem
    obtain ⟨row, hrow, rfl⟩ := List.mem_map.mp hmem
    exact hunsaved (hs.rows row hrow).1
  unfold System.finish
  simp only [hjson, saveRow_of_not_mem hnew]
  refine
    { rows := ?_, filed := ?_, filed_nodup := ?_, kept := ?_, rows_nodup := ?_, info := ?_
      under_way := ?_ }
  all_goals simp only [System.leave, shelf_concat, Shelf.step, mem_append_singleton, reduceCtorEq,
    or_false, Event.saved.injEq]
  · rw [List.map_append, List.map_append, h.rows,
      filter_filed h.filed_nodup ((h.filed _ _).mpr hsaving)]
    rfl
  · exact h.filed
  · exact h.filed_nodup
  · intro p hp
    rcases List.mem_append.mp hp with hold | hnew
    · exact h.kept p hold
    · exact (h.filed p.1 p.2).mp (List.mem_of_mem_filter hnew)
  · rw [rowIds, List.map_append, List.nodup_append]
    refine ⟨h.rows_nodup, List.nodup_singleton _, ?_⟩
    rintro id hid other hother rfl
    obtain rfl := List.mem_singleton.mp hother
    exact hnew hid
  · exact h.info
  · intro id r hr
    by_cases hid : id = resultId
    · exact .inl (.inr hid)
    · rcases h.under_way id r hr with hsaved | ⟨thread', hold⟩
      · exact .inl (.inl hsaved)
      · refine .inr ⟨thread', ?_⟩
        have hne : thread' ≠ thread := by
          rintro rfl
          cases hold.symm.trans hcall
          exact hid rfl
        rw [Function.update_of_ne hne, hold]

/-- The block in which the row is deleted. -/
theorem Shelved.finishDelete (h : Shelved codec s) {thread : κ} {existed : Bool}
    (hcall : s.calls thread = some (.deleting resultId existed)) (now : τ) :
    Shelved codec (s.finish codec thread now (.deleting resultId existed)) := by
  have hother : Shelved codec { s with calls := Function.update s.calls thread none } :=
    h.other fun id r hold => by cases hold.symm.trans hcall
  refine
    { rows := ?_, filed := ?_, filed_nodup := ?_, kept := ?_, rows_nodup := ?_, info := h.info
      under_way := ?_ }
  all_goals simp only [System.finish, System.leave, shelf_concat, Shelf.step,
    mem_append_singleton, reduceCtorEq, or_false]
  · have hfilter := congrArg (List.filter fun p => decide (p.1 ≠ resultId)) h.rows
    rw [List.filter_map, List.filter_map] at hfilter
    exact hfilter
  · exact h.filed
  · exact h.filed_nodup
  · exact fun p hp => h.kept p (List.mem_of_mem_filter hp)
  · exact h.rows_nodup.sublist (List.filter_sublist.map Row.resultId)
  · exact hother.under_way

/-- The step lemma, where `json.dumps` does not raise. -/
theorem Shelved.step [LinearOrder τ] (h : Shelved codec s) (hs : Consistent codec s)
    (hdumps : ∀ result, (codec.dumps result).isSome) {action : Action R τ κ}
    (horderly : Orderly s action) : Shelved codec (s.step codec action) := by
  cases action with
  | save thread now resultId result =>
      show Shelved codec (if _ then _ else _)
      split
      · exact h
      · next hfree => exact h.beginSave now result (Option.not_isSome_iff_eq_none.mp hfree) horderly
  | get thread resultId =>
      show Shelved codec (if _ then _ else _)
      split
      · exact h
      · next hfree => exact h.beginGet (Option.not_isSome_iff_eq_none.mp hfree)
  | delete thread resultId =>
      show Shelved codec (if _ then _ else _)
      split
      · exact h
      · next hfree => exact h.beginDelete (Option.not_isSome_iff_eq_none.mp hfree)
  | resume thread now =>
      cases hcall : s.calls thread with
      | none => simpa only [System.step, hcall] using h
      | some pending =>
          simp only [System.step, hcall]
          cases pending with
          | persisting resultId result => exact h.finishSave hs hcall now (hdumps result)
          | querying resultId =>
              exact (h.other fun _ _ hold => by cases hold.symm.trans hcall).note rfl
          | deleting resultId existed => exact h.finishDelete hcall now

/-! ## §5 The newest results -/

theorem maxResults_step [LinearOrder τ] (s : System R J τ κ) (action : Action R τ κ) :
    (s.step codec action).memory.maxResults = s.memory.maxResults := by
  cases action with
  | save thread now resultId result =>
      show (if _ then _ else _ : System R J τ κ).memory.maxResults = _
      split <;> rfl
  | get thread resultId =>
      show (if _ then _ else _ : System R J τ κ).memory.maxResults = _
      split
      · rfl
      · unfold System.beginGet
        split <;> rfl
  | delete thread resultId =>
      show (if _ then _ else _ : System R J τ κ).memory.maxResults = _
      split <;> rfl
  | resume thread now =>
      cases hcall : s.calls thread with
      | none => simp only [System.step, hcall]
      | some pending =>
          simp only [System.step, hcall]
          cases pending with
          | persisting resultId result =>
              unfold System.finish
              simp only
              split <;> rfl
          | querying resultId => rfl
          | deleting resultId existed => rfl

/-- **The listing.** After an orderly run of any number of threads in which no save is under
way, the listing is the newest matching results of those saved and not deleted, as many as
the limit allows, whichever of them the memory still holds. -/
theorem listResults_newest [LinearOrder τ] (codec : Codec R J) (summary : R → S)
    (upper : String → String) (symbol strategyName : Option String) (limit maxResults : ℤ)
    (actions : List (Action R τ κ)) {s : System R J τ κ}
    (hrun : run (System.step codec) (System.init maxResults) actions = s)
    (hdumps : ∀ result, (codec.dumps result).isSome)
    (horderly : Along (System.step codec) Orderly (System.init maxResults : System R J τ κ)
      actions)
    (hdone : ∀ thread resultId result, s.calls thread ≠ some (.persisting resultId result))
    (hupper : ∀ p ∈ (shelf s.history).kept,
      upper (codec.info p.2).symbol = (codec.info p.2).symbol) :
    (listResults summary upper symbol strategyName limit s).map Listed.resultId =
      (((shelf s.history).kept.reverse.filter fun p =>
        infoMatches upper symbol strategyName (codec.info p.2)).map Prod.fst).take
          (max 1 (min limit (max 1 maxResults))).toNat := by
  obtain ⟨hs, h, hmax⟩ : Consistent codec s ∧ Shelved codec s ∧
      s.memory.maxResults = (max 1 maxResults).toNat := by
    rw [← hrun]
    refine Along.invariant (I := fun s => Consistent codec s ∧ Shelved codec s ∧
      s.memory.maxResults = (max 1 maxResults).toNat) ?_ horderly
      ⟨consistent_init codec maxResults, shelved_init codec maxResults, rfl⟩
    rintro s action ⟨hs, h, hmax⟩ ho
    exact ⟨hs.step ho, h.step hs hdumps ho, (maxResults_step s action).trans hmax⟩
  have hlimit : ((s.memory.maxResults : ℕ) : ℤ) = max 1 maxResults := by
    rw [hmax]
    omega
  have hkept : ∀ p ∈ (shelf s.history).kept.reverse,
      infoMatches upper symbol strategyName (codec.info p.2) =
        rowSelected upper symbol strategyName (codec.info p.2) :=
    fun p hp => infoMatches_eq_rowSelected (hupper p (List.mem_reverse.mp hp))
  rw [listResults_ids limit h.rows_nodup fun listed hlisted =>
      mem_selectedRows h hs hdone hupper hlisted,
    map_selectedRows h, hlimit, List.filter_congr hkept]

/-- Results that say whether they are of the one symbol. -/
def flagCodec : Codec Bool Bool where
  dumps := some
  loads := id
  info es := ⟨"EMA", if es then "ES" else "NQ", "1h", "", ""⟩

/-- Three saves, one after the other. -/
def threeSaves : List (Action Bool ℕ Unit) :=
  [.save () 0 "bt_1" true, .resume () 1, .save () 2 "bt_2" false, .resume () 3,
    .save () 4 "bt_3" true, .resume () 5]

/-- The store holds two of the three: the first is listed from the table. -/
theorem listResults_newest_three :
    (listResults id id (some "ES") none 5
      (run (System.step flagCodec) (System.init 2) threeSaves)).map Listed.resultId =
        ["bt_3", "bt_1"] := by
  rw [listResults_newest flagCodec id id (some "ES") none 5 2 threeSaves rfl (fun _ => rfl) ?_ ?_
    (fun _ _ => rfl)]
  · decide
  · refine ⟨?_, trivial, ?_, trivial, ?_, trivial, trivial⟩
    · show ∀ result, _ ∉ _
      decide
    · show ∀ result, _ ∉ _
      decide
    · show ∀ result, _ ∉ _
      decide
  · intro thread resultId result h
    have hnone : (run (System.step flagCodec) (System.init 2) threeSaves).calls thread = none := rfl
    exact Option.some_ne_none _ (h.symm.trans hnone)

end Finbar.Results
