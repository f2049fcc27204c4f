/-
Finbar.Results.HistoryTheorems — what the callers of the result store see, whatever the
threads do.

A run is orderly if no id is drawn twice and a result is deleted only once its save
has returned (`Orderly`). Then every event obeys `law` (`history_lawful`): what is got
for an id is what was saved under it, or what its JSON text reads back as; once a
save has returned, the result is found until a delete begins; once a delete has
returned, it is never found again; and the first delete to return says that the
result was there.

Without the order the last two fail: a delete that comes between the two blocks of a
save leaves the row that the save writes afterwards.

No `sorry`, no `axiom`.
-/
import Finbar.Lib.Journal
import Finbar.Lib.Steps
import Finbar.Results.Store

namespace Finbar.Results

open Lib Lib.Eviction Lib.History Lib.Steps

variable {R J τ κ : Type}

/-! ## §1 The law -/

section Law

variable (codec : Codec R J)

/-- What reads back as a saved result: the result, or its JSON text. -/
def ReadsBack (result found : R) : Prop :=
  found = result ∨ ∃ json, codec.dumps result = some json ∧ found = codec.loads json

/-- What an event may be, after others. -/
def law (before : List (Event R)) : Event R → Prop
  | .got resultId found =>
      (∀ value, found = some value →
        ∃ result, Event.saving resultId result ∈ before ∧ ReadsBack codec result value) ∧
      (Event.saved resultId ∈ before → Event.deleting resultId ∉ before → found.isSome) ∧
      ((∃ existed, Event.deleted resultId existed ∈ before) → found = none)
  | .deleted resultId existed =>
      (∀ existed', Event.deleted resultId existed' ∉ before) → existed = true
  | _ => True

end Law

/-- No id is drawn twice, and a result is deleted only once its save has returned. -/
def Orderly (s : System R J τ κ) : Action R τ κ → Prop
  | .save _ _ resultId _ => ∀ result, Event.saving resultId result ∉ s.history
  | .delete _ resultId => Event.saved resultId ∈ s.history
  | _ => True

/-! ## §2 The invariant -/

/-- The ids of the rows. -/
def rowIds (rows : List (Row J τ)) : List String := rows.map Row.resultId

/-- What the store holds, given what happened. -/
structure Consistent (codec : Codec R J) (s : System R J τ κ) : Prop where
  lawful : Lawful (law codec) s.history
  saving_unique : ∀ resultId result result', Event.saving resultId result ∈ s.history →
    Event.saving resultId result' ∈ s.history → result = result'
  saved : ∀ resultId, Event.saved resultId ∈ s.history →
    ∃ result, Event.saving resultId result ∈ s.history
  memory : ∀ resultId record, s.memory.records.get resultId = some record →
    Event.saving resultId record.result ∈ s.history
  rows : ∀ row ∈ s.rows, Event.saved row.resultId ∈ s.history ∧
    ∃ result, Event.saving row.resultId result ∈ s.history ∧ codec.dumps result = some row.json
  /-- A row is there from the return of the save to the return of a delete. -/
  present : ∀ resultId, Event.saved resultId ∈ s.history →
    (∀ existed, Event.deleted resultId existed ∉ s.history) → resultId ∈ rowIds s.rows
  gone : ∀ resultId existed, Event.deleted resultId existed ∈ s.history →
    resultId ∉ rowIds s.rows ∧ Event.deleting resultId ∈ s.history
  popped : ∀ resultId, Event.deleting resultId ∈ s.history →
    s.memory.records.get resultId = none ∧ Event.saved resultId ∈ s.history
  persisting : ∀ thread resultId result, s.calls thread = some (.persisting resultId result) →
    Event.saving resultId result ∈ s.history ∧ Event.saved resultId ∉ s.history
  persists_once : ∀ thread thread' resultId result result',
    s.calls thread = some (.persisting resultId result) →
    s.calls thread' = some (.persisting resultId result') → thread = thread'
  deleting : ∀ thread resultId existed, s.calls thread = some (.deleting resultId existed) →
    Event.deleting resultId ∈ s.history

variable {codec : Codec R J} {s : System R J τ κ} {resultId : String}

theorem loadRow_eq_some {rows : List (Row J τ)} {found : R}
    (h : loadRow codec resultId rows = some found) :
    ∃ row ∈ rows, row.resultId = resultId ∧ found = codec.loads row.json := by
  obtain ⟨row, hrow, rfl⟩ := Option.map_eq_some_iff.mp h
  exact ⟨row, List.mem_of_find?_eq_some hrow, by simpa using List.find?_some hrow, rfl⟩

theorem loadRow_isSome_iff {rows : List (Row J τ)} :
    (loadRow codec resultId rows).isSome ↔ resultId ∈ rowIds rows := by
  unfold loadRow rowIds
  rw [Option.isSome_map, List.find?_isSome, List.mem_map]
  simp only [decide_eq_true_eq]

theorem any_rowId_iff {rows : List (Row J τ)} :
    (rows.any fun row => decide (row.resultId = resultId)) = true ↔ resultId ∈ rowIds rows := by
  unfold rowIds
  rw [List.any_eq_true, List.mem_map]
  simp only [decide_eq_true_eq]

theorem mem_rowIds_deleteRow {rows : List (Row J τ)} {other : String} :
    other ∈ rowIds (deleteRow resultId rows) ↔ other ≠ resultId ∧ other ∈ rowIds rows := by
  unfold rowIds deleteRow
  simp only [List.mem_map, List.mem_filter, decide_eq_true_eq]
  constructor
  · rintro ⟨row, ⟨hrow, hne⟩, rfl⟩
    exact ⟨hne, row, hrow, rfl⟩
  · rintro ⟨hne, row, hrow, rfl⟩
    exact ⟨row, ⟨hrow, hne⟩, rfl⟩

/-- A new row goes to the end of the table. -/
theorem saveRow_of_not_mem {rows : List (Row J τ)} (h : resultId ∉ rowIds rows) (now : τ)
    (result : R) (json : J) :
    saveRow codec now resultId result json rows =
      rows ++ [⟨resultId, codec.info result, json, now⟩] :=
  if_neg fun hany => h (any_rowId_iff.mp hany)

theorem mem_append_singleton {event other : Event R} {history : List (Event R)} :
    other ∈ history ++ [event] ↔ other ∈ history ∨ other = event := by
  rw [List.mem_append, List.mem_singleton]

/-- An event that is about no save and no delete. -/
def Event.quiet : Event R → Bool
  | .got _ _ => true
  | .saveRaised _ => true
  | _ => false

/-- A quiet event that obeys the law. -/
theorem Consistent.note (h : Consistent codec s) {event : Event R} (hquiet : event.quiet = true)
    (hlaw : law codec s.history event) : Consistent codec (s.note event) := by
  have hmem : ∀ {other : Event R}, other.quiet = false →
      (other ∈ s.history ++ [event] ↔ other ∈ s.history) := by
    intro other hother
    rw [mem_append_singleton, or_iff_left]
    rintro rfl
    exact Bool.false_ne_true (hother.symm.trans hquiet)
  refine { h with
    lawful := h.lawful.concat hlaw
    saving_unique := ?_, saved := ?_, memory := ?_, rows := ?_, present := ?_, gone := ?_
    popped := ?_, persisting := ?_, deleting := ?_ }
  all_goals simp only [System.note, hmem (show (Event.saving _ _).quiet = false from rfl),
    hmem (show (Event.saved _ : Event R).quiet = false from rfl),
    hmem (show (Event.deleting _ : Event R).quiet = false from rfl),
    hmem (show (Event.deleted _ _ : Event R).quiet = false from rfl)]
  · exact h.saving_unique
  · exact h.saved
  · exact h.memory
  · exact h.rows
  · exact h.present
  · exact h.gone
  · exact h.popped
  · exact h.persisting
  · exact h.deleting

theorem consistent_init (codec : Codec R J) (maxResults : ℤ) :
    Consistent codec (System.init maxResults : System R J τ κ) where
  lawful := lawful_nil _
  saving_unique _ _ _ h := nomatch h
  saved _ h := nomatch h
  memory _ _ h := nomatch h
  rows _ h := nomatch h
  present _ h := nomatch h
  gone _ _ h := nomatch h
  popped _ h := nomatch h
  persisting _ _ _ h := nomatch h
  persists_once _ _ _ _ _ h := nomatch h
  deleting _ _ _ h := nomatch h

/-! ## §3 First blocks -/

/-- Filing a result adds its record at most. -/
theorem get_file [LinearOrder τ] {m : Memory R τ} {now : τ} {result : R} {other : String} {record : Record R τ}
    (h : (m.file codec now resultId result).records.get other = some record) :
    (other = resultId ∧ record.result = result) ∨ m.records.get other = some record := by
  have hassign := get_of_get_evict h
  rw [OrderedDict.get_assign] at hassign
  split at hassign
  · next heq =>
      obtain rfl := Option.some.inj hassign
      exact .inl ⟨heq.symm, rfl⟩
  · exact .inr hassign

variable [DecidableEq κ]

/-- The calls of a thread that enters one. -/
theorem calls_enter {thread thread' : κ} {pending pending' : Pending R}
    {calls : κ → Option (Pending R)}
    (h : Function.update calls thread (some pending) thread' = some pending') :
    thread' = thread ∧ pending' = pending ∨ calls thread' = some pending' := by
  by_cases hthread : thread' = thread
  · subst hthread
    rw [Function.update_self] at h
    exact .inl ⟨rfl, (Option.some.inj h).symm⟩
  · rw [Function.update_of_ne hthread] at h
    exact .inr h

/-- The calls of a thread that leaves its own. -/
theorem calls_leave {thread thread' : κ} {pending : Pending R} {calls : κ → Option (Pending R)}
    (h : Function.update calls thread none thread' = some pending) :
    thread' ≠ thread ∧ calls thread' = some pending := by
  by_cases hthread : thread' = thread
  · subst hthread
    rw [Function.update_self] at h
    cases h
  · rw [Function.update_of_ne hthread] at h
    exact ⟨hthread, h⟩

theorem Consistent.beginSave [LinearOrder τ] (h : Consistent codec s) (thread : κ) (now : τ) (result : R)
    (hfresh : ∀ result, Event.saving resultId result ∉ s.history) :
    Consistent codec (s.beginSave codec thread now resultId result) := by
  have hunsaved : Event.saved resultId ∉ s.history := fun hsaved => by
    obtain ⟨result, hsaving⟩ := h.saved resultId hsaved
    exact hfresh result hsaving
  refine
    { lawful := h.lawful.concat trivial
      saving_unique := ?_, saved := ?_, memory := ?_, rows := ?_, present := ?_, gone := ?_
      popped := ?_, persisting := ?_, persists_once := ?_, deleting := ?_ }
  all_goals simp only [System.beginSave, System.note, System.enter, mem_append_singleton,
    reduceCtorEq, or_false, Event.saving.injEq]
  · rintro id r r' (hr | ⟨rfl, rfl⟩) (hr' | ⟨heq, rfl⟩)
    · exact h.saving_unique id r r' hr hr'
    · exact absurd (heq ▸ hr) (hfresh r)
    · exact absurd hr' (hfresh r')
    · rfl
  · intro id hid
    obtain ⟨r, hr⟩ := h.saved id hid
    exact ⟨r, .inl hr⟩
  · intro id record hrecord
    rcases get_file hrecord with hnew | hold
    · exact .inr hnew
    · exact .inl (h.memory id record hold)
  · intro row hrow
    obtain ⟨hsaved, r, hr, hdumps⟩ := h.rows row hrow
    exact ⟨hsaved, r, .inl hr, hdumps⟩
  · exact h.present
  · exact h.gone
  · intro id hid
    obtain ⟨hnone, hsaved⟩ := h.popped id hid
    refine ⟨Option.eq_none_iff_forall_ne_some.mpr fun record hrecord => ?_, hsaved⟩
    rcases get_file hrecord with ⟨rfl, -⟩ | hold
    · exact hunsaved hsaved
    · exact Option.some_ne_none record (hold.symm.trans hnone)
  · intro thread' id r hcall
    rcases calls_enter hcall with ⟨-, heq⟩ | hcall
    · cases heq
      exact ⟨.inr ⟨rfl, rfl⟩, hunsaved⟩
    · obtain ⟨hsaving, hnot⟩ := h.persisting thread' id r hcall
      exact ⟨.inl hsaving, hnot⟩
  · intro thread₁ thread₂ id r r' hcall hcall'
    rcases calls_enter hcall with ⟨heq₁, hnew⟩ | hold
    · cases hnew
      rcases calls_enter hcall' with ⟨heq₂, -⟩ | hold'
      · exact heq₁.trans heq₂.symm
      · exact absurd (h.persisting _ _ _ hold').1 (hfresh r')
    · rcases calls_enter hcall' with ⟨-, hnew⟩ | hold'
      · cases hnew
        exact absurd (h.persisting _ _ _ hold).1 (hfresh r)
      · exact h.persists_once _ _ id r r' hold hold'
  · intro thread' id existed hcall
    rcases calls_enter hcall with ⟨-, heq⟩ | hcall
    · cases heq
    · exact h.deleting thread' id existed hcall

/-- A thread whose call is over. -/
theorem Consistent.clear (h : Consistent codec s) (thread : κ) :
    Consistent codec { s with calls := Function.update s.calls thread none } :=
  { h with
    persisting := fun thread' id r hcall => h.persisting thread' id r (calls_leave hcall).2
    persists_once := fun thread₁ thread₂ id r r' hcall hcall' =>
      h.persists_once thread₁ thread₂ id r r' (calls_leave hcall).2 (calls_leave hcall').2
    deleting := fun thread' id existed hcall => h.deleting thread' id existed (calls_leave hcall).2 }

theorem Consistent.beginGet (h : Consistent codec s) (thread : κ) :
    Consistent codec (s.beginGet thread resultId) := by
  unfold System.beginGet
  split
  · next record hrecord =>
      refine h.note rfl ⟨fun value hvalue => ⟨record.result, h.memory _ _ hrecord, ?_⟩,
        fun _ _ => rfl, ?_⟩
      · exact .inl (Option.some.inj hvalue).symm
      · rintro ⟨existed, hdeleted⟩
        have hnone := (h.popped _ (h.gone _ _ hdeleted).2).1
        exact absurd (hrecord.symm.trans hnone) (Option.some_ne_none record)
  · refine { h with persisting := ?_, persists_once := ?_, deleting := ?_ }
    · intro thread' id r hcall
      rcases calls_enter hcall with ⟨-, heq⟩ | hold
      · cases heq
      · exact h.persisting thread' id r hold
    · intro thread₁ thread₂ id r r' hcall hcall'
      rcases calls_enter hcall with ⟨-, heq⟩ | hold
      · cases heq
      · rcases calls_enter hcall' with ⟨-, heq⟩ | hold'
        · cases heq
        · exact h.persists_once thread₁ thread₂ id r r' hold hold'
    · intro thread' id existed hcall
      rcases calls_enter hcall with ⟨-, heq⟩ | hold
      · cases heq
      · exact h.deleting thread' id existed hold

theorem Consistent.beginDelete (h : Consistent codec s) (thread : κ)
    (hsaved : Event.saved resultId ∈ s.history) :
    Consistent codec (s.beginDelete thread resultId) := by
  refine
    { lawful := h.lawful.concat trivial
      saving_unique := ?_, saved := ?_, memory := ?_, rows := ?_, present := ?_, gone := ?_
      popped := ?_, persisting := ?_, persists_once := ?_, deleting := ?_ }
  all_goals simp only [System.beginDelete, System.note, System.enter, Memory.pop,
    mem_append_singleton, reduceCtorEq, or_false, Event.deleting.injEq]
  · exact h.saving_unique
  · exact h.saved
  · intro id record hrecord
    rw [OrderedDict.get_erase] at hrecord
    split at hrecord
    · cases hrecord
    · exact h.memory id record hrecord
  · exact h.rows
  · exact h.present
  · intro id existed hid
    obtain ⟨hrow, hdeleting⟩ := h.gone id existed hid
    exact ⟨hrow, .inl hdeleting⟩
  · rintro id (hid | rfl)
    · obtain ⟨hnone, hsaved'⟩ := h.popped id hid
      refine ⟨?_, hsaved'⟩
      rw [OrderedDict.get_erase, hnone, ite_self]
    · exact ⟨by rw [OrderedDict.get_erase, if_pos rfl], hsaved⟩
  · intro thread' id r hcall
    rcases calls_enter hcall with ⟨-, heq⟩ | hold
    · cases heq
    · exact h.persisting thread' id r hold
  · intro thread₁ thread₂ id r r' hcall hcall'
    rcases calls_enter hcall with ⟨-, heq⟩ | hold
    · cases heq
    · rcases calls_enter hcall' with ⟨-, heq⟩ | hold'
      · cases heq
      · exact h.persists_once thread₁ thread₂ id r r' hold hold'
  · intro thread' id existed hcall
    rcases calls_enter hcall with ⟨-, heq⟩ | hold
    · cases heq
      exact .inr rfl
    · exact .inl (h.deleting thread' id existed hold)

/-! ## §4 Second blocks -/

theorem Consistent.finishSave (h : Consistent codec s) {thread : κ} {result : R}
    (hcall : s.calls thread = some (.persisting resultId result)) (now : τ) :
    Consistent codec (s.finish codec thread now (.persisting resultId result)) := by
  obtain ⟨hsaving, hunsaved⟩ := h.persisting _ _ _ hcall
  unfold System.finish
  simp only
  split
  · exact (h.clear thread).note rfl trivial
  · next json hjson =>
      have hnew : resultId ∉ rowIds s.rows := by
        intro hmem
        obtain ⟨row, hrow, rfl⟩ := List.mem_map.mp hmem
        exact hunsaved (h.rows row hrow).1
      have hids : ∀ id, id ∈ rowIds (s.rows ++ [⟨resultId, codec.info result, json, now⟩]) ↔
          id ∈ rowIds s.rows ∨ id = resultId := by
        intro id
        rw [rowIds, List.map_append, List.mem_append, List.map_singleton, List.mem_singleton]
        rfl
      rw [saveRow_of_not_mem hnew]
      refine
        { lawful := h.lawful.concat trivial
          saving_unique := ?_, saved := ?_, memory := ?_, rows := ?_, present := ?_, gone := ?_
          popped := ?_, persisting := ?_, persists_once := ?_, deleting := ?_ }
      all_goals simp only [System.leave, mem_append_singleton, reduceCtorEq, or_false,
        Event.saved.injEq, hids]
      · exact h.saving_unique
      · rintro id (hid | rfl)
        · exact h.saved id hid
        · exact ⟨result, hsaving⟩
      · exact h.memory
      · intro row hrow
        rcases List.mem_append.mp hrow with hold | hlast
        · obtain ⟨hsaved, hrest⟩ := h.rows row hold
          exact ⟨.inl hsaved, hrest⟩
        · obtain rfl := List.mem_singleton.mp hlast
          exact ⟨.inr rfl, result, hsaving, hjson⟩
      · rintro id (hid | rfl) hkept
        · exact .inl (h.present id hid hkept)
        · exact .inr rfl
      · intro id existed hid
        obtain ⟨hrow, hdeleting⟩ := h.gone id existed hid
        refine ⟨not_or.mpr ⟨hrow, ?_⟩, hdeleting⟩
        rintro rfl
        exact hunsaved (h.popped _ hdeleting).2
      · intro id hid
        obtain ⟨hnone, hsaved⟩ := h.popped id hid
        exact ⟨hnone, .inl hsaved⟩
      · intro thread' id r hother
        obtain ⟨hthread, hold⟩ := calls_leave hother
        obtain ⟨hsaving', hunsaved'⟩ := h.persisting thread' id r hold
        refine ⟨hsaving', not_or.mpr ⟨hunsaved', ?_⟩⟩
        rintro rfl
        exact hthread (h.persists_once _ _ _ _ _ hold hcall)
      · intro thread₁ thread₂ id r r' hcall₁ hcall₂
        exact h.persists_once thread₁ thread₂ id r r' (calls_leave hcall₁).2 (calls_leave hcall₂).2
      · intro thread' id existed hother
        exact h.deleting thread' id existed (calls_leave hother).2

theorem Consistent.finishGet (h : Consistent codec s) (thread : κ) (now : τ) :
    Consistent codec (s.finish codec thread now (.querying resultId)) := by
  refine (h.clear thread).note rfl ⟨fun value hvalue => ?_, fun hsaved hkept => ?_, ?_⟩
  · obtain ⟨row, hrow, rfl, rfl⟩ := loadRow_eq_some hvalue
    obtain ⟨-, result, hsaving, hdumps⟩ := h.rows row hrow
    exact ⟨result, hsaving, .inr ⟨row.json, hdumps, rfl⟩⟩
  · exact loadRow_isSome_iff.mpr (h.present resultId hsaved
      fun existed hdeleted => hkept (h.gone _ _ hdeleted).2)
  · rintro ⟨existed, hdeleted⟩
    exact Option.not_isSome_iff_eq_none.mp fun hrow =>
      (h.gone _ _ hdeleted).1 (loadRow_isSome_iff.mp hrow)

theorem Consistent.finishDelete (h : Consistent codec s) {thread : κ} {existed : Bool}
    (hcall : s.calls thread = some (.deleting resultId existed)) (now : τ) :
    Consistent codec (s.finish codec thread now (.deleting resultId existed)) := by
  have hdeleting := h.deleting _ _ _ hcall
  have hsaved := (h.popped _ hdeleting).2
  refine
    { lawful := h.lawful.concat fun hfirst => ?_
      saving_unique := ?_, saved := ?_, memory := ?_, rows := ?_, present := ?_, gone := ?_
      popped := ?_, persisting := ?_, persists_once := ?_, deleting := ?_ }
  · rw [Bool.or_eq_true, any_rowId_iff]
    exact .inl (h.present resultId hsaved hfirst)
  all_goals simp only [System.finish, System.leave, mem_append_singleton, reduceCtorEq, or_false,
    Event.deleted.injEq, mem_rowIds_deleteRow]
  · exact h.saving_unique
  · exact h.saved
  · exact h.memory
  · intro row hrow
    exact h.rows row (List.mem_of_mem_filter hrow)
  · intro id hid hkept
    have hne : id ≠ resultId := fun heq => hkept _ (.inr ⟨heq, rfl⟩)
    exact ⟨hne, h.present id hid fun existed' hdeleted => hkept existed' (.inl hdeleted)⟩
  · rintro id existed' (hid | ⟨rfl, -⟩)
    · obtain ⟨hrow, hdeleting'⟩ := h.gone id existed' hid
      exact ⟨fun hmem => hrow hmem.2, hdeleting'⟩
    · exact ⟨fun hmem => hmem.1 rfl, hdeleting⟩
  · exact h.popped
  · intro thread' id r hother
    exact h.persisting thread' id r (calls_leave hother).2
  · intro thread₁ thread₂ id r r' hcall₁ hcall₂
    exact h.persists_once thread₁ thread₂ id r r' (calls_leave hcall₁).2 (calls_leave hcall₂).2
  · intro thread' id existed' hother
    exact h.deleting thread' id existed' (calls_leave hother).2

/-! ## §5 Runs -/

variable [LinearOrder τ]

/-- The step lemma. -/
theorem Consistent.step (h : Consistent codec s) {action : Action R τ κ}
    (horderly : Orderly s action) : Consistent codec (s.step codec action) := by
  cases action with
  | save thread now resultId result =>
      show Consistent codec (if _ then _ else _)
      split
      · exact h
      · exact h.beginSave thread now result horderly
  | get thread resultId =>
      show Consistent codec (if _ then _ else _)
      split
      · exact h
      · exact h.beginGet thread
  | delete thread resultId =>
      show Consistent codec (if _ then _ else _)
      split
      · exact h
      · exact h.beginDelete thread horderly
  | resume thread now =>
      cases hcall : s.calls thread with
      | none => simpa only [System.step, hcall] using h
      | some pending =>
          simp only [System.step, hcall]
          cases pending with
          | persisting resultId result => exact h.finishSave hcall now
          | querying resultId => exact h.finishGet thread now
          | deleting resultId existed => exact h.finishDelete hcall now

/-- **What the callers see.** For every orderly run of any number of threads, whatever the
order of their blocks and however small the memory, every event obeys the law. -/
theorem history_lawful (codec : Codec R J) (maxResults : ℤ) (actions : List (Action R τ κ))
    (horderly : Along (System.step codec) Orderly (System.init maxResults : System R J τ κ)
      actions) :
    Lawful (law codec) (run (System.step codec) (System.init maxResults) actions).history :=
  (Along.invariant (fun _ _ hs ho => Consistent.step hs ho) horderly
    (consistent_init codec maxResults)).lawful

/-- A store of one result: the second save leaves the first in the table only, where it is
found, until its row is deleted. -/
theorem history_lawful_two :
    Lawful (law ⟨some, id, fun _ => ⟨"EMA", "ES", "1h", "", ""⟩⟩)
      (run (System.step ⟨some, id, fun _ => ⟨"EMA", "ES", "1h", "", ""⟩⟩)
        (System.init 1 : System Bool Bool ℕ Bool)
        [.save false 0 "bt_1" true, .resume false 1, .save true 1 "bt_2" false,
          .get false "bt_1", .resume true 2, .resume false 2, .delete true "bt_1",
          .resume true 3, .get false "bt_1", .resume false 4]).history :=
  history_lawful _ 1 _ (by
    refine ⟨?_, trivial, ?_, trivial, trivial, trivial, ?_, trivial, trivial, trivial, trivial⟩
    · show ∀ result, _ ∉ _
      decide
    · show ∀ result, _ ∉ _
      decide
    · show _ ∈ _
      decide)

/-- A delete between the two blocks of a save: the result is found once it is deleted. -/
example :
    (run (System.step ⟨some, id, fun _ => ⟨"EMA", "ES", "1h", "", ""⟩⟩)
        (System.init 1 : System Bool Bool ℕ Bool)
        [.save false 0 "bt_1" true, .delete true "bt_1", .resume true 1, .resume false 1,
          .get true "bt_1", .resume true 2]).history =
      [.saving "bt_1" true, .deleting "bt_1", .deleted "bt_1" true, .saved "bt_1",
        .got "bt_1" (some true)] := by
  decide

end Finbar.Results
