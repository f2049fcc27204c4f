/-
Finbar.Results.Store — the store of backtest results: `InMemoryBacktestResultStore` over
`SqlBacktestResultRepository`, and the threads that call it.

A result is kept in memory under a lock, where the oldest results make room for new
ones, and in a table. Every block under the lock is one step, and so is every
transaction: `save` files the result and then persists it, `get` asks the table for
what is not in memory, and `delete` pops the result and then deletes its row. The
history records what was called and what was returned.

Results are values of any type; `Codec` is `json.dumps` and `json.loads` on them and
what is read off them.

No `sorry`, no `axiom`.
-/
import Finbar.Lib.Eviction
import Mathlib.Logic.Function.Basic

namespace Finbar.Results

open Lib Lib.Eviction

variable {R J τ κ : Type}

/-! ## §1 Results -/

/-- What is filed beside a result: `str(result.get(field, ""))`. -/
structure ResultInfo where
  strategyName : String
  symbol : String
  interval : String
  startDate : String
  endDate : String
  deriving DecidableEq, Repr

/-- How results are written and read. -/
structure Codec (R J : Type) where
  /-- `json.dumps`; `none` if it raises. -/
  dumps : R → Option J
  /-- `json.loads`. -/
  loads : J → R
  info : R → ResultInfo

/-- A record in memory (`_record_from_result`); the id is its key. -/
structure Record (R τ : Type) where
  createdAt : τ
  info : ResultInfo
  result : R

/-- A row of `backtest_results`, in the order of its `id` column. -/
structure Row (J τ : Type) where
  resultId : String
  info : ResultInfo
  json : J
  createdAt : τ

/-! ## §2 The table -/

/-- `SqlBacktestResultRepository.save`: insert or replace. -/
def saveRow (codec : Codec R J) (now : τ) (resultId : String) (result : R) (json : J)
    (rows : List (Row J τ)) : List (Row J τ) :=
  if rows.any fun row => decide (row.resultId = resultId) then
    rows.map fun row =>
      if row.resultId = resultId then { row with json := json, info := codec.info result } else row
  else rows ++ [⟨resultId, codec.info result, json, now⟩]

/-- `SqlBacktestResultRepository.get`. -/
def loadRow (codec : Codec R J) (resultId : String) (rows : List (Row J τ)) : Option R :=
  (rows.find? fun row => decide (row.resultId = resultId)).map fun row => codec.loads row.json

/-- `SqlBacktestResultRepository.delete`: the rows that stay. -/
def deleteRow (resultId : String) (rows : List (Row J τ)) : List (Row J τ) :=
  rows.filter fun row => decide (row.resultId ≠ resultId)

/-! ## §3 The memory -/

/-- `_records`, with `_max_results`. -/
structure Memory (R τ : Type) where
  maxResults : ℕ
  records : OrderedDict String (Record R τ) := {}

variable [LinearOrder τ]

/-- The first block of `save`: file the record, then `_enforce_max_results_locked`. -/
def Memory.file (codec : Codec R J) (m : Memory R τ) (now : τ) (resultId : String) (result : R) :
    Memory R τ :=
  { m with
    records := evict m.maxResults (fun _ => true) (fun entry => entry.2.createdAt)
      (m.records.assign resultId ⟨now, codec.info result, result⟩) }

/-- The first block of `delete`. -/
def Memory.pop (m : Memory R τ) (resultId : String) : Memory R τ :=
  { m with records := m.records.erase resultId }

/-! ## §4 The threads -/

/-- What a call has still to do once it has left the lock. -/
inductive Pending (R : Type) where
  | persisting (resultId : String) (result : R)
  | querying (resultId : String)
  | deleting (resultId : String) (existed : Bool)

/-- What happened. -/
inductive Event (R : Type) where
  /-- A save has filed its result. -/
  | saving (resultId : String) (result : R)
  | saved (resultId : String)
  | saveRaised (resultId : String)
  | got (resultId : String) (result : Option R)
  /-- A delete has begun. -/
  | deleting (resultId : String)
  | deleted (resultId : String) (existed : Bool)
  deriving DecidableEq

/-- The store, and the threads that are in a call. -/
structure System (R J τ κ : Type) where
  memory : Memory R τ
  rows : List (Row J τ) := []
  calls : κ → Option (Pending R) := fun _ => none
  history : List (Event R) := []

/-- What a thread does next. `resume` is the second block of its call. -/
inductive Action (R τ κ : Type) where
  | save (thread : κ) (now : τ) (resultId : String) (result : R)
  | get (thread : κ) (resultId : String)
  | delete (thread : κ) (resultId : String)
  | resume (thread : κ) (now : τ)

namespace System

variable [DecidableEq κ] (codec : Codec R J) (s : System R J τ κ)

/-- An event. -/
def note (event : Event R) : System R J τ κ :=
  { s with history := s.history ++ [event] }

/-- The thread is in a call. -/
def enter (thread : κ) (pending : Pending R) : System R J τ κ :=
  { s with calls := Function.update s.calls thread (some pending) }

/-- The thread's call returns. -/
def leave (thread : κ) (event : Event R) : System R J τ κ :=
  { s with calls := Function.update s.calls thread none, history := s.history ++ [event] }

/-- The second block of a call. -/
def finish (thread : κ) (now : τ) : Pending R → System R J τ κ
  | .persisting resultId result =>
      match codec.dumps result with
      | none => s.leave thread (.saveRaised resultId)
      | some json =>
          { s with rows := saveRow codec now resultId result json s.rows }.leave thread
            (.saved resultId)
  | .querying resultId => s.leave thread (.got resultId (loadRow codec resultId s.rows))
  | .deleting resultId existed =>
      let found := s.rows.any fun row => decide (row.resultId = resultId)
      { s with rows := deleteRow resultId s.rows }.leave thread (.deleted resultId (found || existed))

/-- The first block of `save`. -/
def beginSave (thread : κ) (now : τ) (resultId : String) (result : R) : System R J τ κ :=
  ({ s with memory := s.memory.file codec now resultId result }.note
    (.saving resultId result)).enter thread (.persisting resultId result)

/-- The first block of `get`: a result in memory is returned at once. -/
def beginGet (thread : κ) (resultId : String) : System R J τ κ :=
  match s.memory.records.get resultId with
  | some record => s.note (.got resultId (some record.result))
  | none => s.enter thread (.querying resultId)

/-- The first block of `delete`. -/
def beginDelete (thread : κ) (resultId : String) : System R J τ κ :=
  let existed := (s.memory.records.get resultId).isSome
  ({ s with memory := s.memory.pop resultId }.note (.deleting resultId)).enter thread
    (.deleting resultId existed)

/-- One step of a store with a session factory. A thread that is in a call starts no other. -/
def step : Action R τ κ → System R J τ κ
  | .save thread now resultId result =>
      if (s.calls thread).isSome then s else s.beginSave codec thread now resultId result
  | .get thread resultId => if (s.calls thread).isSome then s else s.beginGet thread resultId
  | .delete thread resultId => if (s.calls thread).isSome then s else s.beginDelete thread resultId
  | .resume thread now =>
      match s.calls thread with
      | none => s
      | some pending => s.finish codec thread now pending

/-- A new store over an empty table. -/
def init (maxResults : ℤ) : System R J τ κ where
  memory := { maxResults := (max 1 maxResults).toNat }

end System

end Finbar.Results
