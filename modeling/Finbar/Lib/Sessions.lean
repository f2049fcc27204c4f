/-
Finbar.Lib.Sessions — columns computed session by session.

The rows of a frame fall into sessions by a key, and a cell is computed from its key, the
session of the row and the row's place in it (`sessionColumn`). A session may go on after the
row, so that such a column looks ahead unless its cells keep to the part of the session up to
their row: `causalAt_iff` says when one of them does. In the last row of a window the column
sees the part of the session that is in the window.

No `sorry`, no `axiom`.
-/
import Mathlib.Data.List.Basic
import Mathlib.Data.List.DropRight
import Mathlib.Data.List.Infix

namespace Lib.Sessions

variable {ρ κ α : Type}

/-! ## §1 Looking ahead -/

/-- The cell of the row is the same for all frames that agree up to the row. -/
def CausalAt (column : List ρ → List α) (rows : List ρ) (i : ℕ) : Prop :=
  ∀ rows' : List ρ, rows'.take (i + 1) = rows.take (i + 1) → (column rows')[i]? = (column rows)[i]?

theorem CausalAt.getElem?_take {column : List ρ → List α} {rows : List ρ} {i : ℕ}
    (h : CausalAt column rows i) : (column (rows.take (i + 1)))[i]? = (column rows)[i]? :=
  h _ (by rw [List.take_take, Nat.min_self])

/-- Columns that agree in that row, in all frames that agree up to it. -/
theorem causalAt_congr {column column' : List ρ → List α} {rows : List ρ} {i : ℕ}
    (h : ∀ rows' : List ρ, rows'.take (i + 1) = rows.take (i + 1) →
      (column rows')[i]? = (column' rows')[i]?) :
    CausalAt column rows i ↔ CausalAt column' rows i := by
  constructor
  · intro hcausal rows' htake
    rw [← h rows' htake, ← h rows rfl, hcausal rows' htake]
  · intro hcausal rows' htake
    rw [h rows' htake, h rows rfl, hcausal rows' htake]

/-! ## §2 Sessions -/

variable [DecidableEq κ] {key : ρ → κ} {cell : κ → List ρ → ℕ → α} {rows : List ρ} {i : ℕ} {row : ρ}

/-- The rows of a session. -/
def session (key : ρ → κ) (rows : List ρ) (k : κ) : List ρ :=
  rows.filter fun row => decide (key row = k)

@[simp] theorem mem_session {k : κ} : row ∈ session key rows k ↔ row ∈ rows ∧ key row = k := by
  simp [session]

@[simp] theorem session_append (rows rows' : List ρ) (k : κ) :
    session key (rows ++ rows') k = session key rows k ++ session key rows' k :=
  List.filter_append ..

/-- The session up to a row ends with it. -/
theorem session_take_succ (h : rows[i]? = some row) :
    session key (rows.take (i + 1)) (key row) = session key (rows.take i) (key row) ++ [row] := by
  rw [List.take_add_one, h, session_append]
  simp [session]

/-- A session is the part before a row, the row and what comes later. -/
theorem session_eq (rows : List ρ) (n : ℕ) (k : κ) :
    session key rows k = session key (rows.take n) k ++ session key (rows.drop n) k := by
  rw [← session_append, List.take_append_drop]

/-- What is not in the window has another key. -/
theorem session_rtake {w : ℕ} {k : κ} (h : ∀ row ∈ rows.take (rows.length - w), key row ≠ k) :
    session key (rows.rtake w) k = session key rows k := by
  have hnone : session key (rows.take (rows.length - w)) k = [] := by
    rw [session, List.filter_eq_nil_iff]
    exact fun row hrow => by simpa using h row hrow
  rw [session_eq rows (rows.length - w) k, hnone, List.rtake, List.nil_append]

/-! ## §3 Columns -/

/-- A cell is computed from the key of its row, the session, and the number of rows of the
session before the row. -/
def sessionColumn (key : ρ → κ) (cell : κ → List ρ → ℕ → α) (rows : List ρ) : List α :=
  rows.mapIdx fun i row =>
    cell (key row) (session key rows (key row)) (session key (rows.take i) (key row)).length

@[simp] theorem length_sessionColumn (key : ρ → κ) (cell : κ → List ρ → ℕ → α) (rows : List ρ) :
    (sessionColumn key cell rows).length = rows.length := by
  simp [sessionColumn]

theorem getElem?_sessionColumn (h : rows[i]? = some row) :
    (sessionColumn key cell rows)[i]? =
      some (cell (key row) (session key rows (key row)) (session key (rows.take i) (key row)).length) := by
  simp [sessionColumn, h]

/-- **When a cell does not look ahead**: rows that the session goes on with do not matter. -/
theorem causalAt_iff (h : rows[i]? = some row) :
    CausalAt (sessionColumn key cell) rows i ↔
      ∀ more, (∀ later ∈ more, key later = key row) →
        cell (key row) (session key (rows.take (i + 1)) (key row) ++ more)
            (session key (rows.take i) (key row)).length =
          cell (key row) (session key (rows.take (i + 1)) (key row))
            (session key (rows.take i) (key row)).length := by
  have hlt : i < rows.length := (List.getElem?_eq_some_iff.mp h).1
  have hcell (later : List ρ) : (sessionColumn key cell (rows.take (i + 1) ++ later))[i]? =
      some (cell (key row) (session key (rows.take (i + 1)) (key row) ++ session key later (key row))
        (session key (rows.take i) (key row)).length) := by
    have hrow : (rows.take (i + 1) ++ later)[i]? = some row := by
      rw [List.getElem?_append_left (by simp; omega),
        List.getElem?_take_of_lt (Nat.lt_succ_self i), h]
    have htake : (rows.take (i + 1) ++ later).take i = rows.take i := by
      rw [List.take_append_of_le_length (by simp; omega), List.take_take]
      simp
    rw [getElem?_sessionColumn hrow, session_append, htake]
  have hnil : (sessionColumn key cell (rows.take (i + 1)))[i]? =
      some (cell (key row) (session key (rows.take (i + 1)) (key row))
        (session key (rows.take i) (key row)).length) := by
    simpa [session] using hcell []
  constructor
  · intro hcausal more hmore
    have hsession : session key more (key row) = more := by
      rw [session, List.filter_eq_self]
      exact fun later hlater => by simpa using hmore later hlater
    have hsame : (rows.take (i + 1) ++ more).take (i + 1) = rows.take (i + 1) := by
      rw [List.take_append_of_le_length (by rw [List.length_take]; omega), List.take_take,
        Nat.min_self]
    have hlater := hcausal (rows.take (i + 1) ++ more) hsame
    rw [← hcausal.getElem?_take, hcell, hsession, hnil] at hlater
    exact Option.some.inj hlater
  · intro hstable rows' htake
    have hsplit (frame : List ρ) (hframe : frame.take (i + 1) = rows.take (i + 1)) :
        (sessionColumn key cell frame)[i]? = (sessionColumn key cell (rows.take (i + 1)))[i]? := by
      rw [← List.take_append_drop (i + 1) frame, hframe, hcell, hnil]
      exact congrArg some (hstable _ fun later hlater => (mem_session.mp hlater).2)
    rw [hsplit rows' htake, hsplit rows rfl]

/-- The last cell is computed from the session so far. -/
theorem getLast?_sessionColumn (h : rows.getLast? = some row) :
    (sessionColumn key cell rows).getLast? =
      some (cell (key row) (session key rows (key row)) ((session key rows (key row)).length - 1)) := by
  have hlast : rows[rows.length - 1]? = some row := by rwa [← List.getLast?_eq_getElem?]
  have hpos : 0 < rows.length := by
    have := (List.getElem?_eq_some_iff.mp hlast).1
    omega
  have hsession : session key (rows.take (rows.length - 1 + 1)) (key row) =
      session key (rows.take (rows.length - 1)) (key row) ++ [row] := session_take_succ hlast
  rw [Nat.sub_add_cancel hpos, List.take_length] at hsession
  rw [List.getLast?_eq_getElem?, length_sessionColumn, getElem?_sessionColumn hlast, hsession]
  simp

end Lib.Sessions
