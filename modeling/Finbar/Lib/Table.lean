/-
Finbar.Lib.Table — a table whose rows have a key each, written to for ever.

A table is a list of rows; `insertOrReplace` puts a row in, in place of the one
with its key. A history of writes says which rows stand (`Standing`): those put
in at some point and neither replaced nor erased since. The rows of a table that
the writes were made to, one after another, are the ones that stand, one for
each key (`mem_written_iff`, `nodup_written`). A selection lists some of the rows
in the order of a field (`select`); where the field tells the rows apart, the
order is strict.

No `sorry`, no `axiom`.
-/
import Mathlib.Data.List.Induction
import Mathlib.Data.List.Sort
import Mathlib.Order.Defs.LinearOrder

namespace Lib.Table

variable {ρ κ τ : Type}

/-! ## §1 Rows under a key -/

section Key

variable [DecidableEq κ] {key : ρ → κ} {rows : List ρ} {row other : ρ}

/-- The row goes to the end of the table, and the row with its key goes. -/
def insertOrReplace (key : ρ → κ) (rows : List ρ) (row : ρ) : List ρ :=
  rows.filter (fun other => decide (key other ≠ key row)) ++ [row]

@[simp] theorem mem_insertOrReplace :
    other ∈ insertOrReplace key rows row ↔ other = row ∨ other ∈ rows ∧ key other ≠ key row := by
  simp [insertOrReplace, or_comm]

theorem nodup_insertOrReplace (h : (rows.map key).Nodup) :
    ((insertOrReplace key rows row).map key).Nodup := by
  rw [insertOrReplace, List.map_append, List.map_singleton, ← List.concat_eq_append,
    List.nodup_concat]
  refine ⟨?_, (List.filter_sublist.map key).nodup h⟩
  simp

end Key

/-! ## §2 Histories -/

/-- A write: a row is put in, or the rows of a kind are erased. -/
inductive Write (ρ : Type) where
  | put (row : ρ)
  | erase (gone : ρ → Bool)

section History

variable [DecidableEq κ] {key : ρ → κ} {rows : List ρ} {history writes : List (Write ρ)}
  {row other : ρ}

/-- A write to a table. -/
def Write.apply (key : ρ → κ) (rows : List ρ) : Write ρ → List ρ
  | .put row => insertOrReplace key rows row
  | .erase gone => rows.filter fun other => !gone other

/-- The table after the writes. -/
def written (key : ρ → κ) (rows : List ρ) (writes : List (Write ρ)) : List ρ :=
  writes.foldl (Write.apply key) rows

/-- The write ends a row: it erases the row, or puts in one with its key. -/
def Write.Ends (key : ρ → κ) (row : ρ) : Write ρ → Prop
  | .put other => key row = key other
  | .erase gone => gone row = true

/-- **A row stands** after a history that put it in and did not end it since. -/
def Standing (key : ρ → κ) (history : List (Write ρ)) (row : ρ) : Prop :=
  ∃ before later, history = before ++ .put row :: later ∧
    ∀ write ∈ later, ¬ write.Ends key row

omit [DecidableEq κ] in
theorem not_standing_nil : ¬ Standing key [] row := by
  rintro ⟨before, later, hsplit, -⟩
  exact List.append_ne_nil_of_right_ne_nil _ (List.cons_ne_nil _ _) hsplit.symm

omit [DecidableEq κ] in
/-- A row stands after one more write if the write puts it in, or if it stood and the
write does not end it. -/
theorem standing_concat {write : Write ρ} :
    Standing key (history ++ [write]) row ↔
      write = .put row ∨ Standing key history row ∧ ¬ write.Ends key row := by
  constructor
  · rintro ⟨before, later, hsplit, hlater⟩
    rcases List.eq_nil_or_concat later with rfl | ⟨init, last, rfl⟩
    · exact .inl (List.singleton_inj.mp (List.append_inj' hsplit rfl).2)
    · rw [List.concat_eq_append, ← List.cons_append, ← List.append_assoc] at hsplit
      obtain ⟨hhistory, hwrite⟩ := List.append_inj' hsplit rfl
      obtain rfl := List.singleton_inj.mp hwrite
      refine .inr ⟨⟨before, init, hhistory, fun w hw => hlater w ?_⟩, hlater write ?_⟩
      all_goals simp [*]
  · rintro (rfl | ⟨⟨before, later, rfl, hlater⟩, hwrite⟩)
    · exact ⟨history, [], rfl, by simp⟩
    · refine ⟨before, later ++ [write], by simp, fun w hw => ?_⟩
      rcases List.mem_append.mp hw with hw | hw
      · exact hlater w hw
      · rwa [List.mem_singleton.mp hw]

theorem mem_apply {write : Write ρ} :
    row ∈ write.apply key rows ↔ write = .put row ∨ row ∈ rows ∧ ¬ write.Ends key row := by
  cases write with
  | put other => simp [Write.apply, Write.Ends, eq_comm]
  | erase gone => simp [Write.apply, Write.Ends]

theorem nodup_apply (h : (rows.map key).Nodup) (write : Write ρ) :
    ((write.apply key rows).map key).Nodup := by
  cases write with
  | put row => exact nodup_insertOrReplace h
  | erase gone => exact (List.filter_sublist.map key).nodup h

theorem written_append (writes' : List (Write ρ)) :
    written key rows (writes ++ writes') = written key (written key rows writes) writes' :=
  List.foldl_append

/-- **The rows of a table** that was empty are those that stand. -/
theorem mem_written_iff : row ∈ written key [] writes ↔ Standing key writes row := by
  induction writes using List.reverseRecOn generalizing row with
  | nil => simpa [written] using not_standing_nil
  | append_singleton writes write ih =>
      rw [written_append, standing_concat, ← ih]
      exact mem_apply

/-- No two rows have one key. -/
theorem nodup_written (h : (rows.map key).Nodup) :
    ((written key rows writes).map key).Nodup := by
  induction writes generalizing rows with
  | nil => exact h
  | cons write writes ih => exact ih (nodup_apply h write)

end History

/-! ## §3 Selections -/

section Selections

variable [LinearOrder τ] {order : ρ → τ} {wanted : ρ → Bool} {rows : List ρ} {row : ρ}

/-- The rows of a kind, in the order of a field. -/
def select (order : ρ → τ) (wanted : ρ → Bool) (rows : List ρ) : List ρ :=
  (rows.filter wanted).insertionSort fun a b => order a ≤ order b

@[simp] theorem mem_select : row ∈ select order wanted rows ↔ row ∈ rows ∧ wanted row = true := by
  rw [select, List.mem_insertionSort, List.mem_filter]

theorem sorted_select : (select order wanted rows).Pairwise fun a b => order a ≤ order b :=
  have : Std.Total fun a b : ρ => order a ≤ order b := ⟨fun a b => le_total (order a) (order b)⟩
  have : IsTrans ρ fun a b => order a ≤ order b := ⟨fun _ _ _ hab hbc => hab.trans hbc⟩
  List.pairwise_insertionSort _ _

/-- **The order is strict** where the field tells the selected rows apart. -/
theorem strict_select {key : ρ → κ} (h : (rows.map key).Nodup)
    (hkey : ∀ a b, wanted a = true → wanted b = true → order a = order b → key a = key b) :
    (select order wanted rows).Pairwise fun a b => order a < order b := by
  have hnodup : ((select order wanted rows).map key).Nodup :=
    ((List.perm_insertionSort _ _).map key).nodup_iff.mpr ((List.filter_sublist.map key).nodup h)
  have hdistinct : (select order wanted rows).Pairwise fun a b => key a ≠ key b :=
    List.pairwise_map.mp hnodup
  refine (sorted_select.and hdistinct).imp_of_mem fun ha hb hab => ?_
  refine lt_of_le_of_ne hab.1 fun heq => hab.2 (hkey _ _ ?_ ?_ heq)
  · exact (mem_select.mp ha).2
  · exact (mem_select.mp hb).2

end Selections

end Lib.Table
