/-
Finbar.Enrichment.Cursor — `AsOfInformativeCursor`: an incremental as-of
lookup over informative rows.

The parallel lists `availability_timestamps` and `rows` are one list of
pairs. `append` refuses a row that is available before the last one, so the
list of every cursor is sorted, and the cursor carries that as a field.
`position + 1` is `visible`, the number of rows a lookup has passed.

No `sorry`, no `axiom`.
-/
import Finbar.Lib.AsOf
import Finbar.Lib.Python

namespace Finbar.Enrichment

open Lib.Python Lib.AsOf

/-- `pd.Timestamp` in UTC: nanoseconds since the epoch. `pd.Timedelta` is a
difference of two. -/
abbrev Timestamp := ℤ

variable {Row : Type}

theorem sorted_no_entries : Sorted ([] : List (Timestamp × Row)) :=
  List.Pairwise.nil

theorem zero_le_no_entries : 0 ≤ ([] : List (Timestamp × Row)).length :=
  Nat.zero_le _

/-- `AsOfInformativeCursor`. -/
structure AsOfInformativeCursor (Row : Type) where
  /-- What a bar's open timestamp is from its availability. -/
  offset : ℤ := 0
  /-- The appended rows with their availability timestamps. -/
  entries : List (Timestamp × Row) := []
  /-- `position + 1`; `0` means that no row has become visible yet. -/
  visible : ℕ := 0
  sorted : Sorted entries := by exact sorted_no_entries
  visible_le : visible ≤ entries.length := by exact zero_le_no_entries

namespace AsOfInformativeCursor

/-- The availability of the last row allows another. -/
def Accepts (cursor : AsOfInformativeCursor Row) (availability : Timestamp) : Prop :=
  ∀ last ∈ cursor.entries.getLast?, last.1 ≤ availability

instance (cursor : AsOfInformativeCursor Row) (availability : Timestamp) :
    Decidable (cursor.Accepts availability) :=
  match h : cursor.entries.getLast? with
  | none => .isTrue (fun _ hlast => by rw [h] at hlast; cases hlast)
  | some last =>
      if hle : last.1 ≤ availability then
        .isTrue (fun last' hlast => by
          rw [h] at hlast
          obtain rfl := Option.some.inj hlast
          exact hle)
      else .isFalse (fun hall => hle (hall last h))

/-- A sorted list stays sorted when its last time allows the new one. -/
theorem sorted_append {cursor : AsOfInformativeCursor Row} {availability : Timestamp}
    (h : cursor.Accepts availability) (row : Row) :
    Sorted (cursor.entries ++ [(availability, row)]) := by
  refine List.pairwise_append.mpr ⟨cursor.sorted, List.pairwise_singleton _ _, ?_⟩
  intro e he f hf
  obtain rfl := List.mem_singleton.mp hf
  obtain ⟨front, last, hsplit⟩ : ∃ front last, cursor.entries = front ++ [last] :=
    (List.eq_nil_or_concat' cursor.entries).resolve_left (List.ne_nil_of_mem he)
  have hlast : last.1 ≤ availability := h last (by rw [hsplit, List.getLast?_concat]; rfl)
  rw [hsplit] at he
  rcases List.mem_append.mp he with he | he
  · have hsorted := cursor.sorted
    rw [hsplit] at hsorted
    have hle := (List.pairwise_append.mp hsorted).2.2 e he last (List.mem_singleton.mpr rfl)
    exact hle.trans hlast
  · rw [List.mem_singleton.mp he]
    exact hlast

/-- `append`: append an informative bar; its availability is `openTs +
offset`. -/
def append (cursor : AsOfInformativeCursor Row) (openTs : Timestamp) (row : Row) :
    Except PyError (AsOfInformativeCursor Row) :=
  if h : cursor.Accepts (openTs + cursor.offset) then
    .ok { cursor with
      entries := cursor.entries ++ [(openTs + cursor.offset, row)]
      sorted := sorted_append h row
      visible_le := by
        rw [List.length_append]
        exact Nat.le_add_right_of_le cursor.visible_le }
  else
    .error (.valueError
      { template :=
          "AsOfInformativeCursor requires monotonically increasing availability timestamps." })

/-- The pointer after the `while` loop of `latest_visible_at`: past the rows
that have become visible since. -/
def advanced (cursor : AsOfInformativeCursor Row) (primaryOpen : Timestamp) : ℕ :=
  cursor.visible + seen (cursor.entries.drop cursor.visible) primaryOpen

theorem advanced_le (cursor : AsOfInformativeCursor Row) (primaryOpen : Timestamp) :
    cursor.advanced primaryOpen ≤ cursor.entries.length := by
  have h := seen_le_length (cursor.entries.drop cursor.visible) primaryOpen
  rw [List.length_drop] at h
  have hvisible := cursor.visible_le
  unfold advanced
  omega

/-- `latest_visible_at`: the latest row whose availability is at or before
`primaryOpen`, and the cursor with its pointer advanced. -/
def latestVisibleAt (cursor : AsOfInformativeCursor Row) (primaryOpen : Timestamp) :
    AsOfInformativeCursor Row × Option Row :=
  let i := cursor.advanced primaryOpen
  ({ cursor with visible := i, visible_le := cursor.advanced_le primaryOpen },
    if i = 0 then none else (cursor.entries[i - 1]?).map Prod.snd)

end AsOfInformativeCursor

end Finbar.Enrichment
