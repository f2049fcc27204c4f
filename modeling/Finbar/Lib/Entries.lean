/-
Finbar.Lib.Entries — lists of entries, looked up by the first with a key.

The lookups are `List.lookup`; here is what they find in a list that is built
from names, or by changing values, and that a walk down the entries to the
first with a key is a lookup (`walk_eq_lookup`).

No `sorry`, no `axiom`.
-/
import Mathlib.Data.List.Basic

namespace Lib

variable {κ α β : Type*} [DecidableEq κ] {entries : List (κ × α)} {key : κ}

theorem lookup_cons_ite (name : κ) (value : α) (entries : List (κ × α)) (key : κ) :
    ((name, value) :: entries).lookup key =
      if key = name then some value else entries.lookup key := by
  by_cases h : key = name
  · simp [h]
  · rw [List.lookup_cons, beq_false_of_ne h, if_neg h]

/-- What a lookup finds is one of the entries. -/
theorem mem_of_lookup {value : α} (h : entries.lookup key = some value) :
    (key, value) ∈ entries := by
  rw [List.lookup_eq_some_iff] at h
  obtain ⟨before, after, rfl, -⟩ := h
  exact List.mem_append_right before List.mem_cons_self

/-- A lookup among changed values. -/
theorem lookup_map_values (f : κ → α → β) (entries : List (κ × α)) (key : κ) :
    (entries.map fun entry => (entry.1, f entry.1 entry.2)).lookup key =
      (entries.lookup key).map (f key) := by
  induction entries with
  | nil => rfl
  | cons entry entries ih =>
      obtain ⟨name, value⟩ := entry
      rw [List.map_cons, lookup_cons_ite, lookup_cons_ite, ih]
      by_cases h : key = name
      · simp [h]
      · simp [h]

/-- A lookup among the values that names have, if they have one. -/
theorem lookup_filterMap (value : κ → Option β) {names : List κ} (h : key ∈ names) :
    (names.filterMap fun name => (value name).map fun v => (name, v)).lookup key =
      value key := by
  induction names with
  | nil => cases h
  | cons name names ih =>
      rw [List.filterMap_cons]
      by_cases hname : key = name
      · subst hname
        cases hvalue : value key with
        | some v => simp
        | none =>
            rw [Option.map_none]
            simp only
            by_cases hmem : key ∈ names
            · rw [ih hmem, hvalue]
            · rw [List.lookup_eq_none_iff]
              intro entry hentry
              obtain ⟨name, hname, hentry⟩ := List.mem_filterMap.mp hentry
              obtain ⟨v, -, rfl⟩ := Option.map_eq_some_iff.mp hentry
              have hne : key ≠ name := fun heq => hmem (heq ▸ hname)
              simpa using hne
      · have hmem : key ∈ names := (List.mem_cons.mp h).resolve_left hname
        cases hvalue : value name with
        | some v =>
            rw [Option.map_some]
            simp only
            rw [lookup_cons_ite, if_neg hname]
            exact ih hmem
        | none => exact ih hmem

theorem lookup_map_of_mem (value : κ → β) {names : List κ} (h : key ∈ names) :
    (names.map fun name => (name, value name)).lookup key = some (value key) := by
  have hfound := lookup_filterMap (fun name => some (value name)) h
  simpa only [Option.map_some, List.filterMap_eq_map'] using hfound

/-- **Going down the entries to the first with a key is looking it up.** -/
theorem walk_eq_lookup (walk : List (κ × α) → β) (found : α → β) (absent : β) (key : κ)
    (hnil : walk [] = absent)
    (hcons : ∀ name value entries,
      walk ((name, value) :: entries) = if name = key then found value else walk entries)
    (entries : List (κ × α)) : walk entries = ((entries.lookup key).map found).getD absent := by
  induction entries with
  | nil => exact hnil
  | cons entry entries ih =>
      obtain ⟨name, value⟩ := entry
      rw [hcons, lookup_cons_ite, ih]
      by_cases h : name = key
      · simp [h]
      · simp [h, Ne.symm h]

end Lib
