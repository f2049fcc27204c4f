/-
Finbar.Lib.Dictionary — dictionaries as finite maps, and the dictionary that a list
of writers leaves behind.

A dictionary is the function that looks a key up, so two dictionaries are
equal exactly when they hold the same entries. `recordAll` runs a list of
writers, each of which may write one entry; where the writers of a key agree
on its value their order does not matter (`recordAll_of_mem`), and running some
of them again changes nothing (`settled_recordAll`, `recordAll_of_settled`).

No `sorry`, no `axiom`.
-/
import Mathlib.Logic.Function.Basic

namespace Lib.Dictionary

/-! ## §1 Dictionaries -/

/-- A dictionary, by its lookup. -/
abbrev Dict (κ β : Type) := κ → Option β

variable {α κ β : Type}

/-- The empty dictionary. -/
def empty : Dict κ β := fun _ => none

/-- `d[key] = value`. -/
def set [DecidableEq κ] (d : Dict κ β) (key : κ) (value : β) : Dict κ β :=
  Function.update d key (some value)

/-- `d.update(e)`. -/
def update (d e : Dict κ β) : Dict κ β := fun key => (e key).or (d key)

variable [DecidableEq κ]

@[simp] theorem set_self (d : Dict κ β) (key : κ) (value : β) :
    set d key value key = some value := by
  unfold set
  rw [Function.update_self]

theorem set_of_ne {key key' : κ} (h : key' ≠ key) (d : Dict κ β) (value : β) :
    set d key value key' = d key' := by
  unfold set
  rw [Function.update_of_ne h]

/-! ## §2 Writers -/

/-- Write the entry of `writer`, if it has one. -/
def record (entry : α → Option (κ × β)) (d : Dict κ β) (writer : α) : Dict κ β :=
  match entry writer with
  | some (key, value) => set d key value
  | none => d

/-- Run writers in order. -/
def recordAll (entry : α → Option (κ × β)) (writers : List α) (d : Dict κ β) : Dict κ β :=
  writers.foldl (record entry) d

variable {entry : α → Option (κ × β)} {writers : List α} {d : Dict κ β} {key : κ} {value : β}

theorem recordAll_append (entry : α → Option (κ × β)) (first second : List α)
    (d : Dict κ β) :
    recordAll entry (first ++ second) d = recordAll entry second (recordAll entry first d) := by
  unfold recordAll
  rw [List.foldl_append]

/-- What the writers have for `key` is there already. -/
def Settled (entry : α → Option (κ × β)) (writers : List α) (d : Dict κ β) (key : κ) : Prop :=
  ∀ writer ∈ writers, ∀ value, entry writer = some (key, value) → d key = some value

omit [DecidableEq κ] in
theorem settled_append {first second : List α} :
    Settled entry (first ++ second) d key ↔
      Settled entry first d key ∧ Settled entry second d key := by
  unfold Settled
  simp only [List.mem_append]
  constructor
  · intro h
    exact ⟨fun w hw => h w (.inl hw), fun w hw => h w (.inr hw)⟩
  · rintro ⟨hfirst, hsecond⟩ w (hw | hw)
    · exact hfirst w hw
    · exact hsecond w hw

omit [DecidableEq κ] in
theorem settled_congr {e : Dict κ β} (hkey : e key = d key)
    (h : Settled entry writers d key) : Settled entry writers e key := by
  intro w hw v hv
  rw [hkey]
  exact h w hw v hv

theorem record_of_settled {writer : α}
    (h : ∀ value, entry writer = some (key, value) → d key = some value) :
    record entry d writer key = d key := by
  unfold record
  cases hentry : entry writer with
  | none => rfl
  | some written =>
      obtain ⟨k, v⟩ := written
      simp only
      by_cases hk : key = k
      · subst hk
        rw [set_self, h v hentry]
      · exact set_of_ne hk d v

/-- Writers change nothing at a key that is settled. -/
theorem recordAll_of_settled (h : Settled entry writers d key) :
    recordAll entry writers d key = d key := by
  induction writers generalizing d with
  | nil => rfl
  | cons writer writers ih =>
      have hfirst : record entry d writer key = d key :=
        record_of_settled (h writer List.mem_cons_self)
      have hrest : Settled entry writers (record entry d writer) key := by
        intro w hw v hv
        rw [hfirst]
        exact h w (List.mem_cons_of_mem writer hw) v hv
      exact (ih hrest).trans hfirst

/-- A value that every writer of `key` agrees on and one of them writes is
there afterwards, whatever the order of the writers. -/
theorem recordAll_of_mem {writer : α} (hmem : writer ∈ writers)
    (hentry : entry writer = some (key, value))
    (h : ∀ writer ∈ writers, ∀ v, entry writer = some (key, v) → v = value) :
    recordAll entry writers d key = some value := by
  obtain ⟨before, after, hsplit⟩ := List.append_of_mem hmem
  rw [hsplit, recordAll_append]
  have hwritten : record entry (recordAll entry before d) writer key = some value := by
    unfold record
    rw [hentry]
    exact set_self _ key value
  have hsettled : Settled entry after (record entry (recordAll entry before d) writer) key := by
    intro w hw v hv
    have hw' : w ∈ writers := by
      rw [hsplit]
      exact List.mem_append_right before (List.mem_cons_of_mem writer hw)
    rw [hwritten, h w hw' v hv]
  exact (recordAll_of_settled hsettled).trans hwritten

/-- Writers that agree on `key` leave it settled. -/
theorem settled_recordAll
    (h : ∀ writer ∈ writers, ∀ writer' ∈ writers, ∀ v v', entry writer = some (key, v) →
      entry writer' = some (key, v') → v = v') :
    Settled entry writers (recordAll entry writers d) key := by
  intro writer hmem value hentry
  refine recordAll_of_mem hmem hentry ?_
  intro writer' hmem' v hentry'
  exact h writer' hmem' writer hmem v value hentry' hentry

end Lib.Dictionary
