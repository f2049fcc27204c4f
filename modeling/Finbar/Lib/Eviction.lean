/-
Finbar.Lib.Eviction — a bounded dictionary that pops its oldest entries.

Over its limit, the dictionary looks at its entries from the oldest to the newest and
pops those that may go, until the limit is met (`evict`). `evict_eq` says which keys
are popped: the oldest removable ones, as many as there are entries over the limit.

No `sorry`, no `axiom`.
-/
import Finbar.Lib.OrderedDict
import Mathlib.Data.List.Sort

namespace Lib.Eviction

variable {κ β τ : Type} [LinearOrder τ]

section Loop

variable [DecidableEq κ] (limit : ℕ) (removable : κ × β → Bool) (created : κ × β → τ)

/-- The entries, the oldest first; of the same age the first inserted. -/
def oldestFirst (d : OrderedDict κ β) : List (κ × β) :=
  d.items.insertionSort fun entry entry' => created entry ≤ created entry'

/-- The loop over the candidates. -/
def evictFrom : List (κ × β) → OrderedDict κ β → OrderedDict κ β
  | [], d => d
  | entry :: rest, d =>
      if d.items.length ≤ limit then d
      else evictFrom rest (if removable entry then d.erase entry.1 else d)

/-- Pop the oldest removable entries over the limit. -/
def evict (d : OrderedDict κ β) : OrderedDict κ β :=
  if d.items.length ≤ limit then d else evictFrom limit removable (oldestFirst created d) d

/-- The entries that are popped. -/
def overflow (d : OrderedDict κ β) : List (κ × β) :=
  ((oldestFirst created d).filter removable).take (d.items.length - limit)

end Loop

theorem oldestFirst_perm (created : κ × β → τ) (d : OrderedDict κ β) :
    (oldestFirst created d).Perm d.items :=
  List.perm_insertionSort _ d.items

variable {limit : ℕ} {removable : κ × β → Bool} {created : κ × β → τ} {d : OrderedDict κ β}

variable [DecidableEq κ]

theorem evictFrom_eq {candidates : List (κ × β)} (hnodup : (candidates.map Prod.fst).Nodup)
    (hkeys : ∀ entry ∈ candidates, entry.1 ∈ d.keys) :
    evictFrom limit removable candidates d =
      d.eraseAll (((candidates.filter removable).take (d.items.length - limit)).map Prod.fst) := by
  induction candidates generalizing d with
  | nil =>
      rw [List.filter_nil, List.take_nil]
      rfl
  | cons entry rest ih =>
      rw [List.map_cons, List.nodup_cons] at hnodup
      unfold evictFrom
      by_cases hlimit : d.items.length ≤ limit
      · rw [if_pos hlimit, Nat.sub_eq_zero_of_le hlimit, List.take_zero]
        rfl
      · rw [if_neg hlimit]
        cases hremovable : removable entry with
        | false =>
            rw [List.filter_cons_of_neg (by simp [hremovable]), if_neg Bool.false_ne_true]
            exact ih hnodup.2 fun other h => hkeys other (List.mem_cons_of_mem entry h)
        | true =>
            have hlength := OrderedDict.length_erase (hkeys entry List.mem_cons_self)
            have hrest : ∀ other ∈ rest, other.1 ∈ (d.erase entry.1).keys := by
              intro other h
              refine OrderedDict.mem_keys_erase.mpr
                ⟨fun heq => hnodup.1 ?_, hkeys other (List.mem_cons_of_mem entry h)⟩
              exact heq ▸ List.mem_map_of_mem h
            have hover : d.items.length - limit = (d.erase entry.1).items.length - limit + 1 := by
              omega
            rw [List.filter_cons_of_pos hremovable, hover, List.take_succ_cons, List.map_cons,
              if_pos rfl, ih hnodup.2 hrest]
            rfl

/-- **What is popped**: the oldest removable entries. -/
theorem evict_eq (limit : ℕ) (removable : κ × β → Bool) (created : κ × β → τ)
    (d : OrderedDict κ β) : evict limit removable created d =
      d.eraseAll ((overflow limit removable created d).map Prod.fst) := by
  unfold evict overflow
  by_cases hlimit : d.items.length ≤ limit
  · rw [if_pos hlimit, Nat.sub_eq_zero_of_le hlimit, List.take_zero]
    rfl
  · rw [if_neg hlimit]
    have hperm := (oldestFirst_perm created d).map Prod.fst
    exact evictFrom_eq (hperm.nodup_iff.mpr d.nodup)
      fun entry h => hperm.mem_iff.mp (List.mem_map_of_mem h)

theorem get_eraseAll (d : OrderedDict κ β) (keys : List κ) (key : κ) :
    (d.eraseAll keys).get key = if key ∈ keys then none else d.get key := by
  unfold OrderedDict.eraseAll
  induction keys generalizing d with
  | nil => rfl
  | cons first keys ih =>
      rw [List.foldl_cons, ih, OrderedDict.get_erase]
      by_cases hkey : key ∈ keys
      · rw [if_pos hkey, if_pos (List.mem_cons_of_mem first hkey)]
      · by_cases hfirst : first = key
        · rw [if_neg hkey, if_pos hfirst, if_pos (hfirst ▸ List.mem_cons_self)]
        · rw [if_neg hkey, if_neg hfirst,
            if_neg (List.mem_cons.not.mpr (not_or.mpr ⟨Ne.symm hfirst, hkey⟩))]

/-- Evicting adds nothing. -/
theorem get_of_get_evict {key : κ} {value : β}
    (h : (evict limit removable created d).get key = some value) : d.get key = some value := by
  rw [evict_eq, get_eraseAll] at h
  split at h
  · cases h
  · exact h

theorem length_eraseAll {keys : List κ} (hnodup : keys.Nodup) (h : ∀ key ∈ keys, key ∈ d.keys) :
    (d.eraseAll keys).items.length + keys.length = d.items.length := by
  unfold OrderedDict.eraseAll
  induction keys generalizing d with
  | nil => rfl
  | cons first keys ih =>
      rw [List.nodup_cons] at hnodup
      have hlength := OrderedDict.length_erase (h first List.mem_cons_self)
      have hrest : ∀ key ∈ keys, key ∈ (d.erase first).keys := fun key hkey =>
        OrderedDict.mem_keys_erase.mpr
          ⟨fun heq => hnodup.1 (heq ▸ hkey), h key (List.mem_cons_of_mem first hkey)⟩
      have hih := ih hnodup.2 hrest
      rw [List.foldl_cons, List.length_cons]
      omega

end Lib.Eviction
