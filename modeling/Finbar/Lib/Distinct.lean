/-
Finbar.Lib.Distinct — collecting items with pairwise different keys.

A collection carries its items, the keys seen so far and the fact that no key
occurs twice, so that whatever is offered the items stay distinct. `fillUp`
completes a collection from a list up to a target, and `fillUp_items` says
which items it takes: the first unseen ones.

No `sorry`, no `axiom`.
-/
import Mathlib.Data.List.Nodup
import Mathlib.Data.List.Perm.Subperm
import Mathlib.Data.Nat.Notation

namespace Lib

variable {α κ : Type*} {key : α → κ}

/-- Items in the order of their collection, and the keys seen. -/
structure Distinct (key : α → κ) where
  items : List α
  seen : List κ
  seen_eq : seen = items.map key
  nodup : seen.Nodup

namespace Distinct

/-! ## §1 Collecting -/

def empty (key : α → κ) : Distinct key := ⟨[], [], rfl, List.nodup_nil⟩

/-- The collection with one more item, whose key is not seen before. -/
def add (c : Distinct key) (a : α) (h : key a ∉ c.seen) : Distinct key where
  items := c.items ++ [a]
  seen := c.seen ++ [key a]
  seen_eq := by simp [c.seen_eq]
  nodup := List.concat_eq_append ▸ c.nodup.concat h

variable {c : Distinct key} {a : α} {as : List α} {target : ℕ}

@[simp] theorem items_empty : (empty key).items = [] := rfl

@[simp] theorem seen_empty : (empty key).seen = [] := rfl

@[simp] theorem items_add (h : key a ∉ c.seen) : (c.add a h).items = c.items ++ [a] := rfl

@[simp] theorem seen_add (h : key a ∉ c.seen) : (c.add a h).seen = c.seen ++ [key a] := rfl

theorem nodup_keys (c : Distinct key) : (c.items.map key).Nodup := c.seen_eq ▸ c.nodup

theorem length_seen (c : Distinct key) : c.seen.length = c.items.length := by
  rw [c.seen_eq, List.length_map]

variable [DecidableEq κ]

/-- An item is kept when its key is not seen before. -/
def offer (c : Distinct key) (a : α) : Distinct key :=
  if h : key a ∈ c.seen then c else c.add a h

/-- The list is gone through until the collection has reached the target. The
target is looked at after an item is kept only. -/
def fillUp (target : ℕ) : Distinct key → List α → Distinct key
  | c, [] => c
  | c, a :: as =>
      if h : key a ∈ c.seen then fillUp target c as
      else if target ≤ (c.add a h).items.length then c.add a h
      else fillUp target (c.add a h) as

theorem offer_of_seen (h : key a ∈ c.seen) : c.offer a = c := dif_pos h

theorem offer_of_unseen (h : key a ∉ c.seen) : c.offer a = c.add a h := dif_neg h

/-- An offer adds the item, or nothing. -/
theorem offer_items (c : Distinct key) (a : α) :
    (c.offer a).items = c.items ∨ (c.offer a).items = c.items ++ [a] := by
  by_cases h : key a ∈ c.seen
  · exact .inl (congrArg items (offer_of_seen h))
  · exact .inr (congrArg items (offer_of_unseen h))

/-! ## §2 Filling up -/

/-- The items of a list whose keys are not seen yet. -/
def unseen (c : Distinct key) (as : List α) : List α := as.filter fun a => key a ∉ c.seen

@[simp] theorem mem_unseen : a ∈ c.unseen as ↔ a ∈ as ∧ key a ∉ c.seen := by
  simp [unseen]

theorem unseen_cons_of_seen (h : key a ∈ c.seen) : c.unseen (a :: as) = c.unseen as := by
  simp [unseen, h]

theorem unseen_cons_of_unseen (h : key a ∉ c.seen) :
    c.unseen (a :: as) = a :: c.unseen as := by
  simp [unseen, h]

/-- An added item is not offered again by a list without its key. -/
theorem unseen_add (h : key a ∉ c.seen) (ha : key a ∉ as.map key) :
    (c.add a h).unseen as = c.unseen as := by
  refine List.filter_congr fun b hb => ?_
  have hne : key b ≠ key a := fun heq => ha (heq ▸ List.mem_map_of_mem hb)
  simp [hne]

/-- **A list without a repeated key gives its first unseen items, up to the
target.** -/
theorem fillUp_items (has : (as.map key).Nodup) (hlt : c.items.length < target) :
    (fillUp target c as).items = c.items ++ (c.unseen as).take (target - c.items.length) := by
  induction as generalizing c with
  | nil => simp [fillUp, unseen]
  | cons a as ih =>
      rw [List.map_cons, List.nodup_cons] at has
      by_cases h : key a ∈ c.seen
      · rw [fillUp, dif_pos h, unseen_cons_of_seen h]
        exact ih has.2 hlt
      · obtain ⟨room, hroom⟩ : ∃ room, target - c.items.length = room + 1 :=
          ⟨target - c.items.length - 1, by omega⟩
        rw [fillUp, dif_neg h, unseen_cons_of_unseen h, hroom, List.take_succ_cons]
        have hlength : (c.add a h).items.length = c.items.length + 1 := by simp
        split
        · -- the item that reaches the target
          have : room = 0 := by omega
          simp [this]
        · rw [ih has.2 (by omega), unseen_add h has.1, items_add, List.append_assoc,
            List.singleton_append]
          have : target - (c.items ++ [a]).length = room := by
            rw [List.length_append, List.length_singleton]
            omega
          rw [this]

/-- As many items of a list without a repeated key are unseen as the collection
does not have. -/
theorem length_unseen_ge (has : (as.map key).Nodup) :
    as.length ≤ (c.unseen as).length + c.items.length := by
  have hsplit := List.length_eq_length_filter_add (l := as) fun a => decide (key a ∈ c.seen)
  have hseen : (as.filter fun a => decide (key a ∈ c.seen)).length ≤ c.items.length := by
    rw [← c.length_seen, ← List.length_map key]
    have hkeys : ((as.filter fun a => decide (key a ∈ c.seen)).map key).Nodup :=
      has.sublist (List.filter_sublist.map key)
    refine (List.subperm_of_subset hkeys fun k hk => ?_).length_le
    obtain ⟨a, ha, rfl⟩ := List.mem_map.mp hk
    simpa using (List.mem_filter.mp ha).2
  have hunseen : as.filter (fun a => !decide (key a ∈ c.seen)) = c.unseen as :=
    List.filter_congr fun a _ => by simp
  rw [hunseen] at hsplit
  omega

/-- A list with as many items as the target fills the collection. -/
theorem length_fillUp (has : (as.map key).Nodup) (hlt : c.items.length < target)
    (htarget : target ≤ as.length) : (fillUp target c as).items.length = target := by
  have := length_unseen_ge (c := c) has
  rw [fillUp_items has hlt, List.length_append, List.length_take]
  omega

/-- **The items that fill up come from the first ones of the list, as many as the
target.** -/
theorem mem_fillUp_prefix (has : (as.map key).Nodup) (hlt : c.items.length < target)
    (htarget : target ≤ as.length) {b : α} (hb : b ∈ (fillUp target c as).items) :
    b ∈ c.items ∨ b ∈ as.take target := by
  rw [fillUp_items has hlt, List.mem_append] at hb
  refine hb.imp_right fun htake => ?_
  have hsplit : c.unseen as = c.unseen (as.take target) ++ c.unseen (as.drop target) := by
    rw [unseen, unseen, unseen, ← List.filter_append, List.take_append_drop]
  have hprefix := length_unseen_ge (c := c) (has.sublist ((List.take_sublist target as).map key))
  rw [List.length_take, Nat.min_eq_left htarget] at hprefix
  rw [hsplit, List.take_append_of_le_length (by omega)] at htake
  exact (mem_unseen.mp (List.mem_of_mem_take htake)).1

/-- A collection with the first item of the list alone is filled up with the items
that follow. -/
theorem fillUp_first (has : ((a :: as).map key).Nodup) (hc : c.items = [a])
    (hlt : 1 < target) :
    (fillUp target c (a :: as)).items = (a :: as).take target := by
  have hseen : c.seen = [key a] := by rw [c.seen_eq, hc]; rfl
  rw [fillUp_items has (by simpa [hc] using hlt), hc, unseen_cons_of_seen (by simp [hseen])]
  rw [List.map_cons, List.nodup_cons] at has
  have hall : c.unseen as = as := by
    refine List.filter_eq_self.mpr fun b hb => ?_
    have hne : key b ≠ key a := fun heq => has.1 (heq ▸ List.mem_map_of_mem hb)
    simpa [hseen] using hne
  obtain ⟨more, rfl⟩ : ∃ more, target = more + 1 := ⟨target - 1, by omega⟩
  simp [hall]

end Distinct

end Lib
