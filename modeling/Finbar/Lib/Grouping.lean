/-
Finbar.Lib.Grouping — consecutive items of one key, grouped as they arrive.

`group key items` closes a group when an item with another key comes, and has
the group of the last item as its current one. The groups of items whose keys
are in order have strictly increasing keys (`Split`), so a key names its group;
`grouped_induction` is the induction over such items.

No `sorry`, no `axiom`.
-/
import Mathlib.Data.List.Dedup
import Mathlib.Data.List.Induction
import Mathlib.Data.List.Sort

namespace Lib.Grouping

variable {α κ : Type}

/-! ## §1 Groups -/

/-- The groups that are closed, and the one that items are added to. -/
structure Grouped (α : Type) where
  closed : List (List α)
  current : List α
  deriving DecidableEq

/-- An item joins the current group, or closes it. -/
def Grouped.push [DecidableEq κ] (key : α → κ) (g : Grouped α) (item : α) : Grouped α :=
  match g.current.getLast? with
  | some last =>
      if key last = key item then { g with current := g.current ++ [item] }
      else { closed := g.closed ++ [g.current], current := [item] }
  | none => { g with current := [item] }

/-- The groups of a sequence. -/
def group [DecidableEq κ] (key : α → κ) (items : List α) : Grouped α :=
  items.foldl (Grouped.push key) { closed := [], current := [] }

theorem group_concat [DecidableEq κ] (key : α → κ) (items : List α) (item : α) :
    group key (items ++ [item]) = (group key items).push key item := by
  unfold group
  rw [List.foldl_append]
  rfl

/-- Nothing is lost, and nothing moves. -/
theorem flatten_group [DecidableEq κ] (key : α → κ) (items : List α) :
    (group key items).closed.flatten ++ (group key items).current = items := by
  induction items using List.reverseRecOn with
  | nil => rfl
  | append_singleton items item ih =>
      rw [group_concat]
      unfold Grouped.push
      split
      · split
        · rw [← List.append_assoc, ih]
        · rw [List.flatten_append, List.flatten_singleton, ih]
      · rename_i hnone
        have hcurrent := List.getLast?_eq_none_iff.mp hnone
        rw [hcurrent, List.append_nil] at ih
        rw [ih]

/-- A group of one key. -/
structure IsGroup (key : α → κ) (items : List α) (k : κ) : Prop where
  nonempty : items ≠ []
  keyed : ∀ item ∈ items, key item = k

theorem IsGroup.singleton (key : α → κ) (item : α) : IsGroup key [item] (key item) :=
  ⟨List.cons_ne_nil _ _, List.forall_mem_singleton.mpr rfl⟩

theorem IsGroup.concat {key : α → κ} {items : List α} {k : κ} (h : IsGroup key items k)
    {item : α} (hitem : key item = k) : IsGroup key (items ++ [item]) k := by
  refine ⟨List.concat_ne_nil _ _, ?_⟩
  intro other hother
  rcases List.mem_append.mp hother with hmem | hmem
  · exact h.keyed other hmem
  · rw [List.mem_singleton.mp hmem]
    exact hitem

theorem IsGroup.mem_map_iff {key : α → κ} {items : List α} {k : κ} (h : IsGroup key items k)
    (k' : κ) : k' ∈ items.map key ↔ k' = k := by
  constructor
  · intro hmem
    obtain ⟨item, hitem, rfl⟩ := List.mem_map.mp hmem
    exact h.keyed item hitem
  · rintro rfl
    obtain ⟨item, hitem⟩ := List.exists_mem_of_ne_nil items h.nonempty
    exact List.mem_map.mpr ⟨item, hitem, h.keyed item hitem⟩

/-- An item meets a group: it joins it or closes it. -/
theorem Grouped.push_eq [DecidableEq κ] {key : α → κ} {g : Grouped α} {k : κ}
    (h : IsGroup key g.current k) (item : α) :
    g.push key item =
      if k = key item then { g with current := g.current ++ [item] }
      else { closed := g.closed ++ [g.current], current := [item] } := by
  unfold Grouped.push
  cases hlast : g.current.getLast? with
  | none => exact absurd (List.getLast?_eq_none_iff.mp hlast) h.nonempty
  | some last =>
      have hkey := h.keyed last (List.mem_of_getLast? hlast)
      simp only [hkey]

/-! ## §2 Keys in order -/

section Order

variable [LinearOrder κ]

/-- The groups have the given keys, which increase. -/
structure Split (key : α → κ) (g : Grouped α) (keys : List κ) (last : κ) : Prop where
  closed : List.Forall₂ (IsGroup key) g.closed keys
  current : IsGroup key g.current last
  sorted : (keys ++ [last]).Pairwise (· < ·)

theorem Split.lt {key : α → κ} {g : Grouped α} {keys : List κ} {last : κ}
    (h : Split key g keys last) : ∀ k ∈ keys, k < last :=
  fun k hk => (List.pairwise_append.mp h.sorted).2.2 k hk last (List.mem_singleton.mpr rfl)

theorem Split.length {key : α → κ} {g : Grouped α} {keys : List κ} {last : κ}
    (h : Split key g keys last) : g.closed.length = keys.length :=
  h.closed.length_eq

/-- The first item makes the first group. -/
theorem split_singleton (key : α → κ) (item : α) :
    Split key (group key [item]) [] (key item) :=
  ⟨.nil, IsGroup.singleton key item, List.pairwise_singleton _ _⟩

/-- An item of the last key joins the current group. -/
theorem Split.join {key : α → κ} {g : Grouped α} {keys : List κ} {last : κ}
    (h : Split key g keys last) {item : α} (hitem : key item = last) :
    g.push key item = { g with current := g.current ++ [item] } ∧
      Split key (g.push key item) keys last := by
  have hpush : g.push key item = { g with current := g.current ++ [item] } := by
    rw [Grouped.push_eq h.current, if_pos hitem.symm]
  refine ⟨hpush, ?_⟩
  rw [hpush]
  exact ⟨h.closed, h.current.concat hitem, h.sorted⟩

/-- An item of a later key closes the current group. -/
theorem Split.close {key : α → κ} {g : Grouped α} {keys : List κ} {last : κ}
    (h : Split key g keys last) {item : α} (hitem : last < key item) :
    g.push key item = { closed := g.closed ++ [g.current], current := [item] } ∧
      Split key (g.push key item) (keys ++ [last]) (key item) := by
  have hpush : g.push key item = { closed := g.closed ++ [g.current], current := [item] } := by
    rw [Grouped.push_eq h.current, if_neg hitem.ne]
  refine ⟨hpush, ?_⟩
  rw [hpush]
  refine ⟨List.rel_append h.closed (.cons h.current .nil), IsGroup.singleton key item, ?_⟩
  refine List.pairwise_append.mpr ⟨h.sorted, List.pairwise_singleton _ _, ?_⟩
  intro k hk k' hk'
  rw [List.mem_singleton.mp hk']
  rcases List.mem_append.mp hk with hold | hcurrent
  · exact (h.lt k hold).trans hitem
  · rw [List.mem_singleton.mp hcurrent]
    exact hitem

/-- The last item is of the last key. -/
theorem Split.key_getLast {key : α → κ} {items : List α} {item : α} {keys : List κ} {last : κ}
    (h : Split key (group key (items ++ [item])) keys last) : last = key item := by
  have hmem : item ∈ (group key (items ++ [item])).current := by
    rw [group_concat]
    unfold Grouped.push
    split
    · split
      · exact List.mem_append_right _ (List.mem_singleton.mpr rfl)
      · exact List.mem_singleton.mpr rfl
    · exact List.mem_singleton.mpr rfl
  exact (h.current.keyed item hmem).symm

/-- **The induction over grouped items.** A property of a sequence and the keys
of its groups that holds of one item, and is kept when an item joins the current
group and when one closes it, holds of every sequence with keys in order. -/
theorem grouped_induction {key : α → κ} {P : List α → List κ → κ → Prop}
    (hone : ∀ item, P [item] [] (key item))
    (hjoin : ∀ items keys last item, Split key (group key items) keys last →
      key item = last →
      group key (items ++ [item])
        = { group key items with current := (group key items).current ++ [item] } →
      P items keys last → P (items ++ [item]) keys last)
    (hclose : ∀ items keys last item, Split key (group key items) keys last →
      last < key item →
      group key (items ++ [item])
        = { closed := (group key items).closed ++ [(group key items).current]
            current := [item] } →
      P items keys last → P (items ++ [item]) (keys ++ [last]) (key item))
    {items : List α} (hne : items ≠ []) (hsorted : (items.map key).Pairwise (· ≤ ·)) :
    ∃ keys last, Split key (group key items) keys last ∧ P items keys last := by
  induction items using List.reverseRecOn with
  | nil => exact absurd rfl hne
  | append_singleton items item ih =>
      by_cases hfirst : items = []
      · subst hfirst
        exact ⟨[], key item, split_singleton key item, hone item⟩
      · rw [List.map_append, List.pairwise_append] at hsorted
        obtain ⟨keys, last, hsplit, hP⟩ := ih hfirst hsorted.1
        -- The last item so far is of the last key, and the new one not before it.
        have hle : last ≤ key item := by
          obtain ⟨init, before, rfl⟩ := List.eq_nil_or_concat items |>.resolve_left hfirst
          rw [List.concat_eq_append] at hsplit hsorted
          rw [hsplit.key_getLast]
          exact hsorted.2.2 _ (List.mem_map_of_mem (by simp)) _ (List.mem_singleton.mpr rfl)
        rcases hle.lt_or_eq with hlt | heq
        · obtain ⟨hpush, hsplit'⟩ := hsplit.close hlt
          rw [← group_concat] at hpush hsplit'
          exact ⟨keys ++ [last], key item, hsplit',
            hclose items keys last item hsplit hlt hpush hP⟩
        · obtain ⟨hpush, hsplit'⟩ := hsplit.join heq.symm
          rw [← group_concat] at hpush hsplit'
          exact ⟨keys, last, hsplit', hjoin items keys last item hsplit heq.symm hpush hP⟩

/-- The keys of the items are those of the groups. -/
theorem Split.mem_keys_iff {key : α → κ} {items : List α} {keys : List κ} {last : κ}
    (h : Split key (group key items) keys last) (k : κ) :
    k ∈ items.map key ↔ k ∈ keys ++ [last] := by
  have hgroups : List.Forall₂ (IsGroup key)
      ((group key items).closed ++ [(group key items).current]) (keys ++ [last]) :=
    List.rel_append h.closed (.cons h.current .nil)
  have hflat : ((group key items).closed ++ [(group key items).current]).flatten = items := by
    rw [List.flatten_append, List.flatten_singleton]
    exact flatten_group key items
  rw [← hflat]
  generalize (group key items).closed ++ [(group key items).current] = groups at hgroups
  generalize keys ++ [last] = keys' at hgroups
  clear h hflat
  induction hgroups with
  | nil => rfl
  | cons hgroup _ ih =>
      rw [List.flatten_cons, List.map_append, List.mem_append, List.mem_cons]
      exact or_congr (hgroup.mem_map_iff k) ih

/-- Sorting distinct values gives the list that is in order and has the same
members. -/
theorem insertionSort_dedup_eq {xs ys : List κ} (hsorted : ys.Pairwise (· < ·))
    (hmem : ∀ k, k ∈ xs ↔ k ∈ ys) : xs.dedup.insertionSort (· ≤ ·) = ys := by
  have hperm : xs.dedup.Perm ys := by
    refine (List.perm_ext_iff_of_nodup (List.nodup_dedup xs) (hsorted.imp fun h => h.ne)).mpr ?_
    intro k
    rw [List.mem_dedup, hmem]
  have hle : ys.Pairwise (· ≤ ·) := hsorted.imp fun h => h.le
  exact ((List.perm_insertionSort _ _).trans hperm).eq_of_pairwise
    (fun _ _ _ _ hab hba => le_antisymm hab hba) (List.pairwise_insertionSort _ _) hle

end Order

end Lib.Grouping
