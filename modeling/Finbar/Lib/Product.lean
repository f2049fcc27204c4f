/-
Finbar.Lib.Product — `itertools.product`: the ways to take one item of each list,
the last list varying fastest.

When some of the lists have extra items behind their good ones, `strayAt` is the
place of the first choice that takes an extra item: all choices before it take good
ones (`product_stray`).

No `sorry`, no `axiom`.
-/
import Mathlib.Algebra.BigOperators.Group.List.Basic
import Mathlib.Algebra.Order.BigOperators.Group.List
import Mathlib.Data.List.Forall2
import Mathlib.Data.List.Nodup

namespace Lib

variable {α ι : Type*}

/-! ## §1 The product -/

/-- `itertools.product(*lists)`. -/
def product : List (List α) → List (List α)
  | [] => [[]]
  | xs :: lists => xs.flatMap fun x => (product lists).map (x :: ·)

@[simp] theorem product_nil : product ([] : List (List α)) = [[]] := rfl

theorem product_cons (xs : List α) (lists : List (List α)) :
    product (xs :: lists) = xs.flatMap fun x => (product lists).map (x :: ·) := rfl

/-- A choice takes an item of each list. -/
theorem mem_product {lists : List (List α)} {choice : List α} :
    choice ∈ product lists ↔ List.Forall₂ (fun x xs => x ∈ xs) choice lists := by
  induction lists generalizing choice with
  | nil => simp
  | cons xs lists ih =>
      rw [product_cons, List.mem_flatMap]
      constructor
      · rintro ⟨x, hx, hchoice⟩
        obtain ⟨rest, hrest, rfl⟩ := List.mem_map.mp hchoice
        exact .cons hx (ih.mp hrest)
      · rintro (_ | ⟨hx, hrest⟩)
        exact ⟨_, hx, List.mem_map.mpr ⟨_, ih.mpr hrest, rfl⟩⟩

theorem length_product (lists : List (List α)) :
    (product lists).length = (lists.map List.length).prod := by
  induction lists with
  | nil => rfl
  | cons xs lists ih => simp [product_cons, List.length_flatMap, ih]

theorem product_ne_nil {lists : List (List α)} (h : ∀ xs ∈ lists, xs ≠ []) :
    product lists ≠ [] := by
  induction lists with
  | nil => simp
  | cons xs lists ih =>
      obtain ⟨hxs, hlists⟩ := List.forall_mem_cons.mp h
      obtain ⟨x, rest, rfl⟩ := List.exists_cons_of_ne_nil hxs
      simp [product_cons, ih hlists]

theorem nodup_product {lists : List (List α)} (h : ∀ xs ∈ lists, xs.Nodup) :
    (product lists).Nodup := by
  induction lists with
  | nil => simp
  | cons xs lists ih =>
      obtain ⟨hxs, hlists⟩ := List.forall_mem_cons.mp h
      rw [product_cons, List.nodup_flatMap]
      refine ⟨fun x _ => (ih hlists).map (List.cons_injective (a := x)), hxs.imp ?_⟩
      intro x y hxy choice hx hy
      obtain ⟨rest, -, rfl⟩ := List.mem_map.mp hx
      obtain ⟨rest', -, hrest'⟩ := List.mem_map.mp hy
      exact hxy (List.cons.inj hrest').1.symm

/-- Two relations that agree on the items on the right relate the same lists. -/
theorem forall₂_congr_of_mem {β : Type*} {R S : α → β → Prop} {as : List α} {bs : List β}
    (h : ∀ b ∈ bs, ∀ a, R a b ↔ S a b) : List.Forall₂ R as bs ↔ List.Forall₂ S as bs := by
  induction bs generalizing as with
  | nil => simp
  | cons b bs ih =>
      obtain ⟨hb, hbs⟩ := List.forall_mem_cons.mp h
      simp [List.forall₂_cons_right_iff, hb, ih hbs]

/-! ## §2 Extra items -/

section Extra

variable (good extra : ι → List α)

/-- The place of the first choice that takes an extra item, none if there is no
extra item. -/
def strayAt : List ι → Option ℕ
  | [] => none
  | r :: rs =>
      (strayAt rs).or
        (if extra r = [] then none else some ((r :: rs).map fun r => (good r).length).prod)

variable {good extra} {rs : List ι}

theorem strayAt_eq_none (h : strayAt good extra rs = none) : ∀ r ∈ rs, extra r = [] := by
  induction rs with
  | nil => simp
  | cons r rs ih =>
      obtain ⟨hrest, hextra⟩ := Option.or_eq_none_iff.mp h
      refine List.forall_mem_cons.mpr ⟨?_, ih hrest⟩
      by_contra hne
      simp [hne] at hextra

/-- Without extra items the choices are those among the good ones. -/
theorem product_of_strayAt_none (h : strayAt good extra rs = none) :
    product (rs.map fun r => good r ++ extra r) = product (rs.map good) := by
  congr 1
  refine List.map_congr_left fun r hr => ?_
  rw [strayAt_eq_none h r hr, List.append_nil]

/-- **All choices before the first stray one take good items, and that one does
not.** -/
theorem product_stray (hgood : ∀ r ∈ rs, good r ≠ [])
    (hextra : ∀ r ∈ rs, ∀ x ∈ extra r, x ∉ good r) {n : ℕ}
    (h : strayAt good extra rs = some n) :
    0 < n ∧
      (∀ choice ∈ (product (rs.map fun r => good r ++ extra r)).take n,
        choice ∈ product (rs.map good)) ∧
      ∃ choice, (product (rs.map fun r => good r ++ extra r))[n]? = some choice ∧
        choice ∉ product (rs.map good) := by
  induction rs with
  | nil => cases h
  | cons r rs ih =>
      obtain ⟨hr, hrs⟩ := List.forall_mem_cons.mp hgood
      obtain ⟨hextraR, hextraRs⟩ := List.forall_mem_cons.mp hextra
      simp only [List.map_cons, product_cons, List.flatMap_append]
      rcases hrest : strayAt good extra rs with _ | m
      · -- the stray item is one of the first list, whose good items come first
        have hne : extra r ≠ [] := by
          intro hnil
          simp [strayAt, hrest, hnil] at h
        have hn : ((r :: rs).map fun r => (good r).length).prod = n := by
          simpa [strayAt, hrest, hne] using h
        rw [product_of_strayAt_none hrest]
        have hlength : ((good r).flatMap fun x => (product (rs.map good)).map (x :: ·)).length
            = n := by
          rw [← product_cons, length_product, ← hn]
          simp [Function.comp_def]
        have hpos : 0 < n := by
          rw [← hlength, ← product_cons, ← List.map_cons]
          refine List.length_pos_of_ne_nil (product_ne_nil fun xs hxs => ?_)
          obtain ⟨s, hs, rfl⟩ := List.mem_map.mp hxs
          exact hgood s hs
        refine ⟨hpos, fun choice hchoice => ?_, ?_⟩
        · rwa [List.take_append_of_le_length hlength.ge, List.take_of_length_le hlength.le]
            at hchoice
        · obtain ⟨x, xs, hx⟩ := List.exists_cons_of_ne_nil hne
          obtain ⟨rest, rests, hrests⟩ : ∃ rest rests, product (rs.map good) = rest :: rests := by
            refine List.exists_cons_of_ne_nil (product_ne_nil fun xs hxs => ?_)
            obtain ⟨s, hs, rfl⟩ := List.mem_map.mp hxs
            exact hrs s hs
          refine ⟨x :: rest, ?_, ?_⟩
          · rw [List.getElem?_append_right hlength.le, hlength, Nat.sub_self, hx,
              List.flatMap_cons, hrests]
            rfl
          · rw [← product_cons, mem_product]
            rintro (_ | ⟨hmem, -⟩)
            exact hextraR x (by simp [hx]) hmem
      · -- the stray choice is among those that take the first good item
        have hm : m = n := by simpa [strayAt, hrest] using h
        subst hm
        obtain ⟨hpos, htake, choice, hget, hstray⟩ := ih hrs hextraRs hrest
        obtain ⟨x, xs, hx⟩ := List.exists_cons_of_ne_nil hr
        obtain ⟨hlt, -⟩ := List.getElem?_eq_some_iff.mp hget
        refine ⟨hpos, fun later hlater => ?_, x :: choice, ?_, ?_⟩
        · rw [hx, List.flatMap_cons, List.append_assoc, List.take_append_of_le_length
            (by simpa using hlt.le), ← List.map_take] at hlater
          obtain ⟨rest, hrest', rfl⟩ := List.mem_map.mp hlater
          exact List.mem_flatMap.mpr
            ⟨x, by simp [hx], List.mem_map.mpr ⟨rest, htake rest hrest', rfl⟩⟩
        · rw [hx, List.flatMap_cons, List.append_assoc,
            List.getElem?_append_left (by simpa using hlt), List.getElem?_map, hget]
          rfl
        · rw [← product_cons, mem_product]
          rintro (_ | ⟨-, hmem⟩)
          exact hstray (mem_product.mpr hmem)

end Extra

end Lib
