/-
Finbar.Lib.Worklist — closing a finite set under successors with a stack.

A pass pops an element and pushes those of its successors that have not been found
yet. When the successors all lie in a finite set, the loop ends (`done_of_fuel`), and
what it has found is the least set that contains the start and is closed under the
successors (`isLeast_found`).

No `sorry`, no `axiom`.
-/
import Finbar.Lib.While
import Mathlib.Data.Finset.Card
import Mathlib.Order.Bounds.Defs

namespace Lib.Worklist

variable {α : Type*} [DecidableEq α] {next : α → List α} {roots : List α}

/-! ## §1 The loop -/

/-- What has been found, and of it what has not been followed yet, the top first. -/
structure State (α : Type*) where
  found : Finset α
  stack : List α

/-- `if x not in found: found.add(x); stack.append(x)`. -/
def visit (s : State α) (x : α) : State α :=
  if x ∈ s.found then s else ⟨insert x s.found, x :: s.stack⟩

/-- A pass: the top of the stack is popped and followed. -/
def pass (next : α → List α) (s : State α) : Option (State α) :=
  match s.stack with
  | [] => none
  | x :: stack => some ((next x).foldl visit { s with stack := stack })

/-- The roots are found, and the last one is on top. -/
def start (roots : List α) : State α := ⟨roots.toFinset, roots.reverse⟩

/-! ## §2 One pass -/

/-- Following some elements finds them, and pushes what was not found before. -/
theorem foldl_visit (xs : List α) (s : State α) :
    (∀ x, x ∈ (xs.foldl visit s).found ↔ x ∈ s.found ∨ x ∈ xs)
      ∧ (∀ x ∈ s.stack, x ∈ (xs.foldl visit s).stack)
      ∧ (∀ x ∈ (xs.foldl visit s).stack, x ∈ s.stack ∨ x ∈ xs)
      ∧ ∀ x ∈ (xs.foldl visit s).found, x ∈ s.found ∨ x ∈ (xs.foldl visit s).stack := by
  induction xs generalizing s with
  | nil => exact ⟨fun x => by simp, fun _ hx => hx, fun _ hx => .inl hx, fun _ hx => .inl hx⟩
  | cons y xs ih =>
      obtain ⟨hfound, hkept, hstack, hnew⟩ := ih (visit s y)
      rw [List.foldl_cons]
      by_cases hy : y ∈ s.found
      · have hvisit : visit s y = s := if_pos hy
        rw [hvisit] at hfound hkept hstack hnew ⊢
        refine ⟨fun x => ?_, hkept,
          fun x hx => (hstack x hx).imp id (List.mem_cons_of_mem y), hnew⟩
        rw [hfound, List.mem_cons]
        grind
      · have hvisit : visit s y = ⟨insert y s.found, y :: s.stack⟩ := if_neg hy
        rw [hvisit] at hfound hkept hstack hnew ⊢
        refine ⟨fun x => ?_, fun x hx => hkept x (List.mem_cons_of_mem y hx), fun x hx => ?_,
          fun x hx => ?_⟩
        · rw [hfound, Finset.mem_insert, List.mem_cons]
          tauto
        · rcases hstack x hx with hbefore | hlater
          · rcases List.mem_cons.mp hbefore with rfl | hs
            · exact .inr List.mem_cons_self
            · exact .inl hs
          · exact .inr (List.mem_cons_of_mem y hlater)
        · rcases hnew x hx with hbefore | hlater
          · rcases Finset.mem_insert.mp hbefore with rfl | hs
            · exact .inr (hkept x List.mem_cons_self)
            · exact .inl hs
          · exact .inr hlater

/-- The elements on the stack, and those of a finite set that are not found. -/
def measure (bound : Finset α) (s : State α) : ℕ :=
  s.stack.length + (bound \ s.found).card

theorem measure_visit {bound : Finset α} {x : α} (hx : x ∈ bound) (s : State α) :
    measure bound (visit s x) = measure bound s := by
  unfold measure visit
  by_cases hfound : x ∈ s.found
  · rw [if_pos hfound]
  · have hmem : x ∈ bound \ s.found := Finset.mem_sdiff.mpr ⟨hx, hfound⟩
    have hpos := Finset.card_pos.mpr ⟨x, hmem⟩
    rw [if_neg hfound, Finset.sdiff_insert, Finset.card_erase_of_mem hmem, List.length_cons]
    omega

theorem measure_foldl_visit {bound : Finset α} {xs : List α} (hxs : ∀ x ∈ xs, x ∈ bound)
    (s : State α) : measure bound (xs.foldl visit s) = measure bound s := by
  induction xs generalizing s with
  | nil => rfl
  | cons x xs ih =>
      rw [List.foldl_cons, ih (fun y hy => hxs y (List.mem_cons_of_mem x hy)),
        measure_visit (hxs x List.mem_cons_self)]

/-- **The loop ends** after as many passes as there are roots and elements of a finite
set that has all successors. -/
theorem done_of_fuel {bound : Finset α} (h : ∀ x, ∀ y ∈ next x, y ∈ bound) {fuel : ℕ}
    (hfuel : roots.length + bound.card ≤ fuel) :
    pass next (While.run (pass next) fuel (start roots)) = none := by
  refine While.done_of_measure (I := fun _ => True) (measure bound) ?_ trivial ?_
  · rintro ⟨found, stack⟩ t - hpass
    cases stack with
    | nil => cases hpass
    | cons x stack =>
        obtain rfl := Option.some.inj hpass
        refine ⟨trivial, ?_⟩
        rw [measure_foldl_visit (h x)]
        simp [measure]
  · have hcard : (bound \ roots.toFinset).card ≤ bound.card :=
      Finset.card_le_card Finset.sdiff_subset
    simp only [measure, start, List.length_reverse]
    omega

/-! ## §3 The least closed set -/

/-- The sets that contain the roots and are closed under the successors. -/
def closedSets (next : α → List α) (roots : List α) : Set (Set α) :=
  {S | (∀ x ∈ roots, x ∈ S) ∧ ∀ x ∈ S, ∀ y ∈ next x, y ∈ S}

/-- **The invariant**: the roots are found, what is found lies in every closed set, and
all but the elements on the stack have been followed. -/
structure Invariant (next : α → List α) (roots : List α) (s : State α) : Prop where
  rooted : ∀ x ∈ roots, x ∈ s.found
  stack : ∀ x ∈ s.stack, x ∈ s.found
  least : ∀ S ∈ closedSets next roots, ∀ x ∈ s.found, x ∈ S
  followed : ∀ x ∈ s.found, x ∈ s.stack ∨ ∀ y ∈ next x, y ∈ s.found

theorem invariant_start (next : α → List α) (roots : List α) :
    Invariant next roots (start roots) where
  rooted := fun _ hx => List.mem_toFinset.mpr hx
  stack := fun _ hx => List.mem_toFinset.mpr (List.mem_reverse.mp hx)
  least := fun _ hS x hx => hS.1 x (List.mem_toFinset.mp hx)
  followed := fun _ hx => .inl (List.mem_reverse.mpr (List.mem_toFinset.mp hx))

theorem Invariant.pass {s t : State α} (h : Invariant next roots s)
    (hpass : pass next s = some t) : Invariant next roots t := by
  obtain ⟨found, stack⟩ := s
  cases stack with
  | nil => cases hpass
  | cons x stack =>
      obtain rfl := Option.some.inj hpass
      obtain ⟨hfound, hkept, hstack, hnew⟩ := foldl_visit (next x) ⟨found, stack⟩
      have hx : x ∈ found := h.stack x List.mem_cons_self
      refine ⟨fun y hy => (hfound y).mpr (.inl (h.rooted y hy)), fun y hy => ?_,
        fun S hS y hy => ?_, fun y hy => ?_⟩
      · rcases hstack y hy with hbefore | hpushed
        · exact (hfound y).mpr (.inl (h.stack y (List.mem_cons_of_mem x hbefore)))
        · exact (hfound y).mpr (.inr hpushed)
      · rcases (hfound y).mp hy with hbefore | hfollowed
        · exact h.least S hS y hbefore
        · exact hS.2 x (h.least S hS x hx) y hfollowed
      · rcases hnew y hy with hbefore | hpushed
        · rcases h.followed y hbefore with hwaiting | hdone
          · rcases List.mem_cons.mp hwaiting with rfl | hrest
            · exact .inr fun z hz => (hfound z).mpr (.inr hz)
            · exact .inl (hkept y hrest)
          · exact .inr fun z hz => (hfound z).mpr (.inl (hdone z hz))
        · exact .inl hpushed

/-- **When the loop has ended**, what it has found is the least set that contains the
roots and is closed under the successors. -/
theorem isLeast_found {fuel : ℕ}
    (hdone : pass next (While.run (pass next) fuel (start roots)) = none) :
    IsLeast (closedSets next roots)
      {x | x ∈ (While.run (pass next) fuel (start roots)).found} := by
  have hinvariant := While.run_invariant (I := Invariant next roots)
    (fun s t h hpass => h.pass hpass) (invariant_start next roots) fuel
  have hstack : (While.run (pass next) fuel (start roots)).stack = [] := by
    unfold pass at hdone
    split at hdone
    · assumption
    · cases hdone
  refine ⟨⟨hinvariant.rooted, fun x hx => ?_⟩, fun S hS x hx => hinvariant.least S hS x hx⟩
  rcases hinvariant.followed x hx with hwaiting | hdone
  · rw [hstack] at hwaiting
    cases hwaiting
  · exact hdone

end Lib.Worklist
