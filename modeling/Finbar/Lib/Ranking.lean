/-
Finbar.Lib.Ranking — stable rankings: a list sorted by a key, the largest key
first, equal keys in their original order.

`pairwise_rankBy_iff` answers, for any property of items, when no item with
the property is ranked ahead of one without it: the items without it have the
larger keys, or equal keys and the earlier places.

No `sorry`, no `axiom`.
-/
import Mathlib.Data.List.Sigma
import Mathlib.Order.Lattice

namespace Lib

variable {α κ : Type*} [LinearOrder κ]

/-- The list ranked by its keys, the best one first. -/
def rankBy (key : α → κ) (xs : List α) : List α :=
  xs.mergeSort fun a b => decide (key b ≤ key a)

variable {key : α → κ} {xs : List α}

@[simp] theorem mem_rankBy {a : α} : a ∈ rankBy key xs ↔ a ∈ xs :=
  List.mem_mergeSort

/-! ## §1 Ranked places -/

/-- Of two items with their places, the first is ranked first. -/
def Outranks (key : α → κ) (a b : α × ℕ) : Prop :=
  key b.1 < key a.1 ∨ key b.1 = key a.1 ∧ a.2 < b.2

theorem Outranks.asymm {a b : α × ℕ} (h : Outranks key a b) : ¬ Outranks key b a := by
  rintro (hlt | ⟨heq, hplace⟩)
  · rcases h with hlt' | ⟨heq', -⟩
    · exact lt_asymm hlt hlt'
    · exact absurd heq' hlt.ne'
  · rcases h with hlt' | ⟨-, hplace'⟩
    · exact absurd heq hlt'.ne'
    · omega

/-- The items with their places, ranked. -/
def rankedPlaces (key : α → κ) (xs : List α) : List (α × ℕ) :=
  xs.zipIdx.mergeSort (List.zipIdxLE fun a b => decide (key b ≤ key a))

theorem map_rankedPlaces (key : α → κ) (xs : List α) :
    (rankedPlaces key xs).map Prod.fst = rankBy key xs :=
  List.mergeSort_zipIdx

theorem mem_rankedPlaces {a : α × ℕ} : a ∈ rankedPlaces key xs ↔ xs[a.2]? = some a.1 := by
  unfold rankedPlaces
  rw [List.mem_mergeSort, List.mem_zipIdx_iff_getElem?]

/-- **A ranking is stable.** -/
theorem pairwise_rankedPlaces (key : α → κ) (xs : List α) :
    (rankedPlaces key xs).Pairwise (Outranks key) := by
  have hsorted : (rankedPlaces key xs).Pairwise fun a b =>
      List.zipIdxLE (fun a b => decide (key b ≤ key a)) a b = true := by
    refine List.pairwise_mergeSort (List.zipIdxLE_trans ?_) (List.zipIdxLE_total ?_) _
    · intro a b c hab hbc
      exact decide_eq_true ((of_decide_eq_true hbc).trans (of_decide_eq_true hab))
    · intro a b
      rcases le_total (key b) (key a) with h | h <;> simp [h]
  have hplaces : (rankedPlaces key xs).Pairwise fun a b => a.2 ≠ b.2 := by
    have hperm := (List.mergeSort_perm xs.zipIdx
      (List.zipIdxLE fun a b => decide (key b ≤ key a))).map Prod.snd
    exact List.pairwise_map.mp (hperm.nodup_iff.mpr (List.nodup_zipIdx_map_snd xs))
  refine (hsorted.and hplaces).imp ?_
  rintro a b ⟨hle, hne⟩
  simp only [List.zipIdxLE, decide_eq_true_eq] at hle
  rcases lt_trichotomy (key b.1) (key a.1) with hlt | heq | hgt
  · exact Or.inl hlt
  · rw [if_pos heq.le, if_pos heq.ge] at hle
    have := of_decide_eq_true hle
    exact Or.inr ⟨heq, by omega⟩
  · rw [if_neg (not_le.mpr hgt)] at hle
    exact absurd hle Bool.false_ne_true

/-! ## §2 Items ahead of others -/

/-- **When no item with a property is ranked ahead of one without it.** -/
theorem pairwise_rankBy_iff {P : α → Prop} :
    (rankBy key xs).Pairwise (fun a b => P a → P b) ↔
      ∀ (i j : ℕ) (hi : i < xs.length) (hj : j < xs.length), P xs[i] → ¬ P xs[j] →
        key xs[i] < key xs[j] ∨ key xs[i] = key xs[j] ∧ j < i := by
  rw [← map_rankedPlaces, List.pairwise_map]
  constructor
  · intro h i j hi hj hP hnP
    have hsorted := (pairwise_rankedPlaces key xs).and h
    -- two different places are compared in the order of the ranking
    let R (a b : α × ℕ) : Prop :=
      (Outranks key a b ∧ (P a.1 → P b.1)) ∨ (Outranks key b a ∧ (P b.1 → P a.1))
    have : Std.Symm R := ⟨fun _ _ => Or.symm⟩
    have hboth : (rankedPlaces key xs).Pairwise R := hsorted.imp Or.inl
    have hmem (k : ℕ) (hk : k < xs.length) : (xs[k], k) ∈ rankedPlaces key xs :=
      mem_rankedPlaces.mpr (List.getElem?_eq_getElem hk)
    have hne : (xs[i], i) ≠ (xs[j], j) := by
      intro heq
      have hxs : xs[i] = xs[j] := congrArg Prod.fst heq
      rw [hxs] at hP
      exact hnP hP
    rcases hboth.forall (hmem i hi) (hmem j hj) hne with ⟨-, himp⟩ | ⟨hout, -⟩
    · exact absurd (himp hP) hnP
    · exact hout
  · intro h
    refine (pairwise_rankedPlaces key xs).imp_of_mem ?_
    rintro ⟨a, i⟩ ⟨b, j⟩ ha hb hout hP
    by_contra hnP
    obtain ⟨hi, hxi⟩ := List.getElem?_eq_some_iff.mp (mem_rankedPlaces.mp ha)
    obtain ⟨hj, hxj⟩ := List.getElem?_eq_some_iff.mp (mem_rankedPlaces.mp hb)
    dsimp only at hi hj hxi hxj hP hnP
    have hback := h i j hi hj (by rwa [hxi]) (by rwa [hxj])
    rw [hxi, hxj] at hback
    exact Outranks.asymm hout hback

end Lib
