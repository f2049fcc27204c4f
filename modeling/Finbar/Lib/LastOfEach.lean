/-
Finbar.Lib.LastOfEach — the last item of each key.

`lastOfEach key xs` keeps an item exactly if no later one has its key. A
dictionary that is assigned the items one after the other holds them
(`items_foldl_assign`) as long as the items of a key stand together. Two ways of
grouping, one coarser than the other, keep the same items exactly if they agree
on them (`map_lastOfEach_eq_iff`).

No `sorry`, no `axiom`.
-/
import Finbar.Lib.OrderedDict

namespace Lib

variable {α β κ ι : Type} [DecidableEq κ] [DecidableEq ι] {key : α → κ} {xs : List α} {x : α}

/-! ## §1 Keeping the last -/

/-- The items after which none has their key. -/
def lastOfEach (key : α → κ) : List α → List α
  | [] => []
  | x :: xs => if key x ∈ xs.map key then lastOfEach key xs else x :: lastOfEach key xs

/-- The items kept stand in their order. -/
theorem lastOfEach_sublist (key : α → κ) (xs : List α) : (lastOfEach key xs).Sublist xs := by
  induction xs with
  | nil => exact List.Sublist.refl _
  | cons x xs ih =>
      rw [lastOfEach]
      split
      · exact ih.cons x
      · exact ih.cons_cons x

/-- No key is kept twice. -/
theorem nodup_lastOfEach (key : α → κ) (xs : List α) : ((lastOfEach key xs).map key).Nodup := by
  induction xs with
  | nil => exact List.nodup_nil
  | cons x xs ih =>
      rw [lastOfEach]
      split
      · exact ih
      · next hnew =>
          rw [List.map_cons, List.nodup_cons]
          exact ⟨fun hmem => hnew (((lastOfEach_sublist key xs).map key).subset hmem), ih⟩

/-- No key is lost. -/
theorem mem_keys_lastOfEach {k : κ} : k ∈ (lastOfEach key xs).map key ↔ k ∈ xs.map key := by
  induction xs with
  | nil => rfl
  | cons x xs ih =>
      rw [lastOfEach, List.map_cons, List.mem_cons]
      split
      · next hlater =>
          rw [ih]
          exact ⟨.inr, fun h => h.elim (fun hk => hk ▸ hlater) id⟩
      · rw [List.map_cons, List.mem_cons, ih]

/-- A new last item replaces those of its key. -/
theorem lastOfEach_concat (key : α → κ) (xs : List α) (x : α) :
    lastOfEach key (xs ++ [x]) =
      (lastOfEach key xs).filter (fun y => key y ≠ key x) ++ [x] := by
  induction xs with
  | nil => rfl
  | cons y xs ih =>
      have hmem : key y ∈ (xs ++ [x]).map key ↔ key y ∈ xs.map key ∨ key y = key x := by
        rw [List.map_append, List.mem_append, List.map_singleton, List.mem_singleton]
      rw [List.cons_append, lastOfEach, lastOfEach, ih]
      by_cases hlater : key y ∈ xs.map key
      · rw [if_pos (hmem.mpr (.inl hlater)), if_pos hlater]
      · by_cases hx : key y = key x
        · rw [if_pos (hmem.mpr (.inr hx)), if_neg hlater,
            List.filter_cons_of_neg (by simpa using hx)]
        · rw [if_neg (hmem.not.mpr (not_or.mpr ⟨hlater, hx⟩)), if_neg hlater,
            List.filter_cons_of_pos (by simpa using hx), List.cons_append]

/-- Keys that agree on the items keep the same ones. -/
theorem lastOfEach_congr {rank : α → ι} (h : ∀ p ∈ xs, ∀ q ∈ xs, key p = key q ↔ rank p = rank q) :
    lastOfEach key xs = lastOfEach rank xs := by
  induction xs with
  | nil => rfl
  | cons x xs ih =>
      have hmem : key x ∈ xs.map key ↔ rank x ∈ xs.map rank := by
        rw [List.mem_map, List.mem_map]
        exact exists_congr fun p => and_congr_right fun hp =>
          h p (List.mem_cons_of_mem x hp) x List.mem_cons_self
      rw [lastOfEach, lastOfEach, ih fun p hp q hq =>
        h p (List.mem_cons_of_mem x hp) q (List.mem_cons_of_mem x hq)]
      exact if_congr hmem rfl rfl

/-- **A coarser key keeps the same items** exactly if it tells apart what the finer
one does. It is enough to see of an item what determines its key. -/
theorem map_lastOfEach_eq_iff {coarse : α → ι} {see : α → β}
    (hcoarse : ∀ p q, key p = key q → coarse p = coarse q)
    (hsee : ∀ p q, see p = see q → key p = key q) :
    (lastOfEach key xs).map see = (lastOfEach coarse xs).map see ↔
      ∀ p ∈ xs, ∀ q ∈ xs, coarse p = coarse q → key p = key q := by
  constructor
  · intro h p hp q hq hpq
    -- An item of each key is among those that the coarser key keeps.
    have hkept (r : α) (hr : r ∈ xs) : ∃ r' ∈ lastOfEach coarse xs, key r' = key r := by
      obtain ⟨r₁, hr₁, hkey⟩ :=
        List.mem_map.mp ((@mem_keys_lastOfEach _ _ _ key xs _).mpr (List.mem_map_of_mem hr))
      have hseen : see r₁ ∈ (lastOfEach coarse xs).map see := h ▸ List.mem_map_of_mem hr₁
      obtain ⟨r₂, hr₂, hsame⟩ := List.mem_map.mp hseen
      exact ⟨r₂, hr₂, (hsee _ _ hsame).trans hkey⟩
    obtain ⟨p', hp', hkeyp⟩ := hkept p hp
    obtain ⟨q', hq', hkeyq⟩ := hkept q hq
    have hsame : coarse p' = coarse q' :=
      (hcoarse _ _ hkeyp).trans (hpq.trans (hcoarse _ _ hkeyq).symm)
    rw [← hkeyp, ← hkeyq, List.inj_on_of_nodup_map (nodup_lastOfEach coarse xs) hp' hq' hsame]
  · intro h
    have hsame : ∀ p ∈ xs, ∀ q ∈ xs, key p = key q ↔ coarse p = coarse q :=
      fun p hp q hq => ⟨hcoarse p q, h p hp q hq⟩
    rw [lastOfEach_congr hsame]

/-! ## §2 In a dictionary -/

namespace OrderedDict

/-- Assigning to the last key replaces its value. -/
theorem assignItems_concat {items : List (κ × β)} {k : κ} (h : k ∉ items.map Prod.fst)
    (old value : β) : assignItems (items ++ [(k, old)]) k value = items ++ [(k, value)] := by
  induction items with
  | nil => exact if_pos rfl
  | cons entry items ih =>
      rw [List.map_cons, List.mem_cons, not_or] at h
      rw [List.cons_append, assignItems, if_neg (Ne.symm h.1), ih h.2, List.cons_append]

/-- **The last of each key in a dictionary**, for items whose keys come one after the
other. -/
theorem items_foldl_assign (value : α → β) {rank : α → ℕ}
    (hsorted : xs.Pairwise fun p q => rank p ≤ rank q)
    (hkey : ∀ p ∈ xs, ∀ q ∈ xs, key p = key q ↔ rank p = rank q) :
    (xs.foldl (fun d p => d.assign (key p) (value p)) ({} : OrderedDict κ β)).items =
      (lastOfEach key xs).map fun p => (key p, value p) := by
  induction xs using List.reverseRecOn with
  | nil => rfl
  | append_singleton xs x ih =>
      have hxs := List.pairwise_append.mp hsorted
      have hkeep : ∀ p ∈ xs, p ∈ xs ++ [x] := fun p hp => List.mem_append_left _ hp
      have hitems := ih hxs.1 fun p hp q hq => hkey p (hkeep p hp) q (hkeep q hq)
      have hx : x ∈ xs ++ [x] := List.mem_append_right _ (List.mem_singleton.mpr rfl)
      rw [List.foldl_append]
      refine (congrArg (fun items => assignItems items (key x) (value x)) hitems).trans ?_
      rw [lastOfEach_concat]
      have hkeys (ys : List α) : (ys.map fun p => (key p, value p)).map Prod.fst = ys.map key := by
        rw [List.map_map]
        rfl
      by_cases hmem : key x ∈ xs.map key
      · -- The key is that of the last item so far, which the new one replaces.
        obtain ⟨p, hp, hpx⟩ := List.mem_map.mp hmem
        obtain ⟨ys, y, rfl⟩ := List.eq_nil_or_concat xs |>.resolve_left (List.ne_nil_of_mem hp)
        rw [List.concat_eq_append] at *
        have hy : y ∈ ys ++ [y] := List.mem_append_right _ (List.mem_singleton.mpr rfl)
        have hrank : rank y = rank x := by
          have hpy : rank p ≤ rank y := by
            rcases List.mem_append.mp hp with hp | hp
            · exact (List.pairwise_append.mp hxs.1).2.2 p hp y (List.mem_singleton.mpr rfl)
            · exact Nat.le_of_eq (congrArg rank (List.mem_singleton.mp hp))
          have hyx := hxs.2.2 y hy x (List.mem_singleton.mpr rfl)
          have hpx' := (hkey p (hkeep p hp) x hx).mp hpx
          omega
        have hyx : key y = key x := (hkey y (hkeep y hy) x hx).mpr hrank
        rw [lastOfEach_concat, hyx]
        generalize hkept : (lastOfEach key ys).filter (fun z => key z ≠ key x) = kept
        have hnot : ∀ z ∈ kept, key z ≠ key x := by
          intro z hz
          rw [← hkept] at hz
          simpa using (List.mem_filter.mp hz).2
        have hfresh : key x ∉ (kept.map fun p => (key p, value p)).map Prod.fst := by
          rw [hkeys]
          intro hmem
          obtain ⟨z, hz, hzx⟩ := List.mem_map.mp hmem
          exact hnot z hz hzx
        have hfilter : (kept ++ [y]).filter (fun z => key z ≠ key x) = kept := by
          rw [List.filter_append, List.filter_eq_self.mpr fun z hz => by simpa using hnot z hz,
            List.filter_cons_of_neg (by simpa using hyx), List.filter_nil, List.append_nil]
        rw [hfilter, List.map_append, List.map_append, List.map_singleton, List.map_singleton, hyx,
          assignItems_concat hfresh]
      · have hfresh : key x ∉ ((lastOfEach key xs).map fun p => (key p, value p)).map Prod.fst := by
          rw [hkeys, mem_keys_lastOfEach]
          exact hmem
        have hfilter : (lastOfEach key xs).filter (fun y => key y ≠ key x) = lastOfEach key xs := by
          refine List.filter_eq_self.mpr fun y hy => ?_
          rw [decide_eq_true_eq]
          intro hyx
          exact hmem (hyx ▸ List.mem_map_of_mem ((lastOfEach_sublist key xs).subset hy))
        rw [assignItems_of_not_mem hfresh, hfilter, List.map_append, List.map_singleton]

end OrderedDict

end Lib
