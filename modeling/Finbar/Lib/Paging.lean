/-
Finbar.Lib.Paging — reading a timed list page by page.

A page holds the entries of a closed span of time, so that two neighbouring
pages share the entry between them, and `keepFirst` drops the second copy.
Going forwards, the pages add up to the span that they cover
(`keepFirst_append_page`). Going backwards until a page is empty, and turning
the whole around at the end, gives the pages in order of time but each of them
reversed: `backward_eq_iff` says when that is the span.

No `sorry`, no `axiom`.
-/
import Mathlib.Data.List.Basic
import Mathlib.Data.List.Nodup
import Mathlib.Data.List.Flatten
import Mathlib.Data.Int.Order.Lemmas
import Mathlib.Order.Lattice
import Mathlib.Tactic.Linarith
import Mathlib.Tactic.Ring

namespace Lib.Paging

/-! ## §1 Keeping the first -/

section KeepFirst

variable {α β κ κ' : Type} [DecidableEq κ] [DecidableEq κ'] {key : α → κ}

/-- The entries whose key is not seen before. -/
def keepFirst (key : α → κ) : List κ → List α → List α
  | _, [] => []
  | seen, a :: as =>
      if key a ∈ seen then keepFirst key seen as
      else a :: keepFirst key (key a :: seen) as

/-- Only which keys are seen matters. -/
theorem keepFirst_congr {seen seen' : List κ} (h : ∀ k, k ∈ seen ↔ k ∈ seen') (as : List α) :
    keepFirst key seen as = keepFirst key seen' as := by
  induction as generalizing seen seen' with
  | nil => rfl
  | cons a as ih =>
      rw [keepFirst, keepFirst]
      by_cases hseen : key a ∈ seen
      · rw [if_pos hseen, if_pos ((h _).mp hseen)]
        exact ih h
      · rw [if_neg hseen, if_neg fun hc => hseen ((h _).mpr hc)]
        refine congrArg (a :: ·) (ih fun k => ?_)
        rw [List.mem_cons, List.mem_cons, h]

theorem keepFirst_append (seen : List κ) (as bs : List α) :
    keepFirst key seen (as ++ bs)
      = keepFirst key seen as ++ keepFirst key (as.map key ++ seen) bs := by
  induction as generalizing seen with
  | nil => rfl
  | cons a as ih =>
      rw [List.cons_append, keepFirst, keepFirst]
      split
      · rename_i hseen
        rw [ih]
        refine congrArg (_ ++ ·) (keepFirst_congr (fun k => ?_) bs)
        simp only [List.map_cons, List.mem_append, List.mem_cons]
        constructor
        · rintro (hk | hk)
          · exact .inl (.inr hk)
          · exact .inr hk
        · rintro ((rfl | hk) | hk)
          · exact .inr hseen
          · exact .inl hk
          · exact .inr hk
      · rw [ih, List.cons_append]
        refine congrArg (fun rest => a :: (_ ++ rest)) (keepFirst_congr (fun k => ?_) bs)
        simp only [List.map_cons, List.mem_append, List.mem_cons]
        tauto

/-- Entries of distinct keys lose only what is seen. -/
theorem keepFirst_of_nodup {as : List α} (h : (as.map key).Nodup) (seen : List κ) :
    keepFirst key seen as = as.filter fun a => decide (key a ∉ seen) := by
  induction as generalizing seen with
  | nil => rfl
  | cons a as ih =>
      rw [List.map_cons, List.nodup_cons] at h
      rw [keepFirst]
      split
      · rename_i hseen
        rw [ih h.2, List.filter_cons_of_neg (by simpa using hseen)]
      · rename_i hseen
        rw [ih h.2, List.filter_cons_of_pos (by simpa using hseen)]
        refine congrArg (a :: ·) (List.filter_congr fun b hb => ?_)
        have hne : key b ≠ key a := fun heq => h.1 (heq ▸ List.mem_map_of_mem hb)
        simp [hne]

/-- Distinct keys after others. -/
theorem keepFirst_append_of_nodup {bs : List α} (h : (bs.map key).Nodup) (as : List α) :
    keepFirst key [] (as ++ bs)
      = keepFirst key [] as ++ bs.filter fun b => decide (key b ∉ as.map key) := by
  rw [keepFirst_append, keepFirst_of_nodup h, List.append_nil]

theorem keepFirst_sublist (seen : List κ) (as : List α) :
    (keepFirst key seen as).Sublist as := by
  induction as generalizing seen with
  | nil => exact .slnil
  | cons a as ih =>
      rw [keepFirst]
      split
      · exact (ih seen).cons a
      · exact (ih _).cons_cons a

/-- What is kept has the keys of all. -/
theorem mem_map_keepFirst {seen : List κ} {as : List α} {k : κ} :
    k ∈ (keepFirst key seen as).map key ↔ k ∈ as.map key ∧ k ∉ seen := by
  induction as generalizing seen with
  | nil => simp [keepFirst]
  | cons a as ih =>
      rw [keepFirst, List.map_cons, List.mem_cons]
      split
      · rename_i hseen
        rw [ih]
        constructor
        · rintro ⟨hk, hnot⟩
          exact ⟨.inr hk, hnot⟩
        · rintro ⟨rfl | hk, hnot⟩
          · exact absurd hseen hnot
          · exact ⟨hk, hnot⟩
      · rename_i hseen
        rw [List.map_cons, List.mem_cons, ih, List.mem_cons, not_or]
        constructor
        · rintro (rfl | ⟨hk, -, hnot⟩)
          · exact ⟨.inl rfl, hseen⟩
          · exact ⟨.inr hk, hnot⟩
        · rintro ⟨hk, hnot⟩
          by_cases heq : k = key a
          · exact .inl heq
          · exact .inr ⟨hk.resolve_left heq, heq, hnot⟩

/-- Keys that tell the same entries apart keep the same. -/
theorem keepFirst_map {f : β → α} {key' : β → κ'} {seen bs : List β}
    (h : ∀ a ∈ seen ++ bs, ∀ b ∈ bs, key (f a) = key (f b) ↔ key' a = key' b) :
    keepFirst key (seen.map fun b => key (f b)) (bs.map f)
      = (keepFirst key' (seen.map key') bs).map f := by
  induction bs generalizing seen with
  | nil => rfl
  | cons b bs ih =>
      have hseen : key (f b) ∈ seen.map (fun b => key (f b)) ↔ key' b ∈ seen.map key' := by
        simp only [List.mem_map]
        refine exists_congr fun a => and_congr_right fun ha => ?_
        exact h a (List.mem_append_left _ ha) b List.mem_cons_self
      rw [List.map_cons, keepFirst, keepFirst]
      by_cases hb : key' b ∈ seen.map key'
      · rw [if_pos hb, if_pos (hseen.mpr hb)]
        refine ih fun a ha c hc => h a ?_ c (List.mem_cons_of_mem _ hc)
        rcases List.mem_append.mp ha with ha | ha
        · exact List.mem_append_left _ ha
        · exact List.mem_append_right _ (List.mem_cons_of_mem _ ha)
      · rw [if_neg hb, if_neg fun hc => hb (hseen.mp hc), List.map_cons]
        refine congrArg (f b :: ·) (@ih (b :: seen) fun a ha c hc => h a ?_ c
          (List.mem_cons_of_mem _ hc))
        rcases List.mem_append.mp ha with ha | ha
        · rcases List.mem_cons.mp ha with rfl | ha
          · exact List.mem_append_right _ List.mem_cons_self
          · exact List.mem_append_left _ ha
        · exact List.mem_append_right _ (List.mem_cons_of_mem _ ha)

end KeepFirst

/-! ## §2 Spans -/

section Spans

variable {α τ : Type} [LinearOrder τ] {time : α → τ} {history : List α} {lo mid hi : τ}

/-- Times increase along the list. -/
def Ascending (time : α → τ) (as : List α) : Prop :=
  as.Pairwise fun a b => time a < time b

/-- The entries from `lo` to `hi`, both included. -/
def between (time : α → τ) (history : List α) (lo hi : τ) : List α :=
  history.filter fun a => decide (lo ≤ time a ∧ time a ≤ hi)

/-- The entries after `lo` up to `hi`. -/
def after (time : α → τ) (history : List α) (lo hi : τ) : List α :=
  history.filter fun a => decide (lo < time a ∧ time a ≤ hi)

theorem mem_between {a : α} :
    a ∈ between time history lo hi ↔ a ∈ history ∧ lo ≤ time a ∧ time a ≤ hi := by
  simp [between]

theorem mem_after {a : α} :
    a ∈ after time history lo hi ↔ a ∈ history ∧ lo < time a ∧ time a ≤ hi := by
  simp [after]

theorem Ascending.nodup {as : List α} (h : Ascending time as) : (as.map time).Nodup :=
  List.pairwise_map.mpr (h.imp ne_of_lt)

theorem Ascending.between (h : Ascending time history) (lo hi : τ) :
    Ascending time (between time history lo hi) :=
  h.filter _

theorem Ascending.after (h : Ascending time history) (lo hi : τ) :
    Ascending time (after time history lo hi) :=
  h.filter _

/-- Two spans make one. -/
theorem between_append_after (h : Ascending time history) (hlo : lo ≤ mid) (hhi : mid ≤ hi) :
    between time history lo mid ++ after time history mid hi = between time history lo hi := by
  induction history with
  | nil => rfl
  | cons a history ih =>
      obtain ⟨hfirst, hrest⟩ := List.pairwise_cons.mp h
      have ih := ih hrest
      unfold between after at ih ⊢
      rcases le_or_gt (time a) mid with hmid | hmid
      · -- An entry up to `mid` is none of the second span.
        have hnot : ¬(mid < time a ∧ time a ≤ hi) := fun hc => absurd hmid (not_le.mpr hc.1)
        rw [List.filter_cons_of_neg (p := fun a => decide (mid < time a ∧ time a ≤ hi))
          (by simpa using hnot)]
        by_cases hin : lo ≤ time a
        · rw [List.filter_cons_of_pos (by simpa using ⟨hin, hmid⟩),
            List.filter_cons_of_pos (by simpa using ⟨hin, hmid.trans hhi⟩), List.cons_append, ih]
        · rw [List.filter_cons_of_neg (by simp [hin]), List.filter_cons_of_neg (by simp [hin]), ih]
      · -- From an entry after `mid` on, the first span is empty.
        have hempty : ∀ b ∈ a :: history, ¬(lo ≤ time b ∧ time b ≤ mid) := by
          rintro b hb ⟨-, hle⟩
          rcases List.mem_cons.mp hb with rfl | hb
          · exact absurd hmid (not_lt.mpr hle)
          · exact absurd (hmid.trans (hfirst b hb)) (not_lt.mpr hle)
        rw [List.filter_eq_nil_iff.mpr fun b hb => by simpa using hempty b hb, List.nil_append]
        refine List.filter_congr fun b hb => ?_
        have hb : mid < time b := by
          rcases List.mem_cons.mp hb with rfl | hb
          · exact hmid
          · exact hmid.trans (hfirst b hb)
        simp [hb, (hlo.trans_lt hb).le]

/-- **One page forwards.** Entries that add up to a span add up to a longer one
with the page that begins where it ends. -/
theorem keepFirst_append_page (h : Ascending time history) (hlo : lo ≤ mid) (hhi : mid ≤ hi)
    {read : List α} (hread : keepFirst time [] read = between time history lo mid) :
    keepFirst time [] (read ++ between time history mid hi) = between time history lo hi := by
  rw [keepFirst_append_of_nodup (h.between mid hi).nodup, hread,
    ← between_append_after h hlo hhi]
  refine congrArg (between time history lo mid ++ ·) ?_
  unfold between after
  rw [List.filter_filter]
  refine List.filter_congr fun a ha => ?_
  have hseen : time a ∈ read.map time ↔ lo ≤ time a ∧ time a ≤ mid := by
    have hkept : time a ∈ (keepFirst time [] read).map time ↔ time a ∈ read.map time := by
      rw [mem_map_keepFirst, and_iff_left List.not_mem_nil]
    rw [← hkept, hread, List.mem_map]
    constructor
    · rintro ⟨b, hb, heq⟩
      rw [← heq]
      exact (mem_between.mp hb).2
    · intro hle
      exact ⟨a, mem_between.mpr ⟨ha, hle⟩, rfl⟩
  rw [← Bool.decide_and, decide_eq_decide, hseen]
  constructor
  · rintro ⟨hnot, hmid, hle⟩
    exact ⟨lt_of_not_ge fun hc => hnot ⟨hlo.trans hmid, hc⟩, hle⟩
  · rintro ⟨hlt, hle⟩
    exact ⟨fun hc => absurd hlt (not_lt.mpr hc.2), hlt.le, hle⟩

end Spans

/-! ## §3 Backwards -/

section Backwards

variable {α : Type} {time : α → ℤ} {history : List α} {chunk : ℤ}

/-- The pages from `hi` backwards, up to an empty one; at most so many. -/
def backward (page : ℤ → ℤ → List α) (chunk : ℤ) : ℕ → ℤ → List α
  | 0, _ => []
  | n + 1, hi =>
      let entries := page (hi - chunk) hi
      if entries = [] then [] else entries ++ backward page chunk n (hi - chunk)

/-- The entries of every page that are in no older one, the oldest page first. -/
def pieces (time : α → ℤ) (history : List α) (chunk : ℤ) : ℕ → ℤ → List (List α)
  | 0, _ => []
  | 1, hi => [between time history (hi - chunk) hi]
  | n + 2, hi =>
      pieces time history chunk (n + 1) (hi - chunk) ++ [after time history (hi - chunk) hi]

/-- The page on which a time is new, counted backwards. -/
def pageOf (chunk : ℤ) (last : ℕ) (hi t : ℤ) : ℤ :=
  min ((hi - t) / chunk) last

/-- No two neighbouring entries are as far apart as a page is long. -/
def Gapless (time : α → ℤ) (history : List α) (chunk : ℤ) : Prop :=
  history.IsChain fun a b => time b - time a < chunk

theorem mem_backward {n : ℕ} {hi : ℤ} (hchunk : 0 ≤ chunk) {a : α}
    (h : a ∈ backward (between time history) chunk n hi) : a ∈ history ∧ time a ≤ hi := by
  induction n generalizing hi with
  | zero => cases h
  | succ n ih =>
      rw [backward] at h
      split at h
      · cases h
      · rcases List.mem_append.mp h with hpage | hrest
        · obtain ⟨hmem, -, hle⟩ := mem_between.mp hpage
          exact ⟨hmem, hle⟩
        · obtain ⟨hmem, hle⟩ := ih hrest
          exact ⟨hmem, by omega⟩

/-- The pieces make up the span. -/
theorem flatten_pieces (h : Ascending time history) (hchunk : 0 ≤ chunk) (n : ℕ) (hi : ℤ) :
    (pieces time history chunk (n + 1) hi).flatten
      = between time history (hi - (n + 1) * chunk) hi := by
  induction n generalizing hi with
  | zero => simp [pieces]
  | succ n ih =>
      rw [pieces, List.flatten_append, ih, List.flatten_singleton]
      have hlo : hi - chunk - (n + 1) * chunk = hi - ((n + 1 : ℕ) + 1) * chunk := by
        push_cast
        ring
      rw [hlo]
      refine between_append_after h ?_ (by omega)
      have hpages : 0 ≤ ((n + 1 : ℕ) : ℤ) * chunk := by positivity
      push_cast at hpages ⊢
      linarith

/-- Between an entry before a page and one after it lies an entry of the page. -/
theorem exists_mem_page (h : Gapless time history chunk) (hchunk : 0 ≤ chunk) {lo hi : ℤ}
    (hpage : lo + chunk ≤ hi) (hasc : Ascending time history) {a b : α}
    (ha : a ∈ history) (hb : b ∈ history) (halo : time a < lo) (hhib : hi < time b) :
    between time history lo hi ≠ [] := by
  suffices hc : ∃ c ∈ history, lo ≤ time c ∧ time c ≤ hi by
    obtain ⟨c, hmem, hin⟩ := hc
    exact List.ne_nil_of_mem (mem_between.mpr ⟨hmem, hin⟩)
  induction history generalizing a with
  | nil => cases ha
  | cons first rest ih =>
      obtain ⟨hfirst, hrest⟩ := List.pairwise_cons.mp hasc
      have hfirstLo : time first < lo := by
        rcases List.mem_cons.mp ha with rfl | ha
        · exact halo
        · exact (hfirst a ha).trans halo
      cases rest with
      | nil =>
          rw [List.mem_singleton.mp hb] at hhib
          omega
      | cons second rest =>
          obtain ⟨hgap, hgapless⟩ := List.isChain_cons_cons.mp h
          rcases lt_or_ge (time second) lo with hbefore | hin
          · have hb : b ∈ second :: rest := by
              rcases List.mem_cons.mp hb with rfl | hb
              · omega
              · exact hb
            obtain ⟨c, hmem, hc⟩ := ih hgapless hrest List.mem_cons_self hb hbefore
            exact ⟨c, List.mem_cons_of_mem _ hmem, hc⟩
          · exact ⟨second, List.mem_cons_of_mem _ List.mem_cons_self, hin, by omega⟩

/-- An empty page with an entry after it has none before it. -/
theorem between_eq_nil_of_gapless (h : Gapless time history chunk) (hchunk : 0 ≤ chunk)
    (hasc : Ascending time history) {lo mid : ℤ}
    (hempty : between time history (mid - chunk) mid = [])
    (hentry : ∃ a ∈ history, mid ≤ time a) : between time history lo mid = [] := by
  have hnotPage : ∀ c ∈ history, ¬(mid - chunk ≤ time c ∧ time c ≤ mid) := by
    intro c hc hin
    have hpage := mem_between.mpr ⟨hc, hin⟩
    rw [hempty] at hpage
    cases hpage
  by_contra hne
  obtain ⟨b, hb⟩ := List.exists_mem_of_ne_nil _ hne
  obtain ⟨hmem, -, hle⟩ := mem_between.mp hb
  obtain ⟨a, ha, hmid⟩ := hentry
  have hbefore : time b < mid - chunk := by
    have := hnotPage b hmem
    omega
  have hafter : mid < time a := by
    have := hnotPage a ha
    omega
  exact exists_mem_page h hchunk (by omega) hasc hmem ha hbefore hafter hempty

/-- Of a page, the older pages have the entry on the boundary. -/
theorem mem_times_backward (hchunk : 0 ≤ chunk) (n : ℕ) {lo : ℤ} {a : α} (ha : a ∈ history)
    (hlo : lo ≤ time a) :
    time a ∈ (backward (between time history) chunk (n + 1) lo).map time ↔ time a = lo := by
  constructor
  · intro hmem
    obtain ⟨b, hb, heq⟩ := List.mem_map.mp hmem
    have hle := (mem_backward hchunk hb).2
    omega
  · intro heq
    have hpage : a ∈ between time history (lo - chunk) lo :=
      mem_between.mpr ⟨ha, by omega, heq.le⟩
    rw [backward, if_neg (List.ne_nil_of_mem hpage)]
    exact List.mem_map_of_mem (List.mem_append_left _ hpage)

/-- The rest of the page comes after it. -/
theorem filter_page (hchunk : 0 ≤ chunk) (n : ℕ) (lo hi : ℤ) :
    ((between time history lo hi).filter fun a =>
        decide (time a ∉ (backward (between time history) chunk (n + 1) lo).reverse.map time))
      = after time history lo hi := by
  have hseen : ∀ a ∈ history, lo ≤ time a →
      (time a ∈ (backward (between time history) chunk (n + 1) lo).reverse.map time ↔
        time a = lo) := by
    intro a ha hlo
    rw [List.map_reverse, List.mem_reverse]
    exact mem_times_backward hchunk n ha hlo
  generalize (backward (between time history) chunk (n + 1) lo).reverse.map time = seen at hseen ⊢
  unfold between after
  rw [List.filter_filter]
  refine List.filter_congr fun a ha => ?_
  rw [← Bool.decide_and, decide_eq_decide]
  constructor
  · rintro ⟨hnot, hle, hhi⟩
    exact ⟨lt_of_le_of_ne hle fun heq => hnot ((hseen a ha hle).mpr heq.symm), hhi⟩
  · rintro ⟨hlt, hhi⟩
    exact ⟨fun hmem => hlt.ne' ((hseen a ha hlt.le).mp hmem), hlt.le, hhi⟩

/-- What the pages backwards, turned around, keep: the pieces, each turned
around. -/
theorem keepFirst_backward (h : Ascending time history) (hgapless : Gapless time history chunk)
    (hchunk : 0 ≤ chunk) (n : ℕ) (hi : ℤ)
    (hfirst : between time history (hi - (n + 1) * chunk) hi = [] ∨
      between time history (hi - chunk) hi ≠ []) :
    keepFirst time [] (backward (between time history) chunk (n + 1) hi).reverse
      = ((pieces time history chunk (n + 1) hi).map List.reverse).flatten := by
  have hreverse : ((between time history (hi - chunk) hi).reverse.map time).Nodup := by
    rw [List.map_reverse]
    exact List.nodup_reverse.mpr (h.between (hi - chunk) hi).nodup
  induction n generalizing hi with
  | zero =>
      have hrest : backward (between time history) chunk 0 (hi - chunk) = [] := rfl
      rw [backward, hrest, List.append_nil]
      split
      · rename_i hempty
        simp [pieces, hempty, keepFirst]
      · rw [keepFirst_of_nodup hreverse]
        simp [pieces]
  | succ n ih =>
      rw [backward]
      split
      · rename_i hempty
        have hall := hfirst.resolve_right fun hc => hc hempty
        rw [← flatten_pieces h hchunk (n + 1) hi, List.flatten_eq_nil_iff] at hall
        symm
        rw [List.reverse_nil, keepFirst, List.flatten_eq_nil_iff]
        intro piece hpiece
        obtain ⟨piece', hmem, rfl⟩ := List.mem_map.mp hpiece
        rw [hall piece' hmem, List.reverse_nil]
      · rename_i hne
        obtain ⟨a, ha⟩ := List.exists_mem_of_ne_nil _ hne
        obtain ⟨hmem, hle, -⟩ := mem_between.mp ha
        have hnext : between time history (hi - chunk - (n + 1) * chunk) (hi - chunk) = [] ∨
            between time history (hi - chunk - chunk) (hi - chunk) ≠ [] := by
          by_cases hempty : between time history (hi - chunk - chunk) (hi - chunk) = []
          · exact .inl (between_eq_nil_of_gapless hgapless hchunk h hempty ⟨a, hmem, hle⟩)
          · exact .inr hempty
        have hrest := ih (hi - chunk) hnext (by
          rw [List.map_reverse]
          exact List.nodup_reverse.mpr (h.between _ _).nodup)
        rw [List.reverse_append, keepFirst_append_of_nodup hreverse, hrest, List.filter_reverse,
          filter_page hchunk, pieces, List.map_append, List.flatten_append]
        simp

/-- Lists turned around one by one make up the same whole only if each is short. -/
theorem flatten_map_reverse_eq_iff {parts : List (List α)}
    (h : ∀ part ∈ parts, Ascending time part) :
    (parts.map List.reverse).flatten = parts.flatten ↔ ∀ part ∈ parts, part.length ≤ 1 := by
  induction parts with
  | nil => simp
  | cons part parts ih =>
      have ih := ih fun part hpart => h part (List.mem_cons_of_mem _ hpart)
      have hpart : part.reverse = part ↔ part.length ≤ 1 := by
        have hasc := h part List.mem_cons_self
        cases part with
        | nil => simp
        | cons a rest =>
            cases rest with
            | nil => simp
            | cons b rest =>
                refine iff_of_false (fun heq => ?_) (by simp)
                have hdesc : Ascending time (a :: b :: rest).reverse := by rwa [heq]
                have hab := (List.pairwise_cons.mp hasc).1 b List.mem_cons_self
                have hba := (List.pairwise_cons.mp (List.pairwise_reverse.mp hdesc)).1 b
                  List.mem_cons_self
                exact absurd hab (not_lt.mpr hba.le)
      rw [List.map_cons, List.flatten_cons, List.flatten_cons, List.forall_mem_cons, ← ih, ← hpart]
      constructor
      · intro heq
        exact List.append_inj heq (List.length_reverse)
      · rintro ⟨hhead, htail⟩
        rw [hhead, htail]

theorem ascending_pieces (h : Ascending time history) (n : ℕ) (hi : ℤ) :
    ∀ piece ∈ pieces time history chunk n hi, Ascending time piece := by
  induction n generalizing hi with
  | zero => simp [pieces]
  | succ n ih =>
      cases n with
      | zero =>
          intro piece hpiece
          rw [List.mem_singleton.mp hpiece]
          exact h.between _ _
      | succ n =>
          intro piece hpiece
          rcases List.mem_append.mp hpiece with holder | hnewest
          · exact ih _ piece holder
          · rw [List.mem_singleton.mp hnewest]
            exact h.after _ _

theorem pageOf_nonneg (hchunk : 0 < chunk) (n : ℕ) {hi t : ℤ} (h : t ≤ hi) :
    0 ≤ pageOf chunk n hi t :=
  le_min (Int.ediv_nonneg (by omega) hchunk.le) (Int.natCast_nonneg n)

/-- A time on the first page. -/
theorem pageOf_first (n : ℕ) {hi t : ℤ} (hlt : hi - chunk < t) (hle : t ≤ hi) :
    pageOf chunk n hi t = 0 := by
  have hdiv : (hi - t) / chunk = 0 := Int.ediv_eq_zero_of_lt (by omega) (by omega)
  unfold pageOf
  rw [hdiv, min_eq_left (Int.natCast_nonneg n)]

/-- A time before it. -/
theorem pageOf_older (hchunk : 0 < chunk) (n : ℕ) (hi t : ℤ) :
    pageOf chunk (n + 1) hi t = pageOf chunk n (hi - chunk) t + 1 := by
  have hdiv : (hi - t) / chunk = (hi - chunk - t) / chunk + 1 := by
    rw [← Int.add_ediv_of_dvd_right (dvd_refl chunk) |>.trans
      (congrArg (_ + ·) (Int.ediv_self hchunk.ne'))]
    congr 1
    ring
  unfold pageOf
  rw [hdiv, Nat.cast_add, Nat.cast_one, min_add_add_right]

/-- On one page there is room for one entry. -/
theorem pairwise_ne_iff_length {as : List α} {page : α → ℤ} {p : ℤ}
    (h : ∀ a ∈ as, page a = p) : as.Pairwise (fun a b => page a ≠ page b) ↔ as.length ≤ 1 := by
  cases as with
  | nil => simp
  | cons a rest =>
      cases rest with
      | nil => simp
      | cons b rest =>
          refine iff_of_false (fun hpair => ?_) (by simp)
          refine (List.pairwise_cons.mp hpair).1 b List.mem_cons_self ?_
          rw [h a List.mem_cons_self, h b (List.mem_cons_of_mem _ List.mem_cons_self)]

/-- Short pieces: no two entries of the span are new on one page. -/
theorem pieces_short_iff (h : Ascending time history) (hchunk : 0 < chunk) (n : ℕ) (hi : ℤ) :
    (∀ piece ∈ pieces time history chunk (n + 1) hi, piece.length ≤ 1) ↔
      (between time history (hi - (n + 1) * chunk) hi).Pairwise
        fun a b => pageOf chunk n hi (time a) ≠ pageOf chunk n hi (time b) := by
  induction n generalizing hi with
  | zero =>
      have hpage : ∀ a ∈ between time history (hi - chunk) hi,
          pageOf chunk 0 hi (time a) = 0 := by
        intro a ha
        have hle := (mem_between.mp ha).2.2
        exact le_antisymm (min_le_right _ _) (pageOf_nonneg hchunk 0 hle)
      have hspan : hi - ((0 : ℕ) + 1) * chunk = hi - chunk := by simp
      rw [hspan, pairwise_ne_iff_length hpage, pieces, List.forall_mem_singleton]
  | succ n ih =>
      have hlo : hi - ((n + 1 : ℕ) + 1) * chunk = hi - chunk - (n + 1) * chunk := by
        push_cast
        ring
      have hspan : hi - chunk - (n + 1) * chunk ≤ hi - chunk := by
        have hpages : 0 ≤ ((n + 1 : ℕ) : ℤ) * chunk := by positivity
        push_cast at hpages
        linarith
      have hnew : ∀ a ∈ after time history (hi - chunk) hi,
          pageOf chunk (n + 1) hi (time a) = 0 := by
        intro a ha
        obtain ⟨-, hlt, hle⟩ := mem_after.mp ha
        exact pageOf_first (n + 1) hlt hle
      have hold : ∀ a ∈ between time history (hi - chunk - (n + 1) * chunk) (hi - chunk),
          ∀ b ∈ after time history (hi - chunk) hi,
            pageOf chunk (n + 1) hi (time a) ≠ pageOf chunk (n + 1) hi (time b) := by
        intro a ha b hb
        have hnonneg := pageOf_nonneg hchunk n (mem_between.mp ha).2.2
        rw [hnew b hb, pageOf_older hchunk]
        omega
      rw [hlo, ← between_append_after h hspan (by omega), List.pairwise_append, pieces,
        List.forall_mem_append, ih, List.forall_mem_singleton, pairwise_ne_iff_length hnew,
        and_iff_left hold]
      simp only [pageOf_older hchunk, ne_eq, add_left_inj]

/-- **Pages backwards.** Turned around and without second copies, they are the
entries of the span in order of time exactly if the first page has an entry, or
the whole span none, and no two entries are new on one page. -/
theorem backward_eq_iff (h : Ascending time history) (hgapless : Gapless time history chunk)
    (hchunk : 0 < chunk) (n : ℕ) (hi : ℤ) :
    keepFirst time [] (backward (between time history) chunk (n + 1) hi).reverse
        = between time history (hi - (n + 1) * chunk) hi ↔
      (between time history (hi - (n + 1) * chunk) hi = [] ∨
        between time history (hi - chunk) hi ≠ []) ∧
      (between time history (hi - (n + 1) * chunk) hi).Pairwise
        fun a b => pageOf chunk n hi (time a) ≠ pageOf chunk n hi (time b) := by
  by_cases hfirst : between time history (hi - (n + 1) * chunk) hi = [] ∨
      between time history (hi - chunk) hi ≠ []
  · rw [keepFirst_backward h hgapless hchunk.le n hi hfirst, and_iff_right hfirst,
      ← pieces_short_iff h hchunk, ← flatten_pieces h hchunk.le n hi]
    exact flatten_map_reverse_eq_iff (ascending_pieces h (n + 1) hi)
  · refine iff_of_false (fun heq => ?_) fun hc => hfirst hc.1
    obtain ⟨hspan, hpage⟩ := not_or.mp hfirst
    rw [backward, if_pos (not_not.mp hpage)] at heq
    exact hspan heq.symm

end Backwards

end Lib.Paging
