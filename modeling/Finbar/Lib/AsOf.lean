/-
Finbar.Lib.AsOf — as-of lookup in a list of timed entries.

`asOf entries t` is the last entry, in the order of the list, whose time is
at most `t`. In a list sorted by time the entries up to `t` are a prefix, so
a pointer that only moves forward finds the entry: `seen_of_pointer` says
that counting on from any earlier position gives the count from the start.

No `sorry`, no `axiom`.
-/
import Mathlib.Order.Lattice
import Mathlib.Data.List.Basic
import Mathlib.Data.List.Induction
import Mathlib.Data.List.TakeWhile

namespace Lib.AsOf

variable {τ α : Type} [LinearOrder τ] {entries later : List (τ × α)} {t : τ}

/-! ## §1 The lookup -/

/-- The entry's time is at most `t`. -/
def upTo (t : τ) (e : τ × α) : Bool :=
  decide (e.1 ≤ t)

@[simp] theorem upTo_eq_true {e : τ × α} : upTo t e = true ↔ e.1 ≤ t := by
  unfold upTo
  rw [decide_eq_true_eq]

/-- The last entry whose time is at most `t`. -/
def asOf (entries : List (τ × α)) (t : τ) : Option (τ × α) :=
  (entries.filter (upTo t)).getLast?

/-- Times do not decrease along the list. -/
def Sorted (entries : List (τ × α)) : Prop :=
  entries.Pairwise (fun e f => e.1 ≤ f.1)

/-- Entries of a later time do not count. -/
theorem asOf_append_later (h : ∀ e ∈ later, t < e.1) :
    asOf (entries ++ later) t = asOf entries t := by
  have hnone : later.filter (upTo t) = [] := by
    rw [List.filter_eq_nil_iff]
    intro e he
    rw [upTo_eq_true]
    exact not_le.mpr (h e he)
  unfold asOf
  rw [List.filter_append, hnone, List.append_nil]

/-- The newest entry is found at its time. -/
theorem asOf_append_one {e : τ × α} (h : e.1 ≤ t) : asOf (entries ++ [e]) t = some e := by
  have hone : [e].filter (upTo t) = [e] := by
    rw [List.filter_cons_of_pos (upTo_eq_true.mpr h), List.filter_nil]
  unfold asOf
  rw [List.filter_append, hone, List.getLast?_concat]

/-- **What the lookup finds**: nothing, when every time is later than `t`;
otherwise an entry up to `t` after which every time is later. -/
theorem asOf_cases (entries : List (τ × α)) (t : τ) :
    (asOf entries t = none ∧ ∀ e ∈ entries, t < e.1) ∨
      ∃ earlier e later, entries = earlier ++ e :: later ∧ asOf entries t = some e ∧
        e.1 ≤ t ∧ ∀ f ∈ later, t < f.1 := by
  induction entries using List.reverseRecOn with
  | nil => exact .inl ⟨rfl, fun e he => nomatch he⟩
  | append_singleton entries e ih =>
      rcases le_or_gt e.1 t with he | he
      · exact .inr ⟨entries, e, [], rfl, asOf_append_one he, he, fun f hf => nomatch hf⟩
      · have hlater : ∀ f ∈ [e], t < f.1 := by
          intro f hf
          rw [List.mem_singleton.mp hf]
          exact he
        rw [asOf_append_later hlater]
        rcases ih with ⟨hnone, hall⟩ | ⟨earlier, found, later, hsplit, hfound, hle, hrest⟩
        · refine .inl ⟨hnone, fun f hf => ?_⟩
          rcases List.mem_append.mp hf with hf | hf
          · exact hall f hf
          · exact hlater f hf
        · refine .inr ⟨earlier, found, later ++ [e], ?_, hfound, hle, fun f hf => ?_⟩
          · rw [hsplit, List.append_assoc, List.cons_append]
          · rcases List.mem_append.mp hf with hf | hf
            · exact hrest f hf
            · exact hlater f hf

/-- An entry up to `t` is found when no later one is. -/
theorem asOf_cons {e : τ × α} (h : e.1 ≤ t) :
    asOf (e :: entries) t = some ((asOf entries t).getD e) := by
  unfold asOf
  rw [List.filter_cons_of_pos (upTo_eq_true.mpr h), List.getLast?_cons]

/-- Two times that no entry lies between find the same entry. -/
theorem asOf_eq_of_no_between {t' : τ} (hle : t ≤ t')
    (h : ∀ e ∈ entries, e.1 ≤ t' → e.1 ≤ t) : asOf entries t' = asOf entries t := by
  unfold asOf
  congr 1
  refine List.filter_congr fun e he => decide_eq_decide.mpr ?_
  exact ⟨h e he, fun hearly => hearly.trans hle⟩

/-- The lookup commutes with a change of the values. -/
theorem asOf_map {β : Type} (f : α → β) (entries : List (τ × α)) (t : τ) :
    asOf (entries.map fun e => (e.1, f e.2)) t = (asOf entries t).map fun e => (e.1, f e.2) := by
  unfold asOf
  rw [List.filter_map, List.getLast?_map]
  rfl

/-! ## §2 The pointer -/

/-- In a sorted list the entries up to `t` are a prefix. -/
theorem filter_eq_takeWhile (h : Sorted entries) (t : τ) :
    entries.filter (upTo t)
      = entries.takeWhile (upTo t) := by
  induction entries with
  | nil => rfl
  | cons e entries ih =>
      obtain ⟨hhead, htail⟩ := List.pairwise_cons.mp h
      by_cases he : e.1 ≤ t
      · rw [List.filter_cons_of_pos (upTo_eq_true.mpr he),
          List.takeWhile_cons_of_pos (upTo_eq_true.mpr he), ih htail]
      · have hrest : entries.filter (upTo t) = [] := by
          rw [List.filter_eq_nil_iff]
          intro f hf hle
          exact he ((hhead f hf).trans (upTo_eq_true.mp hle))
        rw [List.filter_cons_of_neg (by rw [upTo_eq_true]; exact he),
          List.takeWhile_cons_of_neg (by rw [upTo_eq_true]; exact he), hrest]

/-- How many entries at the front of the list have a time of at most `t`. -/
def seen (entries : List (τ × α)) (t : τ) : ℕ :=
  (entries.takeWhile (upTo t)).length

theorem seen_le_length (entries : List (τ × α)) (t : τ) : seen entries t ≤ entries.length :=
  List.IsPrefix.length_le (List.takeWhile_prefix _)

/-- Later entries are not counted. -/
theorem seen_append_later (h : ∀ e ∈ later, t < e.1) :
    seen (entries ++ later) t = seen entries t := by
  have hnone : later.takeWhile (upTo t) = [] := by
    cases later with
    | nil => rfl
    | cons e later =>
        refine List.takeWhile_cons_of_neg ?_
        rw [upTo_eq_true]
        exact not_le.mpr (h e List.mem_cons_self)
  unfold seen
  rw [List.takeWhile_append, hnone, List.append_nil]
  split
  · rename_i hall
    exact hall.symm
  · rfl

/-- The entries a count covers are up to `t`. -/
theorem le_of_mem_take_seen {e : τ × α} (h : e ∈ entries.take (seen entries t)) : e.1 ≤ t := by
  have htake : entries.take (seen entries t)
      = entries.takeWhile (upTo t) :=
    (List.prefix_iff_eq_take.mp (List.takeWhile_prefix _)).symm
  rw [htake] at h
  exact upTo_eq_true.mp (List.mem_takeWhile_imp h)

/-- **A pointer that only moves forward.** From a position before which
everything is up to `t`, counting on gives the count from the start. -/
theorem seen_of_pointer {n : ℕ} (h : ∀ e ∈ entries.take n, e.1 ≤ t)
    (hn : n ≤ entries.length) : n + seen (entries.drop n) t = seen entries t := by
  have hall : (entries.take n).takeWhile (upTo t) = entries.take n := by
    rw [List.takeWhile_eq_self_iff]
    intro e he
    exact upTo_eq_true.mpr (h e he)
  unfold seen
  conv_rhs => rw [← List.take_append_drop n entries, List.takeWhile_append, hall,
    if_pos rfl, List.length_append, List.length_take_of_le hn]

/-- The lookup in a sorted list, by the count. -/
theorem asOf_eq_getElem (h : Sorted entries) (t : τ) :
    asOf entries t = if seen entries t = 0 then none else entries[seen entries t - 1]? := by
  have htake : entries.takeWhile (upTo t)
      = entries.take (seen entries t) :=
    List.prefix_iff_eq_take.mp (List.takeWhile_prefix _)
  unfold asOf
  rw [filter_eq_takeWhile h, List.getLast?_eq_getElem?]
  have hlength : (entries.takeWhile (upTo t)).length = seen entries t := rfl
  rw [hlength, htake]
  split
  · rename_i hzero
    rw [hzero, List.take_zero, List.getElem?_nil]
  · rename_i hpos
    rw [List.getElem?_take_of_lt (Nat.sub_one_lt hpos)]

end Lib.AsOf
