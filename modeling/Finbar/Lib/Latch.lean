/-
Finbar.Lib.Latch — a loop that fires once for each level.

In each row there may be a level in force. The loop fires in a row that is beyond
its level, unless the last level it fired for is this one. The memory is one level
only: it is enough as long as a level that has been replaced does not come back
(`Advancing`). Then the loop fires exactly in the first row beyond each level
(`firstBreaks_getD`).

No `sorry`, no `axiom`.
-/
import Mathlib.Data.List.GetD
import Mathlib.Data.List.Range

namespace Lib.Latch

variable {α : Type} {level : ℕ → Option α} {beyond : ℕ → α → Bool}

/-! ## §1 The rows that fire -/

section Rows

variable (level beyond)

/-- A level that has been replaced does not come back. -/
def Advancing : Prop :=
  ∀ i j k, i ≤ j → j ≤ k → ∀ a b, level i = some a → level j = some b → level k = some a → b = a

/-- A row before `i` is beyond the level. -/
def BrokenBefore (start i : ℕ) (target : α) : Prop :=
  ∃ j, start ≤ j ∧ j < i ∧ level j = some target ∧ beyond j target = true

/-- The row is the first that is beyond its level. -/
def FirstBeyond (start i : ℕ) : Prop :=
  ∃ target, level i = some target ∧ beyond i target = true ∧
    ¬ BrokenBefore level beyond start i target

end Rows

/-- A level that does not decrease does not come back. -/
theorem advancing_of_mono {level : ℕ → Option ℕ}
    (h : ∀ i j s t, i ≤ j → level i = some s → level j = some t → s ≤ t) : Advancing level :=
  fun i j k hij hjk s t hs ht hs' => Nat.le_antisymm (h j k t s hjk ht hs') (h i j s t hij hs ht)

theorem brokenBefore_succ {start m : ℕ} (hm : start ≤ m) (target : α) :
    BrokenBefore level beyond start (m + 1) target ↔
      BrokenBefore level beyond start m target ∨ level m = some target ∧ beyond m target = true := by
  constructor
  · rintro ⟨j, hstart, hj, hlevel, hbeyond⟩
    rcases Nat.lt_succ_iff_lt_or_eq.mp hj with hlt | rfl
    · exact .inl ⟨j, hstart, hlt, hlevel, hbeyond⟩
    · exact .inr ⟨hlevel, hbeyond⟩
  · rintro (⟨j, hstart, hj, hlevel, hbeyond⟩ | ⟨hlevel, hbeyond⟩)
    · exact ⟨j, hstart, Nat.lt_succ_of_lt hj, hlevel, hbeyond⟩
    · exact ⟨m, hm, Nat.lt_succ_self m, hlevel, hbeyond⟩

/-! ## §2 The loop -/

/-- The flags so far and the level that fired last. -/
structure State (α : Type) where
  marks : List Bool
  broken : Option α := none

/-- What the loop holds before row `m`. -/
structure Holds (level : ℕ → Option α) (beyond : ℕ → α → Bool) (start n m : ℕ) (s : State α) :
    Prop where
  length : s.marks.length = n
  marks : ∀ i < n, (s.marks.getD i false = true ↔
    start ≤ i ∧ i < m ∧ FirstBeyond level beyond start i)
  broken : ∀ k, m ≤ k → ∀ target, level k = some target →
    (s.broken = some target ↔ BrokenBefore level beyond start m target)

/-- A row that fires. -/
theorem Holds.fire {start n m : ℕ} {s : State α} {target : α} (h : Holds level beyond start n m s)
    (hadvancing : Advancing level) (hstart : start ≤ m) (hm : m < n) (hlevel : level m = some target)
    (hbeyond : beyond m target = true) (hfresh : s.broken ≠ some target) :
    Holds level beyond start n (m + 1)
      { marks := s.marks.set m true, broken := some target } where
  length := by
    rw [List.length_set]
    exact h.length
  marks := by
    intro i hi
    have hfirst : ¬ BrokenBefore level beyond start m target :=
      fun hbefore => hfresh ((h.broken m le_rfl target hlevel).mpr hbefore)
    by_cases heq : i = m
    · subst heq
      rw [List.getD_eq_getElem?_getD, List.getElem?_set_self (by rwa [h.length])]
      exact iff_of_true rfl ⟨hstart, Nat.lt_succ_self i, target, hlevel, hbeyond, hfirst⟩
    · rw [List.getD_eq_getElem?_getD, List.getElem?_set_ne (Ne.symm heq),
        ← List.getD_eq_getElem?_getD, h.marks i hi]
      exact and_congr_right fun _ => and_congr_left fun _ => by omega
  broken := by
    intro k hk target' hlevel'
    rw [brokenBefore_succ hstart]
    constructor
    · rintro heq
      obtain rfl := Option.some.inj heq
      exact .inr ⟨hlevel, hbeyond⟩
    · rintro (⟨j, -, hj, hlevelj, -⟩ | ⟨heq, -⟩)
      · -- the level of row `m` stands between two rows with the other one
        rw [hadvancing j m k hj.le (Nat.le_of_succ_le hk) target' target hlevelj hlevel hlevel']
      · rw [← hlevel, heq]

/-- A row that does not fire. -/
theorem Holds.skip {start n m : ℕ} {s : State α} (h : Holds level beyond start n m s)
    (hstart : start ≤ m)
    (hquiet : ∀ target, level m = some target → beyond m target = true →
      s.broken = some target) :
    Holds level beyond start n (m + 1) s where
  length := h.length
  marks := by
    intro i hi
    rw [h.marks i hi]
    refine and_congr_right fun _ => ⟨fun ⟨hlt, hfirst⟩ => ⟨Nat.lt_succ_of_lt hlt, hfirst⟩, ?_⟩
    rintro ⟨hlt, hfirst⟩
    refine ⟨lt_of_le_of_ne (Nat.le_of_lt_succ hlt) ?_, hfirst⟩
    rintro rfl
    obtain ⟨target, hlevel, hbeyond, hfresh⟩ := hfirst
    exact hfresh ((h.broken i le_rfl target hlevel).mp (hquiet target hlevel hbeyond))
  broken := by
    intro k hk target hlevel
    rw [brokenBefore_succ hstart, h.broken k (Nat.le_of_succ_le hk) target hlevel]
    refine ⟨.inl, fun hor => hor.elim id fun ⟨heq, hbeyond⟩ => ?_⟩
    exact (h.broken m le_rfl target heq).mp (hquiet target heq hbeyond)

section Loop

variable [DecidableEq α]

section Passes

variable (level beyond)

/-- One row. -/
def pass (s : State α) (i : ℕ) : State α :=
  match level i with
  | none => s
  | some target =>
      if s.broken ≠ some target ∧ beyond i target = true then
        { marks := s.marks.set i true, broken := some target }
      else s

/-- The flags of `n` rows, of which the loop looks at those from `start` on. -/
def firstBreaks (start n : ℕ) : List Bool :=
  ((List.range' start (n - start)).foldl (pass level beyond)
    { marks := List.replicate n false }).marks

end Passes

/-- The step lemma. -/
theorem Holds.pass {start n m : ℕ} {s : State α} (h : Holds level beyond start n m s)
    (hadvancing : Advancing level) (hstart : start ≤ m) (hm : m < n) :
    Holds level beyond start n (m + 1) (pass level beyond s m) := by
  unfold Latch.pass
  cases hlevel : level m with
  | none => exact h.skip hstart fun target heq => by rw [hlevel] at heq; cases heq
  | some target =>
      simp only
      split
      · rename_i hfires
        exact h.fire hadvancing hstart hm hlevel hfires.2 hfires.1
      · rename_i hquiet
        refine h.skip hstart fun target' heq hbeyond => ?_
        obtain rfl := Option.some.inj (hlevel.symm.trans heq)
        by_contra hfresh
        exact hquiet ⟨hfresh, hbeyond⟩

/-- The run lemma. -/
theorem holds_foldl (hadvancing : Advancing level) (start n passes : ℕ) (h : start + passes ≤ n) :
    Holds level beyond start n (start + passes)
      ((List.range' start passes).foldl (pass level beyond)
        { marks := List.replicate n false }) := by
  induction passes with
  | zero =>
      refine ⟨List.length_replicate, fun i hi => ?_, fun k _ target _ => ?_⟩
      · rw [List.range'_zero, List.foldl_nil, List.getD_replicate _ hi]
        refine iff_of_false (by decide) fun hrow => ?_
        have := hrow.1
        have := hrow.2.1
        omega
      · refine iff_of_false (fun heq => nomatch heq) ?_
        rintro ⟨j, hstart, hj, -⟩
        omega
  | succ passes ih =>
      rw [List.range'_1_concat, List.foldl_append, List.foldl_cons, List.foldl_nil]
      exact (ih (by omega)).pass hadvancing (Nat.le_add_right _ _) (by omega)

/-- **The loop fires in the first row beyond each level.** -/
theorem firstBreaks_getD (hadvancing : Advancing level) {start n i : ℕ} (hi : i < n) :
    (firstBreaks level beyond start n).getD i false = true ↔
      start ≤ i ∧ FirstBeyond level beyond start i := by
  unfold firstBreaks
  rcases Nat.lt_or_ge n start with hshort | hlong
  · rw [Nat.sub_eq_zero_of_le hshort.le, List.range'_zero, List.foldl_nil, List.getD_replicate _ hi]
    exact iff_of_false (by decide) fun h => by omega
  · rw [(holds_foldl hadvancing start n (n - start) (by omega)).marks i hi]
    exact and_congr_right fun _ => and_iff_right (by omega)

theorem length_firstBreaks (hadvancing : Advancing level) (start n : ℕ) :
    (firstBreaks level beyond start n).length = n := by
  unfold firstBreaks
  rcases Nat.lt_or_ge n start with hshort | hlong
  · rw [Nat.sub_eq_zero_of_le hshort.le, List.range'_zero, List.foldl_nil, List.length_replicate]
  · exact (holds_foldl hadvancing start n (n - start) (by omega)).length

end Loop

end Lib.Latch
