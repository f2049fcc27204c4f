/-
Finbar.Lib.Ledger — a one-position cash ledger over an additive group.

What a trading account is FOR, before any price, commission or margin rule:
cash moves only when a position is entered, when it is settled, or when a
charge is taken, and a settlement realises exactly what the position
brought in and paid out over its life. `Ledger.Balanced` is the accounting
identity, `Ledger.run_balanced` its preservation by any sequence of
movements.

No `sorry`, no `axiom`.
-/
import Mathlib.Algebra.Group.Basic
import Mathlib.Tactic.Abel

namespace Lib

variable {G : Type*} [AddCommGroup G]

/-- An account with at most one open position. -/
structure Ledger (G : Type*) where
  /-- Cash at the start. -/
  initial : G
  /-- Cash now. -/
  cash : G
  /-- Sum of the results of the settled positions. -/
  realised : G
  /-- Sum of the charges taken. -/
  paid : G
  /-- What entering the open position moved, `0` when there is none. -/
  openFlow : G

/-- A movement of the account. -/
inductive Ledger.Move (G : Type*) where
  /-- Entering a position moves `flow`. -/
  | enter (flow : G)
  /-- Settling the open position moves `receipt` and realises the sum of
  both of its flows. -/
  | settle (receipt : G)
  /-- A charge of `fee`. -/
  | charge (fee : G)

namespace Ledger

/-- The account before its first movement. -/
def start (c : G) : Ledger G :=
  { initial := c, cash := c, realised := 0, paid := 0, openFlow := 0 }

/-- The effect of one movement. -/
def apply (l : Ledger G) : Move G → Ledger G
  | .enter flow => { l with cash := l.cash + flow, openFlow := l.openFlow + flow }
  | .settle receipt =>
      { l with
        cash := l.cash + receipt
        realised := l.realised + (l.openFlow + receipt)
        openFlow := 0 }
  | .charge fee => { l with cash := l.cash - fee, paid := l.paid + fee }

/-- The effect of a sequence of movements. -/
def run (l : Ledger G) (ms : List (Move G)) : Ledger G :=
  ms.foldl apply l

/-- **The accounting identity.** -/
def Balanced (l : Ledger G) : Prop :=
  l.cash = l.initial + l.realised - l.paid + l.openFlow

theorem start_balanced (c : G) : (start c).Balanced := by
  simp [Balanced, start]

@[simp] theorem run_nil (l : Ledger G) : l.run [] = l := rfl

@[simp] theorem run_cons (l : Ledger G) (m : Move G) (ms : List (Move G)) :
    l.run (m :: ms) = (l.apply m).run ms := rfl

theorem run_append (l : Ledger G) (ms ns : List (Move G)) :
    l.run (ms ++ ns) = (l.run ms).run ns :=
  List.foldl_append

/-- Every single movement keeps the identity. -/
theorem apply_balanced {l : Ledger G} (h : l.Balanced) (m : Move G) :
    (l.apply m).Balanced := by
  unfold Balanced at h
  cases m with
  | enter flow =>
      show l.cash + flow = l.initial + l.realised - l.paid + (l.openFlow + flow)
      rw [h]; abel
  | settle receipt =>
      show l.cash + receipt
        = l.initial + (l.realised + (l.openFlow + receipt)) - l.paid + 0
      rw [h]; abel
  | charge fee =>
      show l.cash - fee = l.initial + l.realised - (l.paid + fee) + l.openFlow
      rw [h]; abel

/-- Any sequence of movements keeps the identity. -/
theorem run_balanced {l : Ledger G} (h : l.Balanced) (ms : List (Move G)) :
    (l.run ms).Balanced := by
  induction ms generalizing l with
  | nil => exact h
  | cons m ms ih => exact ih (apply_balanced h m)

/-- No movement changes what the account started with. -/
theorem run_initial (l : Ledger G) (ms : List (Move G)) :
    (l.run ms).initial = l.initial := by
  induction ms generalizing l with
  | nil => rfl
  | cons m ms ih =>
      rw [run_cons, ih]
      cases m <;> rfl

/-- One ledger is reached from another by some sequence of movements. -/
def Reaches (l l' : Ledger G) : Prop :=
  ∃ ms, l' = l.run ms

theorem Reaches.refl (l : Ledger G) : l.Reaches l :=
  ⟨[], rfl⟩

theorem Reaches.single (l : Ledger G) (m : Move G) : l.Reaches (l.apply m) :=
  ⟨[m], rfl⟩

theorem Reaches.trans {l l' l'' : Ledger G} (h : l.Reaches l')
    (h' : l'.Reaches l'') : l.Reaches l'' := by
  obtain ⟨ms, rfl⟩ := h
  obtain ⟨ns, rfl⟩ := h'
  exact ⟨ms ++ ns, (run_append l ms ns).symm⟩

/-- **The identity along a history.** A ledger reached from the start holds
its starting cash, what was realised, less what was paid, plus the open
flow. -/
theorem Reaches.cash_eq {c : G} {l : Ledger G} (h : (start c).Reaches l) :
    l.cash = c + l.realised - l.paid + l.openFlow := by
  obtain ⟨ms, rfl⟩ := h
  have hbalanced := run_balanced (start_balanced c) ms
  unfold Balanced at hbalanced
  rw [run_initial] at hbalanced
  exact hbalanced

end Ledger

end Lib
