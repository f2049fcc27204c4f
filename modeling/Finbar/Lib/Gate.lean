/-
Finbar.Lib.Gate — callers that pass a two-phase gate.

A caller first waits out a deadline (`check`), then tries to be admitted
(`attempt`) until it is; the state of the gate is shared, each of the two
looks is one atomic step, and any caller or the controller may step in
between. A run is a list of events with the time that passed before each of
them, so that the clock never goes backwards.

The log keeps the admissions and the announced deadlines in their order;
`Respected` says that nothing was admitted before a deadline announced
earlier. `respected_of_orderly` is the condition on the single steps under
which every run respects the deadlines, `run_serve` a run that admits one
caller.

No `sorry`, no `axiom`.
-/
import Finbar.Lib.Steps
import Mathlib.Data.NNRat.Defs
import Mathlib.Algebra.Order.Field.Rat
import Mathlib.Tactic.Linarith

namespace Lib.Gated

/-! ## §1 Gates and their runs -/

/-- What an admission attempt ends in. A caller that waits sleeps and tries
again, at whatever later time. -/
inductive Verdict where
  | admitted
  | waits (seconds : ℚ)
  | raised
  deriving DecidableEq

/-- A gate: the deadline in force, the locked admission block and the other
locked operations, some of which announce a deadline. -/
structure Gate (σ ρ ε : Type) where
  deadline : σ → ℚ
  attempt : σ → ρ → ℚ → σ × Verdict
  control : σ → ε → ℚ → σ
  announces : ε → Bool

/-- Where a caller stands. -/
inductive Phase (ρ : Type) where
  | idle
  | backoff (request : ρ)
  | admission (request : ρ)
  deriving DecidableEq

/-- The request of a caller inside the gate. -/
def Phase.request {ρ : Type} : Phase ρ → Option ρ
  | .idle => none
  | .backoff r => some r
  | .admission r => some r

/-- An entry of the log. -/
inductive Entry (ρ : Type) where
  | admitted (time : ℚ) (request : ρ)
  | announced (deadline : ℚ)
  deriving DecidableEq

/-- The gate, the clock, the callers and the log. -/
structure System (κ σ ρ : Type) where
  state : σ
  clock : ℚ
  phase : κ → Phase ρ
  log : List (Entry ρ) := []

/-- A system no caller has entered yet. -/
def System.start {κ σ ρ : Type} (state : σ) (clock : ℚ) : System κ σ ρ where
  state := state
  clock := clock
  phase _ := .idle

/-- One atomic step. -/
inductive Action (κ ρ ε : Type) where
  | call (caller : κ) (request : ρ)
  | check (caller : κ)
  | attempt (caller : κ)
  | control (operation : ε)

/-- A step and the time that passed before it. -/
structure Event (κ ρ ε : Type) where
  elapsed : ℚ≥0
  action : Action κ ρ ε

variable {κ σ ρ ε : Type} [DecidableEq κ] (g : Gate σ ρ ε)

/-- The clock reading of an event. -/
def System.reading (s : System κ σ ρ) (e : Event κ ρ ε) : ℚ :=
  s.clock + e.elapsed

/-- What an event does at its clock reading. A step that its caller does not
stand at changes nothing. -/
def step (s : System κ σ ρ) (e : Event κ ρ ε) : System κ σ ρ :=
  let now := s.reading e
  let s := { s with clock := now }
  match e.action with
  | .call c r =>
      match s.phase c with
      | .idle => { s with phase := Function.update s.phase c (.backoff r) }
      | _ => s
  | .check c =>
      match s.phase c with
      | .backoff r =>
          if g.deadline s.state - now ≤ 0 then
            { s with phase := Function.update s.phase c (.admission r) }
          else s
      | _ => s
  | .attempt c =>
      match s.phase c with
      | .admission r =>
          let tried := g.attempt s.state r now
          match tried.2 with
          | .admitted =>
              { s with
                state := tried.1
                phase := Function.update s.phase c .idle
                log := s.log ++ [.admitted now r] }
          | .raised =>
              { s with state := tried.1, phase := Function.update s.phase c .idle }
          | .waits _ => { s with state := tried.1 }
      | _ => s
  | .control x =>
      let state := g.control s.state x now
      { s with
        state := state
        log := if g.announces x then s.log ++ [.announced (g.deadline state)] else s.log }

/-- The system after a run. -/
abbrev run (s : System κ σ ρ) (events : List (Event κ ρ ε)) : System κ σ ρ :=
  Steps.run (step g) s events

theorem run_append (s : System κ σ ρ) (events events' : List (Event κ ρ ε)) :
    run g s (events ++ events') = run g (run g s events) events' :=
  Steps.run_append _ s events events'

/-! ## §2 What a step can do -/

/-- **Everything a step can do.** It is quiet: only callers move, and one that
reaches the admission phase finds the deadline passed; or a caller of the
admission phase tries; or the gate is controlled. -/
inductive Moved (s : System κ σ ρ) (e : Event κ ρ ε) (s' : System κ σ ρ) : Prop where
  | quiet (hstate : s'.state = s.state) (hlog : s'.log = s.log)
      (hadmission : ∀ c r, s'.phase c = .admission r →
        s.phase c = .admission r ∨ g.deadline s.state ≤ s.reading e)
  | tried (c : κ) (r : ρ) (hphase : s.phase c = .admission r)
      (hstate : s'.state = (g.attempt s.state r (s.reading e)).1)
      (hlog : s'.log = s.log ++
        if (g.attempt s.state r (s.reading e)).2 = .admitted
        then [.admitted (s.reading e) r] else [])
      (hadmission : ∀ c r, s'.phase c = .admission r → s.phase c = .admission r)
  | controlled (x : ε) (haction : e.action = .control x)
      (hstate : s'.state = g.control s.state x (s.reading e))
      (hlog : s'.log = s.log ++
        if g.announces x then [.announced (g.deadline (g.control s.state x (s.reading e)))]
        else [])
      (hphase : s'.phase = s.phase)

theorem clock_step (s : System κ σ ρ) (e : Event κ ρ ε) : (step g s e).clock = s.reading e := by
  unfold step
  dsimp only
  cases e.action with
  | call c r => dsimp only; split <;> rfl
  | check c => dsimp only; split <;> [(split <;> rfl); rfl]
  | attempt c => dsimp only; split <;> [(split <;> rfl); rfl]
  | control x => rfl

/-- A caller moved elsewhere does not stand in the admission phase. -/
theorem admission_of_update {phase : κ → Phase ρ} {c d : κ} {p : Phase ρ} {r : ρ}
    (hp : ∀ r, p ≠ .admission r) (h : Function.update phase c p d = .admission r) :
    phase d = .admission r := by
  by_cases hd : d = c
  · subst hd
    rw [Function.update_self] at h
    exact absurd h (hp r)
  · rwa [Function.update_of_ne hd] at h

theorem step_moved (s : System κ σ ρ) (e : Event κ ρ ε) : Moved g s e (step g s e) := by
  unfold step
  dsimp only
  cases haction : e.action with
  | call c r =>
      dsimp only
      split
      · exact .quiet rfl rfl fun d q h =>
          Or.inl (admission_of_update (p := .backoff r) (fun _ => nofun) h)
      · exact .quiet rfl rfl fun d q h => Or.inl h
  | check c =>
      dsimp only
      split
      · split
        · next hpassed =>
            refine .quiet rfl rfl fun d q h => Or.inr ?_
            exact sub_nonpos.mp hpassed
        · exact .quiet rfl rfl fun d q h => Or.inl h
      · exact .quiet rfl rfl fun d q h => Or.inl h
  | attempt c =>
      dsimp only
      split
      · next r hphase =>
          split
          · next hverdict =>
              refine .tried c r hphase rfl ?_ fun d q h =>
                admission_of_update (p := .idle) (fun _ => nofun) h
              rw [if_pos hverdict]
          · next hverdict =>
              refine .tried c r hphase rfl ?_ fun d q h =>
                admission_of_update (p := .idle) (fun _ => nofun) h
              rw [if_neg (by rw [hverdict]; nofun), List.append_nil]
          · next hverdict =>
              refine .tried c r hphase rfl ?_ fun d q h => h
              rw [if_neg (by rw [hverdict]; nofun), List.append_nil]
      · exact .quiet rfl rfl fun d q h => Or.inl h
  | control x =>
      refine .controlled x haction rfl ?_ rfl
      cases hannounces : g.announces x <;> simp [hannounces]

/-- Callers inside the gate came with a request. -/
theorem request_step {s : System κ σ ρ} {e : Event κ ρ ε} {c : κ} {r : ρ}
    (h : ((step g s e).phase c).request = some r) :
    (s.phase c).request = some r ∨ e.action = .call c r := by
  have hmoved {d : κ} {p : Phase ρ} (hd : (Function.update s.phase d p c).request = some r) :
      (s.phase c).request = some r ∨ d = c ∧ p.request = some r := by
    by_cases hc : c = d
    · subst hc
      rw [Function.update_self] at hd
      exact Or.inr ⟨rfl, hd⟩
    · rw [Function.update_of_ne hc] at hd
      exact Or.inl hd
  unfold step at h
  dsimp only at h
  cases haction : e.action with
  | call d q =>
      rw [haction] at h
      dsimp only at h
      split at h
      · rcases hmoved h with hold | ⟨rfl, hnew⟩
        · exact Or.inl hold
        · obtain rfl := Option.some.inj hnew
          exact Or.inr rfl
      · exact Or.inl h
  | check d =>
      rw [haction] at h
      dsimp only at h
      split at h
      · next q hphase =>
          split at h
          · rcases hmoved h with hold | ⟨rfl, hnew⟩
            · exact Or.inl hold
            · rw [hphase]
              exact Or.inl hnew
          · exact Or.inl h
      · exact Or.inl h
  | attempt d =>
      rw [haction] at h
      dsimp only at h
      split at h
      · split at h
        · rcases hmoved h with hold | ⟨-, hnew⟩
          · exact Or.inl hold
          · cases hnew
        · rcases hmoved h with hold | ⟨-, hnew⟩
          · exact Or.inl hold
          · cases hnew
        · exact Or.inl h
      · exact Or.inl h
  | control x =>
      rw [haction] at h
      exact Or.inl h

/-! ## §3 Deadlines -/

/-- The second entry is not an admission before the deadline of the first. -/
def Entry.Respects : Entry ρ → Entry ρ → Prop
  | .announced d, .admitted t _ => d ≤ t
  | _, _ => True

/-- Nothing is admitted before a deadline announced earlier. -/
def Respected (log : List (Entry ρ)) : Prop :=
  log.Pairwise Entry.Respects

/-- A step does not open the gate between a caller's look at the deadline and
its admission: a deadline is announced only while nobody stands in the
admission phase, and it is not below the one in force. -/
def Orderly (s : System κ σ ρ) (e : Event κ ρ ε) : Prop :=
  ∀ x, e.action = .control x →
    (∀ c r, s.phase c ≠ .admission r) ∧
      g.deadline s.state ≤ g.deadline (g.control s.state x (s.reading e))

/-- What an orderly run keeps: the deadline in force is the latest announced,
and has passed for everyone in the admission phase. -/
structure Guarded (s : System κ σ ρ) : Prop where
  respected : Respected s.log
  latest : ∀ d, .announced d ∈ s.log → d ≤ g.deadline s.state
  passed : ∀ c r, s.phase c = .admission r → g.deadline s.state ≤ s.clock

omit [DecidableEq κ] in
theorem guarded_start (state : σ) (clock : ℚ) :
    Guarded g (System.start state clock : System κ σ ρ) where
  respected := List.Pairwise.nil
  latest _ hd := nomatch hd
  passed _ _ h := nomatch h

omit [DecidableEq κ] in
theorem le_reading (s : System κ σ ρ) (e : Event κ ρ ε) : s.clock ≤ s.reading e :=
  le_add_of_nonneg_right e.elapsed.2

/-- **One orderly step keeps the guard**, on a gate whose admission block
leaves the deadline alone. -/
theorem Guarded.next (hkeep : ∀ state r t, g.deadline (g.attempt state r t).1 = g.deadline state)
    {s : System κ σ ρ} {e : Event κ ρ ε} (h : Guarded g s) (horderly : Orderly g s e) :
    Guarded g (step g s e) := by
  have hclock := clock_step g s e
  have hle := le_reading s e
  rcases step_moved g s e with ⟨hstate, hlog, hadmission⟩ |
    ⟨c, r, hphase, hstate, hlog, hadmission⟩ | ⟨x, haction, hstate, hlog, hphase⟩
  · refine ⟨by rw [hlog]; exact h.respected, by rw [hlog, hstate]; exact h.latest, ?_⟩
    intro c r hc
    rw [hclock, hstate]
    rcases hadmission c r hc with hc | hpassed
    · exact (h.passed c r hc).trans hle
    · exact hpassed
  · have hdeadline : g.deadline (step g s e).state = g.deadline s.state := by
      rw [hstate, hkeep]
    have hpassed := (h.passed c r hphase).trans hle
    refine ⟨?_, ?_, ?_⟩
    · rw [hlog]
      split
      · refine List.pairwise_append.mpr ⟨h.respected, List.pairwise_singleton _ _, ?_⟩
        intro a ha b hb
        obtain rfl := List.mem_singleton.mp hb
        cases a with
        | admitted t r => trivial
        | announced d => exact (h.latest d ha).trans hpassed
      · rw [List.append_nil]
        exact h.respected
    · intro d hd
      rw [hdeadline]
      refine h.latest d ?_
      rw [hlog] at hd
      rcases List.mem_append.mp hd with hd | hd
      · exact hd
      · split at hd
        · cases List.mem_singleton.mp hd
        · cases hd
    · intro d q hd
      rw [hclock, hdeadline]
      exact (h.passed d q (hadmission d q hd)).trans hle
  · obtain ⟨hnobody, hraised⟩ := horderly x haction
    refine ⟨?_, ?_, ?_⟩
    · rw [hlog]
      refine List.pairwise_append.mpr ⟨h.respected, ?_, ?_⟩
      · split
        · exact List.pairwise_singleton _ _
        · exact List.Pairwise.nil
      · intro a _ b hb
        split at hb
        · obtain rfl := List.mem_singleton.mp hb
          cases a <;> trivial
        · cases hb
    · intro d hd
      rw [hstate]
      rw [hlog] at hd
      rcases List.mem_append.mp hd with hd | hd
      · exact (h.latest d hd).trans hraised
      · split at hd
        · cases List.mem_singleton.mp hd
          exact le_refl _
        · cases hd
    · intro c r hc
      rw [hphase] at hc
      exact absurd hc (hnobody c r)

/-- **Orderly runs respect the deadlines.** -/
theorem respected_of_orderly
    (hkeep : ∀ state r t, g.deadline (g.attempt state r t).1 = g.deadline state) (state : σ)
    (clock : ℚ) {events : List (Event κ ρ ε)}
    (h : Steps.Along (step g) (Orderly g) (System.start state clock) events) :
    Respected (run g (System.start state clock) events).log :=
  (h.invariant (fun _ _ hs he => hs.next g hkeep he) (guarded_start g state clock)).respected

/-! ## §4 Admissions -/

/-- The admissions of a log, with their times. -/
def admissions (log : List (Entry ρ)) : List (ℚ × ρ) :=
  log.filterMap fun
    | .admitted t r => some (t, r)
    | .announced _ => none

/-- What an attempt adds to the admissions. -/
def granted (state : σ) (r : ρ) (t : ℚ) : List (ℚ × ρ) :=
  if (g.attempt state r t).2 = .admitted then [(t, r)] else []

/-- An action whose request or operation is of a given kind. -/
def Action.Of (Q : ρ → Prop) (X : ε → Prop) : Action κ ρ ε → Prop
  | .call _ r => Q r
  | .control x => X x
  | _ => True

/-- A property of the gate, the clock and the admissions that is kept when time
passes, by every attempt and by the other operations. -/
structure Kept (Q : ρ → Prop) (X : ε → Prop) (I : σ → ℚ → List (ℚ × ρ) → Prop) : Prop where
  later : ∀ {state t t' as}, I state t as → t ≤ t' → I state t' as
  attempt : ∀ {state t as r}, Q r → I state t as →
    I (g.attempt state r t).1 t (as ++ granted g state r t)
  control : ∀ {state t as x}, X x → I state t as → I (g.control state x t) t as

variable {g}

/-- **The invariant rule of gates.** -/
theorem Kept.run {Q : ρ → Prop} {X : ε → Prop} {I : σ → ℚ → List (ℚ × ρ) → Prop}
    (h : Kept g Q X I) {state : σ} {t : ℚ} (hstart : I state t [])
    {events : List (Event κ ρ ε)} (hevents : ∀ e ∈ events, e.action.Of Q X) :
    I (run g (System.start state t) events).state (run g (System.start state t) events).clock
      (admissions (run g (System.start state t) events).log) := by
  -- the callers inside the gate carry requests of the kind
  let J (s : System κ σ ρ) : Prop :=
    I s.state s.clock (admissions s.log) ∧ ∀ c r, (s.phase c).request = some r → Q r
  suffices hJ : J (Gated.run g (System.start state t) events) from hJ.1
  refine Steps.Along.invariant ?_ (Steps.along_of_forall hevents) ⟨hstart, fun _ _ h => nomatch h⟩
  rintro s e ⟨hI, hQ⟩ he
  constructor
  · rw [clock_step]
    have hlater := h.later hI (le_reading s e)
    rcases step_moved g s e with ⟨hstate, hlog, -⟩ | ⟨c, r, hphase, hstate, hlog, -⟩ |
      ⟨x, haction, hstate, hlog, -⟩
    · rw [hstate, hlog]
      exact hlater
    · have hgranted : admissions (step g s e).log =
          admissions s.log ++ granted g s.state r (s.reading e) := by
        rw [hlog]
        unfold admissions granted
        rw [List.filterMap_append]
        split <;> rfl
      rw [hstate, hgranted]
      exact h.attempt (hQ c r (by rw [hphase]; rfl)) hlater
    · have hsame : admissions (step g s e).log = admissions s.log := by
        rw [hlog]
        unfold admissions
        rw [List.filterMap_append]
        split <;> exact List.append_nil _
      rw [hstate, hsame]
      rw [haction] at he
      exact h.control he hlater
  · intro c r hr
    rcases request_step g hr with hr | hcall
    · exact hQ c r hr
    · rw [hcall] at he
      exact he

/-- The three steps that take a caller through the gate. -/
def serve (c : κ) (r : ρ) (elapsed : ℚ≥0) : List (Event κ ρ ε) :=
  [⟨elapsed, .call c r⟩, ⟨0, .check c⟩, ⟨0, .attempt c⟩]

/-- A caller that finds the deadline passed and is admitted at once. -/
theorem run_serve {s : System κ σ ρ} {c : κ} {r : ρ} {elapsed : ℚ≥0} {state : σ}
    (hidle : s.phase c = .idle) (hdeadline : g.deadline s.state ≤ s.clock + elapsed)
    (hattempt : g.attempt s.state r (s.clock + elapsed) = (state, .admitted)) :
    run g s (serve c r elapsed) =
      { state := state
        clock := s.clock + elapsed
        phase := s.phase
        log := s.log ++ [.admitted (s.clock + elapsed) r] } := by
  have hpassed : g.deadline s.state - (s.clock + elapsed) ≤ 0 := by linarith
  have hback : Function.update s.phase c .idle = s.phase := by
    rw [← hidle, Function.update_eq_self]
  simp only [serve, Steps.run_cons, Steps.run_nil, step, System.reading, hidle, NNRat.cast_zero,
    Function.update_self, if_pos hpassed, add_zero, hattempt, Function.update_idem, hback]

end Lib.Gated
