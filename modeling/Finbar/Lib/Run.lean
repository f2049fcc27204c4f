/-
Finbar.Lib.Run — fallible runs: a step function folded over a list in
`Except`, with the rules the developments above use instead of unfolding
the fold.

A run is `as.foldlM step s`; the state after its first `k` steps is the
run over `as.take k`. Three judgements are read off a fallible result:

* `Ensures x P` — `x` returns, and what it returns satisfies `P` (total
  correctness, so a run that raises satisfies nothing);
* `Yields x P` — whatever `x` returns satisfies `P` (partial correctness);
* `Lockstep x y R` — both return, and the results are related by `R`;
* `Alike x y R` — both raise the same error, or both return related results.

Each has a rule for `pure`, for `bind` and for the fold, and
`Ensures.foldlM_take` is the invariant rule at EVERY prefix of the run.

No `sorry`, no `axiom`.
-/
import Mathlib.Data.List.Basic

namespace Lib.Run

universe u v w

variable {ε : Type u} {σ τ σ' τ' : Type v} {α : Type w}

/-! ## §1 Total correctness of one computation -/

/-- `x` returns a state that satisfies `P`. -/
def Ensures (x : Except ε σ) (P : σ → Prop) : Prop :=
  ∃ s, x = .ok s ∧ P s

theorem Ensures.pure {s : σ} {P : σ → Prop} (h : P s) :
    Ensures (Pure.pure s : Except ε σ) P :=
  ⟨s, rfl, h⟩

theorem Ensures.bind {x : Except ε σ} {f : σ → Except ε τ} {P : σ → Prop}
    {Q : τ → Prop} (hx : Ensures x P) (hf : ∀ s, P s → Ensures (f s) Q) :
    Ensures (x >>= f) Q := by
  obtain ⟨s, rfl, hs⟩ := hx
  exact hf s hs

theorem Ensures.mono {x : Except ε σ} {P Q : σ → Prop} (hx : Ensures x P)
    (hPQ : ∀ s, P s → Q s) : Ensures x Q := by
  obtain ⟨s, hs, hP⟩ := hx
  exact ⟨s, hs, hPQ s hP⟩

/-- What a computation ensures is true of the state it returned. -/
theorem Ensures.of_eq_ok {x : Except ε σ} {P : σ → Prop} (hx : Ensures x P)
    {s : σ} (hs : x = .ok s) : P s := by
  obtain ⟨s', hs', hP⟩ := hx
  obtain rfl : s = s' := Except.ok.inj (hs.symm.trans hs')
  exact hP

/-- A decidable postcondition of a computation can be checked by running
it. -/
theorem Ensures.of_run {x : Except ε σ} {P : σ → Prop} [DecidablePred P]
    (h : (match x with
      | .ok s => decide (P s)
      | .error _ => false) = true) : Ensures x P := by
  cases x with
  | error e => cases h
  | ok s => exact ⟨s, rfl, of_decide_eq_true h⟩

/-- A sequence of two computations returns when both do. -/
theorem bind_eq_ok {x : Except ε σ} {f : σ → Except ε τ} {t : τ} :
    x >>= f = .ok t ↔ ∃ s, x = .ok s ∧ f s = .ok t := by
  cases x with
  | error e =>
      constructor
      · intro h; cases h
      · rintro ⟨s, hs, -⟩; cases hs
  | ok s =>
      constructor
      · intro h; exact ⟨s, rfl, h⟩
      · rintro ⟨s', hs', h⟩
        obtain rfl : s = s' := Except.ok.inj hs'
        exact h

/-- The results of a `mapM` that returns. -/
theorem mem_of_mapM_eq_ok {f : α → Except ε σ} {as : List α} {results : List σ}
    (h : as.mapM f = .ok results) {result : σ} :
    result ∈ results ↔ ∃ a ∈ as, f a = .ok result := by
  induction as generalizing results with
  | nil =>
      obtain rfl := Except.ok.inj h
      simp
  | cons a as ih =>
      rw [List.mapM_cons] at h
      obtain ⟨first, hfirst, h⟩ := bind_eq_ok.mp h
      obtain ⟨rest, hrest, h⟩ := bind_eq_ok.mp h
      obtain rfl := Except.ok.inj h
      rw [List.mem_cons, ih hrest, List.exists_mem_cons_iff, hfirst]
      exact or_congr ⟨fun heq => congrArg Except.ok heq.symm, fun heq => (Except.ok.inj heq).symm⟩
        Iff.rfl

/-- A `mapM` that returns does so at every item. -/
theorem exists_of_mapM_eq_ok {f : α → Except ε σ} {as : List α} {results : List σ}
    (h : as.mapM f = .ok results) : ∀ a ∈ as, ∃ s, f a = .ok s := by
  induction as generalizing results with
  | nil => exact fun a ha => absurd ha List.not_mem_nil
  | cons a as ih =>
      rw [List.mapM_cons] at h
      obtain ⟨first, hfirst, h⟩ := bind_eq_ok.mp h
      obtain ⟨rest, hrest, -⟩ := bind_eq_ok.mp h
      intro b hb
      rcases List.mem_cons.mp hb with rfl | hb
      · exact ⟨first, hfirst⟩
      · exact ih hrest b hb

/-- A `mapM` of computations that all return. -/
theorem mapM_eq_ok {f : α → Except ε σ} {g : α → σ} {as : List α}
    (h : ∀ a ∈ as, f a = .ok (g a)) : as.mapM f = .ok (as.map g) := by
  induction as with
  | nil => rfl
  | cons a as ih =>
      rw [List.mapM_cons, h a List.mem_cons_self, ih fun b hb => h b (List.mem_cons_of_mem a hb)]
      rfl

/-- Computations that are the same for every item. -/
theorem mapM_congr {f g : α → Except ε σ} {as : List α} (h : ∀ a ∈ as, f a = g a) :
    as.mapM f = as.mapM g := by
  induction as with
  | nil => rfl
  | cons a as ih =>
      rw [List.mapM_cons, List.mapM_cons, h a List.mem_cons_self,
        ih fun b hb => h b (List.mem_cons_of_mem a hb)]

/-- A `mapM` raises what the first item raises that does not return. -/
theorem mapM_eq_error_iff {f : α → Except ε σ} {as : List α} {e : ε} :
    as.mapM f = .error e ↔ ∃ before a after, as = before ++ a :: after ∧
      (∀ b ∈ before, ∃ s, f b = .ok s) ∧ f a = .error e := by
  induction as with
  | nil =>
      constructor
      · intro h
        cases h
      · rintro ⟨before, a, after, h, -⟩
        cases before <;> cases h
  | cons a as ih =>
      rw [List.mapM_cons]
      cases ha : f a with
      | error e' =>
          constructor
          · intro h
            cases h
            exact ⟨[], a, as, rfl, fun b hb => absurd hb List.not_mem_nil, ha⟩
          · rintro ⟨before, b, after, hsplit, hbefore, hb⟩
            cases before with
            | nil =>
                obtain ⟨rfl, rfl⟩ := List.cons.inj hsplit
                rw [ha] at hb
                cases hb
                rfl
            | cons first before =>
                obtain ⟨rfl, -⟩ := List.cons.inj hsplit
                obtain ⟨s, hs⟩ := hbefore a List.mem_cons_self
                rw [ha] at hs
                cases hs
      | ok s =>
          constructor
          · intro h
            cases hrest : as.mapM f with
            | ok rest =>
                rw [hrest] at h
                cases h
            | error e' =>
                rw [hrest] at h
                cases h
                obtain ⟨before, b, after, rfl, hbefore, hb⟩ := ih.mp hrest
                refine ⟨a :: before, b, after, rfl, fun c hc => ?_, hb⟩
                rcases List.mem_cons.mp hc with rfl | hc
                · exact ⟨s, ha⟩
                · exact hbefore c hc
          · rintro ⟨before, b, after, hsplit, hbefore, hb⟩
            cases before with
            | nil =>
                obtain ⟨rfl, rfl⟩ := List.cons.inj hsplit
                rw [ha] at hb
                cases hb
            | cons first before =>
                obtain ⟨rfl, rfl⟩ := List.cons.inj hsplit
                rw [ih.mpr ⟨before, b, after, rfl,
                  fun c hc => hbefore c (List.mem_cons_of_mem a hc), hb⟩]
                rfl

/-- A `forM` that returns does so at every item. -/
theorem eq_ok_of_forM {f : α → Except ε PUnit} {as : List α} {u : PUnit}
    (h : as.forM f = .ok u) : ∀ a ∈ as, f a = .ok ⟨⟩ := by
  induction as with
  | nil => exact fun _ ha => nomatch ha
  | cons a as ih =>
      obtain ⟨⟨⟩, hfirst, hrest⟩ := bind_eq_ok.mp
        (show (f a >>= fun _ => as.forM f) = .ok u from h)
      intro b hb
      rcases List.mem_cons.mp hb with rfl | hb
      · exact hfirst
      · exact ih hrest b hb

/-- A `forM` that raises does so at some item. -/
theorem exists_error_of_forM {f : α → Except ε PUnit} {as : List α} {e : ε}
    (h : as.forM f = .error e) : ∃ a ∈ as, f a = .error e := by
  induction as with
  | nil => cases h
  | cons a as ih =>
      have hcons : (f a >>= fun _ => as.forM f) = .error e := h
      cases hfirst : f a with
      | error e' =>
          rw [hfirst] at hcons
          cases hcons
          exact ⟨a, List.mem_cons_self, hfirst⟩
      | ok u =>
          rw [hfirst] at hcons
          obtain ⟨b, hb, hraises⟩ := ih hcons
          exact ⟨b, List.mem_cons_of_mem a hb, hraises⟩

/-- A `mapM` returns exactly when it returns for every item. -/
theorem isSome_mapM_iff {f : α → Option σ} {as : List α} :
    (as.mapM f).isSome ↔ ∀ a ∈ as, (f a).isSome := by
  induction as with
  | nil => simp
  | cons a as ih =>
      rw [List.forall_mem_cons, ← ih, List.mapM_cons]
      cases f a with
      | none => simp
      | some first => cases as.mapM f <;> simp

/-! ## §2 The invariant rule -/

/-- **The invariant rule.** A step that returns and keeps `I`, for every
element of the list, gives a run that returns and keeps `I`. -/
theorem Ensures.foldlM {step : σ → α → Except ε σ} {I : σ → Prop} {as : List α}
    (hstep : ∀ s, ∀ a ∈ as, I s → Ensures (step s a) I) {s : σ} (hs : I s) :
    Ensures (as.foldlM step s) I := by
  induction as generalizing s with
  | nil => exact Ensures.pure hs
  | cons a as ih =>
      rw [List.foldlM_cons]
      refine Ensures.bind (hstep s a List.mem_cons_self hs) ?_
      intro s' hs'
      exact ih (fun t b hb => hstep t b (List.mem_cons_of_mem a hb)) hs'

/-- The invariant rule at every prefix of a run. -/
theorem Ensures.foldlM_take {step : σ → α → Except ε σ} {I : σ → Prop}
    {as : List α} (hstep : ∀ s, ∀ a ∈ as, I s → Ensures (step s a) I)
    {s : σ} (hs : I s) (k : ℕ) : Ensures ((as.take k).foldlM step s) I :=
  Ensures.foldlM (fun t a ha => hstep t a (List.mem_of_mem_take ha)) hs

/-- One more step of a run: the state after `k + 1` steps is one step from
the state after `k`. -/
theorem foldlM_take_succ (step : σ → α → Except ε σ) {as : List α} {k : ℕ}
    {a : α} (ha : as[k]? = some a) (s : σ) :
    (as.take (k + 1)).foldlM step s
      = (as.take k).foldlM step s >>= fun t => step t a := by
  rw [List.take_add_one, ha, Option.toList_some, List.foldlM_append]
  simp only [List.foldlM_cons, List.foldlM_nil, bind_pure]

/-- Beyond the end of the list a run no longer moves. -/
theorem foldlM_take_of_length_le (step : σ → α → Except ε σ) {as : List α}
    {k : ℕ} (hk : as.length ≤ k) (s : σ) :
    (as.take k).foldlM step s = as.foldlM step s := by
  rw [List.take_of_length_le hk]

/-! ## §3 Two runs in lock step -/

/-- Both computations return, and what they return is related by `R`. -/
def Lockstep (x : Except ε σ) (y : Except ε τ) (R : σ → τ → Prop) : Prop :=
  ∃ s t, x = .ok s ∧ y = .ok t ∧ R s t

theorem Lockstep.pure {s : σ} {t : τ} {R : σ → τ → Prop} (h : R s t) :
    Lockstep (Pure.pure s : Except ε σ) (Pure.pure t : Except ε τ) R :=
  ⟨s, t, rfl, rfl, h⟩

theorem Lockstep.mono {x : Except ε σ} {y : Except ε τ} {R R' : σ → τ → Prop}
    (h : Lockstep x y R) (hR : ∀ s t, R s t → R' s t) : Lockstep x y R' := by
  obtain ⟨s, t, hs, ht, hst⟩ := h
  exact ⟨s, t, hs, ht, hR s t hst⟩

theorem Lockstep.bind {x : Except ε σ} {y : Except ε τ}
    {f : σ → Except ε σ'} {g : τ → Except ε τ'} {R : σ → τ → Prop}
    {R' : σ' → τ' → Prop} (h : Lockstep x y R)
    (hfg : ∀ s t, R s t → Lockstep (f s) (g t) R') :
    Lockstep (x >>= f) (y >>= g) R' := by
  obtain ⟨s, t, rfl, rfl, hst⟩ := h
  exact hfg s t hst

/-- **The simulation rule.** Two step functions that keep `R` on the same
input keep it over a whole run on the same inputs. -/
theorem Lockstep.foldlM {f : σ → α → Except ε σ} {g : τ → α → Except ε τ}
    {R : σ → τ → Prop} {as : List α}
    (hstep : ∀ s t, ∀ a ∈ as, R s t → Lockstep (f s a) (g t a) R)
    {s : σ} {t : τ} (hst : R s t) :
    Lockstep (as.foldlM f s) (as.foldlM g t) R := by
  induction as generalizing s t with
  | nil => exact Lockstep.pure hst
  | cons a as ih =>
      rw [List.foldlM_cons, List.foldlM_cons]
      refine Lockstep.bind (hstep s t a List.mem_cons_self hst) ?_
      intro s' t' hst'
      exact ih (fun s t b hb => hstep s t b (List.mem_cons_of_mem a hb)) hst'

/-! ## §4 Two runs that raise alike -/

/-- Both computations raise the same, or both return, and what they return is related by
`R`. -/
inductive Alike (x : Except ε σ) (y : Except ε τ) (R : σ → τ → Prop) : Prop
  | raises {e : ε} (hx : x = .error e) (hy : y = .error e)
  | returns {s : σ} {t : τ} (hx : x = .ok s) (hy : y = .ok t) (h : R s t)

theorem Alike.pure {s : σ} {t : τ} {R : σ → τ → Prop} (h : R s t) :
    Alike (Pure.pure s : Except ε σ) (Pure.pure t : Except ε τ) R :=
  .returns rfl rfl h

theorem Alike.refl (x : Except ε σ) : Alike x x Eq := by
  cases x with
  | error e => exact .raises rfl rfl
  | ok s => exact .returns rfl rfl rfl

theorem Alike.bind {x : Except ε σ} {y : Except ε τ}
    {f : σ → Except ε σ'} {g : τ → Except ε τ'} {R : σ → τ → Prop}
    {R' : σ' → τ' → Prop} (h : Alike x y R)
    (hfg : ∀ s t, R s t → Alike (f s) (g t) R') :
    Alike (x >>= f) (y >>= g) R' := by
  cases h with
  | raises hx hy =>
      rw [hx, hy]
      exact .raises rfl rfl
  | returns hx hy h =>
      rw [hx, hy]
      exact hfg _ _ h

theorem Alike.mono {x : Except ε σ} {y : Except ε τ} {R R' : σ → τ → Prop}
    (h : Alike x y R) (hR : ∀ s t, R s t → R' s t) : Alike x y R' := by
  cases h with
  | raises hx hy => exact .raises hx hy
  | returns hx hy h => exact .returns hx hy (hR _ _ h)

theorem Alike.error_iff {x : Except ε σ} {y : Except ε τ} {R : σ → τ → Prop}
    (h : Alike x y R) {e : ε} : x = .error e ↔ y = .error e := by
  cases h with
  | raises hx hy => rw [hx, hy, Except.error.injEq, Except.error.injEq]
  | returns hx hy =>
      rw [hx, hy]
      exact iff_of_false nofun nofun

theorem Alike.of_eq_ok {x : Except ε σ} {y : Except ε τ} {R : σ → τ → Prop}
    (h : Alike x y R) {s : σ} (hs : x = .ok s) : ∃ t, y = .ok t ∧ R s t := by
  cases h with
  | raises hx => rw [hx] at hs; cases hs
  | returns hx hy h =>
      obtain rfl := Except.ok.inj (hx.symm.trans hs)
      exact ⟨_, hy, h⟩

/-- The simulation rule for runs that may raise. -/
theorem Alike.foldlM {f : σ → α → Except ε σ} {g : τ → α → Except ε τ}
    {R : σ → τ → Prop} {as : List α}
    (hstep : ∀ s t, ∀ a ∈ as, R s t → Alike (f s a) (g t a) R)
    {s : σ} {t : τ} (hst : R s t) :
    Alike (as.foldlM f s) (as.foldlM g t) R := by
  induction as generalizing s t with
  | nil => exact Alike.pure hst
  | cons a as ih =>
      rw [List.foldlM_cons, List.foldlM_cons]
      refine Alike.bind (hstep s t a List.mem_cons_self hst) ?_
      intro s' t' hst'
      exact ih (fun s t b hb => hstep s t b (List.mem_cons_of_mem a hb)) hst'

/-- A run raises what its first failing step raises. -/
theorem foldlM_eq_error_iff {step : σ → α → Except ε σ} {as : List α} {s : σ} {e : ε} :
    as.foldlM step s = .error e ↔ ∃ before a after t, as = before ++ a :: after ∧
      before.foldlM step s = .ok t ∧ step t a = .error e := by
  constructor
  · intro h
    induction as generalizing s with
    | nil => cases h
    | cons a as ih =>
        rw [List.foldlM_cons] at h
        cases ha : step s a with
        | error e' =>
            rw [ha] at h
            cases h
            exact ⟨[], a, as, s, rfl, rfl, ha⟩
        | ok next =>
            rw [ha] at h
            obtain ⟨before, b, after, t, rfl, hbefore, hb⟩ := ih h
            refine ⟨a :: before, b, after, t, rfl, ?_, hb⟩
            rw [List.foldlM_cons, ha]
            exact hbefore
  · rintro ⟨before, a, after, t, rfl, hbefore, ha⟩
    rw [List.foldlM_append, hbefore]
    show (a :: after).foldlM step t = _
    rw [List.foldlM_cons, ha]
    rfl

/-- The steps of a run that returns all return. -/
theorem exists_of_foldlM_append {step : σ → α → Except ε σ} {before after : List α} {a : α}
    {s result : σ} (h : (before ++ a :: after).foldlM step s = .ok result) :
    ∃ t t', before.foldlM step s = .ok t ∧ step t a = .ok t' := by
  rw [List.foldlM_append] at h
  obtain ⟨t, ht, h⟩ := bind_eq_ok.mp h
  rw [List.foldlM_cons] at h
  obtain ⟨t', ht', -⟩ := bind_eq_ok.mp h
  exact ⟨t, t', ht, ht'⟩

/-- Steps that return what other steps return. -/
theorem foldlM_eq_ok_of_step {f g : σ → α → Except ε σ}
    (hstep : ∀ s a s', f s a = .ok s' → g s a = .ok s') {as : List α} {s t : σ}
    (h : as.foldlM f s = .ok t) : as.foldlM g s = .ok t := by
  induction as generalizing s with
  | nil => exact h
  | cons a as ih =>
      rw [List.foldlM_cons] at h ⊢
      obtain ⟨s', hs', h⟩ := bind_eq_ok.mp h
      rw [hstep s a s' hs']
      exact ih h

/-- Of two places in a list one comes first. -/
theorem split_cases {before after before' after' : List α} {a a' : α}
    (h : before ++ a :: after = before' ++ a' :: after') :
    (∃ rest, before' = before ++ a :: rest) ∨ (before' = before ∧ a' = a) ∨
      ∃ rest, before = before' ++ a' :: rest := by
  induction before generalizing before' with
  | nil =>
      cases before' with
      | nil => exact .inr (.inl ⟨rfl, (List.cons.inj h).1.symm⟩)
      | cons b before' =>
          obtain ⟨rfl, -⟩ := List.cons.inj h
          exact .inl ⟨before', rfl⟩
  | cons b before ih =>
      cases before' with
      | nil =>
          obtain ⟨rfl, -⟩ := List.cons.inj h
          exact .inr (.inr ⟨before, rfl⟩)
      | cons b' before' =>
          obtain ⟨rfl, htail⟩ := List.cons.inj h
          rcases ih htail with ⟨rest, rfl⟩ | ⟨rfl, rfl⟩ | ⟨rest, rfl⟩
          · exact .inl ⟨rest, rfl⟩
          · exact .inr (.inl ⟨rfl, rfl⟩)
          · exact .inr (.inr ⟨rest, rfl⟩)

/-! ## §5 Partial correctness -/

/-- Whatever `x` returns satisfies `P`. -/
def Yields (x : Except ε σ) (P : σ → Prop) : Prop :=
  ∀ s, x = .ok s → P s

theorem Yields.pure {s : σ} {P : σ → Prop} (h : P s) :
    Yields (Pure.pure s : Except ε σ) P := by
  intro s' hs'
  obtain rfl : s = s' := Except.ok.inj hs'
  exact h

theorem Yields.bind {x : Except ε σ} {f : σ → Except ε τ} {P : σ → Prop}
    {Q : τ → Prop} (hx : Yields x P) (hf : ∀ s, P s → Yields (f s) Q) :
    Yields (x >>= f) Q := by
  intro t ht
  obtain ⟨s, hs, hfs⟩ := bind_eq_ok.mp ht
  exact hf s (hx s hs) t hfs

/-- Where nothing has to be known of the first result. -/
theorem Yields.bind_of_forall {x : Except ε σ} {f : σ → Except ε τ} {Q : τ → Prop}
    (hf : ∀ s, Yields (f s) Q) : Yields (x >>= f) Q := by
  intro t ht
  obtain ⟨s, -, hfs⟩ := bind_eq_ok.mp ht
  exact hf s t hfs

theorem Yields.mono {x : Except ε σ} {P Q : σ → Prop} (hx : Yields x P)
    (hPQ : ∀ s, P s → Q s) : Yields x Q :=
  fun s hs => hPQ s (hx s hs)

/-- The invariant rule for runs that may raise. -/
theorem Yields.foldlM {step : σ → α → Except ε σ} {I : σ → Prop} {as : List α}
    (hstep : ∀ s, ∀ a ∈ as, I s → Yields (step s a) I) {s : σ} (hs : I s) :
    Yields (as.foldlM step s) I := by
  induction as generalizing s with
  | nil => exact Yields.pure hs
  | cons a as ih =>
      rw [List.foldlM_cons]
      refine Yields.bind (hstep s a List.mem_cons_self hs) ?_
      intro s' hs'
      exact ih (fun t b hb => hstep t b (List.mem_cons_of_mem a hb)) hs'

/-- The invariant rule where the invariant speaks of the number of steps
taken. -/
theorem Yields.foldlM_take {step : σ → α → Except ε σ} {I : ℕ → σ → Prop}
    {as : List α} {s : σ} (hs : I 0 s)
    (hstep : ∀ k t a, as[k]? = some a → I k t → Yields (step t a) (I (k + 1)))
    (hend : ∀ k t, as.length ≤ k → I k t → I (k + 1) t) (k : ℕ) :
    Yields ((as.take k).foldlM step s) (I k) := by
  induction k with
  | zero => exact Yields.pure hs
  | succ k ih =>
      cases ha : as[k]? with
      | some a =>
          rw [foldlM_take_succ step ha]
          exact Yields.bind ih (fun t ht => hstep k t a ha ht)
      | none =>
          have hlen : as.length ≤ k := List.getElem?_eq_none_iff.mp ha
          rw [foldlM_take_of_length_le step (Nat.le_succ_of_le hlen)]
          rw [foldlM_take_of_length_le step hlen] at ih
          exact ih.mono (fun t ht => hend k t hlen ht)

end Lib.Run
