/-
Finbar.Streaming.EngineTheorems — what `Engine.create` leaves and what one
update does to it.

A family's state is built for its first name (`buildFamilies_first`); the
states beside the families are new (`create_created`). An update that returns
feeds every family state the bar and takes a snapshot (`update_ok`), and a run
does so for all its bars (`run_afterRun`).

No `sorry`, no `axiom`.
-/
import Finbar.Lib.Entries
import Finbar.Streaming.Engine
import Finbar.Streaming.NameTheorems
import Finbar.Streaming.SessionVpTheorems
import Mathlib.Data.List.Induction
import Mathlib.Data.Rat.Sqrt

namespace Finbar.Streaming

open Lib Lib.Python Lib.Run

variable {rt : Runtime} {requested : List String} {name other : String} {hand : HandState}
  {e e' : Engine}

/-! ## §1 Construction -/

/-- The first requested name of a family. -/
def firstOfFamily (family : String) (names : List String) : Option String :=
  names.find? fun name => canonicalFamily name = family

/-- A name with a hand-written state is served by it. -/
theorem buildState_hand (rt : Runtime) (h : factoryBuild name = some hand) :
    buildState rt name = .ok (.hand hand) := by
  unfold buildState
  rw [factoryBuild_not_causal h, if_neg Bool.false_ne_true, factoryBuild_streaming rt.registry h]
  simp only [Except.bind, bind]
  rw [h]
  rfl

/-- A family keeps its first state. -/
theorem buildFamilies_keeps {elsewhere : String → Bool} {names : List String}
    {families built : List (String × FamilyState)} {family : String} {state : FamilyState}
    (h : buildFamilies rt elsewhere names families = .ok built)
    (hstate : families.lookup family = some state) : built.lookup family = some state := by
  induction names generalizing families with
  | nil =>
      obtain rfl := Except.ok.inj h
      exact hstate
  | cons name names ih =>
      unfold buildFamilies at h
      by_cases helsewhere : elsewhere name = true
      · rw [if_pos helsewhere] at h
        exact ih h hstate
      · rw [if_neg helsewhere] at h
        cases hlookup : families.lookup (canonicalFamily name) with
        | some found =>
            rw [hlookup] at h
            exact ih h hstate
        | none =>
            rw [hlookup] at h
            obtain ⟨new, -, h⟩ := bind_eq_ok.mp h
            refine ih h ?_
            rw [List.lookup_append, hstate]
            rfl

/-- **A family's state is built for its first name.** -/
theorem buildFamilies_first {elsewhere : String → Bool} {names : List String}
    {families built : List (String × FamilyState)} {family first : String}
    (h : buildFamilies rt elsewhere names families = .ok built)
    (hnew : families.lookup family = none)
    (hhere : ∀ name ∈ names, canonicalFamily name = family → elsewhere name = false)
    (hfirst : firstOfFamily family names = some first) :
    ∃ state, buildState rt first = .ok state ∧ built.lookup family = some state := by
  induction names generalizing families with
  | nil => cases hfirst
  | cons name names ih =>
      unfold firstOfFamily at hfirst ih
      have hhere' : ∀ name ∈ names, canonicalFamily name = family → elsewhere name = false :=
        fun n hn => hhere n (List.mem_cons_of_mem name hn)
      unfold buildFamilies at h
      by_cases hfamily : canonicalFamily name = family
      · rw [List.find?_cons_of_pos (by simpa using hfamily)] at hfirst
        obtain rfl := Option.some.inj hfirst
        have hname := hhere name List.mem_cons_self hfamily
        rw [hname, if_neg Bool.false_ne_true, hfamily, hnew] at h
        obtain ⟨state, hstate, h⟩ := bind_eq_ok.mp h
        refine ⟨state, hstate, buildFamilies_keeps h ?_⟩
        rw [List.lookup_append, hnew]
        simp
      · rw [List.find?_cons_of_neg (by simpa using hfamily)] at hfirst
        by_cases helsewhere : elsewhere name = true
        · rw [if_pos helsewhere] at h
          exact ih h hnew hhere' hfirst
        · rw [if_neg helsewhere] at h
          cases hlookup : families.lookup (canonicalFamily name) with
          | some found =>
              rw [hlookup] at h
              exact ih h hnew hhere' hfirst
          | none =>
              rw [hlookup] at h
              obtain ⟨state, -, h⟩ := bind_eq_ok.mp h
              refine ih h ?_ hhere' hfirst
              rw [List.lookup_append, hnew, Option.none_or, List.lookup_eq_none_iff]
              intro entry hentry
              rw [List.mem_singleton] at hentry
              subst hentry
              simpa using Ne.symm hfamily

/-- A name that may get a window of its own. -/
def OwnWindow (registry : HandlerRegistry) (name : String) : Prop :=
  classifyIndicator registry name = .ok .windowed ∧ canonicalFamily name = name

theorem collectWindowed_ownWindow {registry : HandlerRegistry} {names windowed : List String}
    (h : collectWindowed registry names = .ok windowed) :
    ∀ name ∈ windowed, OwnWindow registry name := by
  induction names generalizing windowed with
  | nil =>
      obtain rfl := Except.ok.inj h
      intro name hname
      cases hname
  | cons name names ih =>
      unfold collectWindowed at h
      by_cases hskip : causalNames.contains name ∨ (parseWindowBars name).isSome ∨
          vpRootNames.contains name
      · rw [if_pos hskip] at h
        exact ih h
      · rw [if_neg hskip] at h
        obtain ⟨kind, hkind, h⟩ := bind_eq_ok.mp h
        obtain ⟨rest, hrest, h⟩ := bind_eq_ok.mp h
        by_cases hwindowed : kind = .windowed ∧ canonicalFamily name = name
        · rw [if_pos hwindowed] at h
          obtain rfl := Except.ok.inj h
          obtain ⟨rfl, hfamily⟩ := hwindowed
          intro n hn
          rcases List.mem_cons.mp hn with rfl | hn
          · exact ⟨hkind, hfamily⟩
          · exact ih hrest n hn
        · rw [if_neg hwindowed] at h
          obtain rfl := Except.ok.inj h
          exact ih hrest

/-- What `Engine.create` leaves. -/
structure Created (rt : Runtime) (requested : List String) (e : Engine) : Prop where
  indicators : e.indicators = requested
  barsSeen : e.barsSeen = 0
  latest : e.latest = {}
  sessionVp : ∀ s ∈ e.sessionVp, s = SessionVpState.init
  profile : e.vpDerived.isSome → e.sessionVp.isSome
  derived : ∀ s ∈ e.vpDerived, s = VpDerivedState.init s.names ∧
    ∀ name ∈ s.names, OwnWindow rt.registry name
  batched : ∀ s ∈ e.batched, (∃ maxlen columns,
    s = BatchedWindowedState.init s.names maxlen columns) ∧
    ∀ name ∈ s.names, OwnWindow rt.registry name
  families : buildFamilies rt (Engine.elsewhere e.sessionVp e.vpDerived e.batched) requested []
    = .ok e.families

theorem buildBatched_eq {sessionVp : Option SessionVpState} {vpDerived : Option VpDerivedState}
    {names : List String} {batched : Option BatchedWindowedState}
    (h : buildBatched rt sessionVp vpDerived names = .ok batched) :
    ∀ s ∈ batched, s.names = names ∧
      ∃ maxlen columns, s = BatchedWindowedState.init names maxlen columns := by
  unfold buildBatched at h
  split at h
  · obtain ⟨windows, -, h⟩ := bind_eq_ok.mp h
    obtain rfl := Except.ok.inj h
    intro s hs
    obtain rfl := Option.some.inj hs
    exact ⟨rfl, _, _, rfl⟩
  · obtain rfl := Except.ok.inj h
    intro s hs
    cases hs

theorem create_created (h : Engine.create rt requested = .ok e) : Created rt requested e := by
  unfold Engine.create at h
  obtain ⟨windowed, hwindowed, h⟩ := bind_eq_ok.mp h
  obtain ⟨batched, hbatched, h⟩ := bind_eq_ok.mp h
  obtain ⟨families, hfamilies, h⟩ := bind_eq_ok.mp h
  obtain rfl := Except.ok.inj h
  have hown := collectWindowed_ownWindow hwindowed
  refine ⟨rfl, rfl, rfl, ?_, ?_, ?_, ?_, hfamilies⟩
  · intro s hs
    obtain ⟨-, hs⟩ := Option.mem_ite_none_right.mp hs
    exact (Option.some.inj hs).symm
  · intro hderived
    obtain ⟨s, hs⟩ := Option.isSome_iff_exists.mp hderived
    exact (Option.mem_ite_none_right.mp hs).1.2
  · intro s hs
    obtain ⟨-, hs⟩ := Option.mem_ite_none_right.mp hs
    obtain rfl := Option.some.inj hs
    exact ⟨rfl, fun name hname => hown name (List.mem_of_mem_filter hname)⟩
  · intro s hs
    obtain ⟨hnames, maxlen, columns, hs⟩ := buildBatched_eq hbatched s hs
    refine ⟨⟨maxlen, columns, hnames ▸ hs⟩, ?_⟩
    intro name hname
    rw [hnames] at hname
    exact hown name (List.mem_of_mem_filter hname)

/-! ## §2 Reading -/

/-- A snapshot has the reading of every requested name. -/
theorem snapshot_lookup (rt : Runtime) (h : name ∈ e.indicators) :
    (e.snapshot rt).values.lookup name = e.reading rt name :=
  lookup_filterMap (e.reading rt) h

/-- A name that is not served elsewhere reads the state of its family. -/
theorem stateView_family {state : FamilyState} (hroot : vpRootNames.contains name = false)
    (hhere : Engine.elsewhere e.sessionVp e.vpDerived e.batched name = false)
    (hstate : e.families.lookup (canonicalFamily name) = some state) :
    e.stateView rt name = state.view rt := by
  unfold Engine.elsewhere at hhere
  rw [Bool.or_eq_false_iff, Bool.or_eq_false_iff] at hhere
  obtain ⟨⟨-, hderived⟩, hbatched⟩ := hhere
  have hderivedNone : e.vpDerived.filter (fun s => s.names.contains name) = none := by
    cases hvp : e.vpDerived with
    | none => rfl
    | some s =>
        rw [hvp] at hderived
        rw [Option.filter_some, if_neg (by simpa using hderived)]
  have hbatchedNone : e.batched.filter (fun s => s.names.contains name) = none := by
    cases hwindow : e.batched with
    | none => rfl
    | some s =>
        rw [hwindow] at hbatched
        rw [Option.filter_some, if_neg (by simpa using hbatched)]
  unfold Engine.stateView
  rw [hroot, hderivedNone, hbatchedNone, hstate]
  cases e.sessionVp with
  | none => rfl
  | some s => rfl

/-! ## §3 Runs that return -/

/-- A family state after a sequence of bars. -/
def FamilyState.feed (rt : Runtime) (state : FamilyState) (bars : List StreamBar) :
    FamilyState :=
  bars.foldl (fun state bar => (state.update rt bar).1) state

theorem FamilyState.feed_append (state : FamilyState) (bars : List StreamBar)
    (bar : StreamBar) :
    state.feed rt (bars ++ [bar]) = ((state.feed rt bars).update rt bar).1 := by
  unfold FamilyState.feed
  rw [List.foldl_append]
  rfl

/-- `e'` is `e` after updates with `bars` that return. -/
structure Fed (rt : Runtime) (bars : List StreamBar) (e e' : Engine) : Prop where
  indicators : e'.indicators = e.indicators
  elsewhere : ∀ name, Engine.elsewhere e'.sessionVp e'.vpDerived e'.batched name
    = Engine.elsewhere e.sessionVp e.vpDerived e.batched name
  families : e'.families = e.families.map fun family => (family.1, family.2.feed rt bars)
  latest : e'.latest = if bars = [] then e.latest else e'.snapshot rt

theorem updateFamilies_ok {bar : StreamBar} {families families' : List (String × FamilyState)}
    (h : updateFamilies rt bar families = (families', none)) :
    families' = families.map fun family => (family.1, (family.2.update rt bar).1) := by
  induction families generalizing families' with
  | nil =>
      cases h
      rfl
  | cons family families ih =>
      obtain ⟨key, state⟩ := family
      unfold updateFamilies at h
      cases hstate : state.update rt bar with
      | mk state' raised =>
          rw [hstate] at h
          cases raised with
          | some err => cases h
          | none =>
              cases hrest : updateFamilies rt bar families with
              | mk rest raised =>
                  rw [hrest] at h
                  cases h
                  rw [List.map_cons, ← ih hrest, hstate]

/-- A state that is updated without the others raising does not raise. -/
theorem updateFamilies_returns {bar : StreamBar} {families families' : List (String × FamilyState)}
    (h : updateFamilies rt bar families = (families', none)) {family : String}
    {state : FamilyState} (hstate : families.lookup family = some state) :
    (state.update rt bar).2 = none := by
  induction families generalizing families' with
  | nil => cases hstate
  | cons entry families ih =>
      obtain ⟨key, first⟩ := entry
      unfold updateFamilies at h
      cases hfirst : first.update rt bar with
      | mk next raised =>
          rw [hfirst] at h
          cases raised with
          | some err => cases h
          | none =>
              simp only at h
              cases hrest : updateFamilies rt bar families with
              | mk families'' raised =>
                  rw [hrest] at h
                  obtain rfl : raised = none := congrArg Prod.snd h
                  rw [List.lookup_cons] at hstate
                  split at hstate
                  · obtain rfl := Option.some.inj hstate
                    rw [hfirst]
                  · exact ih hrest hstate

theorem VpDerivedState.update_names (handlers : Handlers) (s : VpDerivedState)
    (vp : SessionVpState) (bar : StreamBar) : (s.update handlers vp bar).1.names = s.names := by
  unfold VpDerivedState.update
  simp only
  split
  · rfl
  · split
    · rfl
    · rfl

theorem BatchedWindowedState.update_names (handlers : Handlers) (s : BatchedWindowedState)
    (bar : StreamBar) (injected : List (String × PyValue)) :
    (s.update handlers bar injected).1.names = s.names := by
  unfold BatchedWindowedState.update
  simp only
  split
  · rfl
  · split
    · rfl
    · split
      · rfl
      · rfl

theorem updateDerived_names (rt : Runtime) (vpDerived : Option VpDerivedState)
    (sessionVp : Option SessionVpState) (bar : StreamBar) :
    (updateDerived rt vpDerived sessionVp bar).1.map VpDerivedState.names
      = vpDerived.map VpDerivedState.names := by
  cases vpDerived with
  | none => rfl
  | some s =>
      cases sessionVp with
      | none => rfl
      | some vp => exact congrArg some (s.update_names rt.handlers vp bar)

theorem updateBatched_names (rt : Runtime) (batched : Option BatchedWindowedState)
    (sessionVp : Option SessionVpState) (bar : StreamBar) :
    (updateBatched rt batched sessionVp bar).1.map BatchedWindowedState.names
      = batched.map BatchedWindowedState.names := by
  cases batched with
  | none => rfl
  | some s =>
      exact congrArg some (s.update_names rt.handlers bar (injectedValues sessionVp))

/-- A name's route depends on the names of the states only. -/
theorem elsewhere_eq (sessionVp : Option SessionVpState) (vpDerived : Option VpDerivedState)
    (batched : Option BatchedWindowedState) (name : String) :
    Engine.elsewhere sessionVp vpDerived batched name =
      ((sessionVp.isSome && vpRootNames.contains name) ||
        (vpDerived.map VpDerivedState.names).any (·.contains name) ||
        (batched.map BatchedWindowedState.names).any (·.contains name)) := by
  unfold Engine.elsewhere
  rw [Option.any_map, Option.any_map]

/-- **What an update does that returns.** The session profile comes first, and the
states that read it see it after the bar. -/
theorem update_ok {bar : StreamBar} {latest : LatestBar}
    (h : e.update rt bar = (e', .ok latest)) :
    e'.sessionVp = e.sessionVp.map (fun s => s.update rt.sessionDateOf rt.distribute bar) ∧
      updateDerived rt e.vpDerived e'.sessionVp bar = (e'.vpDerived, none) ∧
      updateBatched rt e.batched e'.sessionVp bar = (e'.batched, none) ∧
      updateFamilies rt bar e.families = (e'.families, none) ∧
      e'.indicators = e.indicators ∧ e'.latest = e'.snapshot rt := by
  unfold Engine.update at h
  simp only at h
  cases hderived : updateDerived rt e.vpDerived
      (e.sessionVp.map fun s => s.update rt.sessionDateOf rt.distribute bar) bar with
  | mk vpDerived raised =>
      rw [hderived] at h
      cases raised with
      | some err => cases h
      | none =>
          simp only at h
          cases hbatched : updateBatched rt e.batched
              (e.sessionVp.map fun s => s.update rt.sessionDateOf rt.distribute bar) bar with
          | mk batched raised =>
              rw [hbatched] at h
              cases raised with
              | some err => cases h
              | none =>
                  simp only at h
                  cases hfamilies : updateFamilies rt bar e.families with
                  | mk families raised =>
                      rw [hfamilies] at h
                      cases raised with
                      | some err => cases h
                      | none =>
                          cases h
                          exact ⟨rfl, hderived, hbatched, rfl, rfl, rfl⟩

/-- **One update that returns.** -/
theorem update_fed {bar : StreamBar} {latest : LatestBar}
    (h : e.update rt bar = (e', .ok latest)) : Fed rt [bar] e e' := by
  obtain ⟨hsession, hderived, hbatched, hfamilies, hindicators, hlatest⟩ := update_ok h
  refine ⟨hindicators, fun name => ?_, updateFamilies_ok hfamilies, hlatest⟩
  have hderivedNames := updateDerived_names rt e.vpDerived e'.sessionVp bar
  have hbatchedNames := updateBatched_names rt e.batched e'.sessionVp bar
  rw [hderived] at hderivedNames
  rw [hbatched] at hbatchedNames
  rw [elsewhere_eq, elsewhere_eq, ← hderivedNames, ← hbatchedNames, hsession, Option.isSome_map]

theorem Fed.snoc {bars : List StreamBar} {bar : StreamBar} {e₁ : Engine}
    (hbars : Fed rt bars e e₁) (hbar : Fed rt [bar] e₁ e') : Fed rt (bars ++ [bar]) e e' where
  indicators := hbar.indicators.trans hbars.indicators
  elsewhere name := (hbar.elsewhere name).trans (hbars.elsewhere name)
  families := by
    rw [hbar.families, hbars.families, List.map_map]
    refine List.map_congr_left fun family _ => ?_
    show (family.1, (family.2.feed rt bars).feed rt [bar]) = _
    rw [FamilyState.feed_append]
    rfl
  latest := by
    rw [hbar.latest, if_neg (List.cons_ne_nil _ _),
      if_neg (List.append_ne_nil_of_right_ne_nil _ (List.cons_ne_nil _ _))]

/-- A run that ends with an update. -/
theorem run_concat {bars : List StreamBar} {bar : StreamBar} :
    e.run rt (bars ++ [bar]) = .ok e' ↔
      ∃ before latest, e.run rt bars = .ok before ∧ before.update rt bar = (e', .ok latest) := by
  unfold Engine.run
  rw [List.foldlM_append, bind_eq_ok]
  refine exists_congr fun before => ?_
  rw [List.foldlM_cons]
  cases before.update rt bar with
  | mk after result =>
      cases result with
      | error err =>
          constructor
          · rintro ⟨-, h⟩
            cases h
          · rintro ⟨latest, -, h⟩
            cases h
      | ok latest =>
          constructor
          · rintro ⟨hbefore, h⟩
            obtain rfl : after = e' := Except.ok.inj h
            exact ⟨latest, hbefore, rfl⟩
          · rintro ⟨latest', hbefore, h⟩
            obtain rfl : after = e' := congrArg Prod.fst h
            exact ⟨hbefore, rfl⟩

/-- **A run whose updates return.** -/
theorem run_fed {bars : List StreamBar} (h : e.run rt bars = .ok e') : Fed rt bars e e' := by
  induction bars using List.reverseRecOn generalizing e' with
  | nil =>
      obtain rfl := Except.ok.inj h
      refine ⟨rfl, fun _ => rfl, ?_, rfl⟩
      exact (List.map_id e.families).symm
  | append_singleton bars bar ih =>
      obtain ⟨before, latest, hbars, hupdate⟩ := run_concat.mp h
      exact (ih hbars).snoc (update_fed hupdate)

/-- A family's state after a run. -/
theorem Fed.lookup {bars : List StreamBar} (h : Fed rt bars e e') {family : String}
    {state : FamilyState} (hstate : e.families.lookup family = some state) :
    e'.families.lookup family = some (state.feed rt bars) := by
  rw [h.families]
  obtain ⟨before, after, hfamilies, hnone⟩ := List.lookup_eq_some_iff.mp hstate
  rw [List.lookup_eq_some_iff]
  refine ⟨before.map fun f => (f.1, f.2.feed rt bars), after.map fun f => (f.1, f.2.feed rt bars),
    ?_, ?_⟩
  · rw [hfamilies, List.map_append, List.map_cons]
  · intro entry hentry
    obtain ⟨f, hf, rfl⟩ := List.mem_map.mp hentry
    exact hnone f hf

/-! ## §4 A sample runtime -/

/-- The square root of a rational with a rational root. -/
def sampleSqrt (q : ℚ) : ℚ := Rat.sqrt q

/-- A runtime that knows `poc_slope_5`; its batch handlers return NaN. -/
def sampleRuntime : Runtime where
  sessionDateOf := PyValue.toStr
  distribute := nearestBucket
  sqrt := sampleSqrt
  handlers :=
    { toDatetime := fun _ values => .ok ⟨values.map fun _ => none, List.length_map _⟩
      windowed := fun _ _ => .ok nan
      batched := fun names _ _ => .ok (names.map fun name => (name, nan))
      derived := fun _ _ _ => .ok []
      causal := fun _ _ => .ok nan
      rollingVp := fun _ _ _ => .ok nan }
  registry := { requires := [("poc_slope_5", ["vp_poc"])], bb_free := rfl }
  minLookback := fun _ => none
  windowResolver := none

end Finbar.Streaming
