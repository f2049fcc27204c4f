/-
Finbar.Streaming.ResetTheorems — what `Engine.reset` restores.

The family states and the batched window forget whatever they were fed
(`reset_families`, `reset_batched`). The derived metrics keep their buffers,
and the session profile keeps its date and its closed sessions. Where these
are not read, a reset engine reports what a new one does
(`reset_sameReports`).

No `sorry`, no `axiom`.
-/
import Finbar.Lib.Machine
import Finbar.Streaming.EngineTheorems

namespace Finbar.Streaming

open Lib Lib.Python Lib.Run

variable {rt : Runtime} {requested : List String} {name : String} {e e' fresh : Engine}

/-! ## §1 Hand-written states -/

theorem SmaState.reset_update (s : SmaState) (bar : StreamBar) :
    (s.update bar).reset = s.reset := rfl

theorem BbState.reset_update (s : BbState) (bar : StreamBar) :
    (s.update bar).reset = s.reset := rfl

theorem RvolState.reset_update (s : RvolState) (bar : StreamBar) :
    (s.update bar).reset = s.reset := rfl

theorem KerState.reset_update (s : KerState) (bar : StreamBar) :
    (s.update bar).reset = s.reset := by
  unfold KerState.update
  cases s.prevClose with
  | none => rfl
  | some prev => rfl

theorem KamaState.reset_update (s : KamaState) (bar : StreamBar) :
    (s.update bar).reset = s.reset := by
  have hker := KerState.reset_update s.ker bar
  unfold KamaState.update KamaState.reset
  simp only
  split
  · rw [hker]
  · rw [hker]
  · rw [hker]

theorem EmaState.reset_updateClose (s : EmaState) (close : ℚ) :
    (s.updateClose close).reset = s.reset := by
  unfold EmaState.updateClose
  cases s.ema with
  | none => rfl
  | some ema => rfl

theorem MacdState.reset_update (s : MacdState) (bar : StreamBar) :
    (s.update bar).reset = s.reset := by
  have hfast : (s.fast.update bar).reset = s.fast.reset :=
    EmaState.reset_updateClose s.fast bar.close
  have hslow : (s.slow.update bar).reset = s.slow.reset :=
    EmaState.reset_updateClose s.slow bar.close
  unfold MacdState.update MacdState.reset
  simp only
  split
  · rw [hfast, hslow, EmaState.reset_updateClose]
  · rw [hfast, hslow]

theorem RsiState.reset_update (s : RsiState) (bar : StreamBar) :
    (s.update bar).reset = s.reset := by
  unfold RsiState.update
  cases s.prevClose with
  | none => rfl
  | some prev => rfl

theorem AtrState.reset_update (s : AtrState) (bar : StreamBar) :
    (s.update bar).reset = s.reset := by
  unfold AtrState.update
  cases s.prevClose with
  | none => rfl
  | some prev =>
      cases s.atr with
      | none => rfl
      | some atr => rfl

theorem AdxState.reset_update (s : AdxState) (bar : StreamBar) :
    (s.update bar).reset = s.reset := by
  unfold AdxState.update
  cases s.prev with
  | none => rfl
  | some prev =>
      cases s.smoothed with
      | none =>
          simp only
          split
          · rfl
          · rfl
      | some smoothed => rfl

/-- A reset forgets an update. -/
theorem HandState.reset_update (sessionDateOf : PyValue → String) (state : HandState)
    (bar : StreamBar) : (state.update sessionDateOf bar).reset = state.reset := by
  cases state with
  | sma s => exact congrArg HandState.sma (s.reset_update bar)
  | ema s => exact congrArg HandState.ema (s.reset_updateClose bar.close)
  | rsi s => exact congrArg HandState.rsi (s.reset_update bar)
  | atr s => exact congrArg HandState.atr (s.reset_update bar)
  | adx s => exact congrArg HandState.adx (s.reset_update bar)
  | bb s => exact congrArg HandState.bb (s.reset_update bar)
  | macd s => exact congrArg HandState.macd (s.reset_update bar)
  | vwap s => rfl
  | ibs s => rfl
  | rvol s => exact congrArg HandState.rvol (s.reset_update bar)
  | ker s => exact congrArg HandState.ker (s.reset_update bar)
  | kama s => exact congrArg HandState.kama (s.reset_update bar)

/-- A new hand-written state is its own reset. -/
theorem factoryBuild_reset {hand : HandState} (h : factoryBuild name = some hand) :
    hand.reset = hand := by
  have hexactStates : ∀ entry ∈ exactStates, entry.2.reset = entry.2 := by
    intro entry hmem
    unfold exactStates at hmem
    simp only [List.mem_cons, List.not_mem_nil, or_false] at hmem
    rcases hmem with rfl | rfl | rfl | rfl | rfl | rfl | rfl | rfl | rfl | rfl | rfl | rfl | rfl
    all_goals rfl
  have hprefixedStates : ∀ entry ∈ prefixedStates, ∀ period,
      (entry.2 period).reset = entry.2 period := by
    intro entry hmem period
    unfold prefixedStates at hmem
    simp only [List.mem_cons, List.not_mem_nil, or_false] at hmem
    rcases hmem with rfl | rfl | rfl | rfl | rfl | rfl | rfl | rfl
    all_goals rfl
  rcases factoryBuild_cases h with hexact | ⟨-, start, build, period, hmem, -, -, rfl⟩
  · exact hexactStates (name, hand) (mem_of_lookup hexact)
  · exact hprefixedStates (start, build) hmem period

/-! ## §2 Windows -/

theorem WindowedIndicatorState.reset_update (handlers : Handlers) (s : WindowedIndicatorState)
    (bar : StreamBar) : (s.update handlers bar).1.reset = s.reset := by
  unfold WindowedIndicatorState.update
  simp only
  split
  · rfl
  · split
    · rfl
    · split
      · rfl
      · rfl

theorem CausalState.reset_update (handlers : Handlers) (s : CausalState) (bar : StreamBar) :
    (s.update handlers bar).1.reset = s.reset := by
  unfold CausalState.update
  simp only
  split
  · rfl
  · split
    · rfl
    · rfl

theorem RollingVpState.reset_update (handlers : Handlers) (s : RollingVpState)
    (bar : StreamBar) : (s.update handlers bar).1.reset = s.reset := by
  unfold RollingVpState.update
  simp only
  split
  · rfl
  · split
    · rfl
    · rfl

/-- Clearing the injected columns forgets what was pushed onto them. -/
theorem clear_injected (injected : List (String × Deque PyValue))
    (values : List (String × PyValue)) :
    (pushInjected injected values).map (fun column => (column.1, column.2.clear))
      = injected.map fun column => (column.1, column.2.clear) := by
  unfold pushInjected
  rw [List.map_map]
  refine List.map_congr_left fun column _ => ?_
  simp only [Function.comp_apply]
  cases values.lookup column.1 with
  | none => rfl
  | some value => rfl

theorem BatchedWindowedState.reset_update (handlers : Handlers) (s : BatchedWindowedState)
    (bar : StreamBar) (values : List (String × PyValue)) :
    (s.update handlers bar values).1.reset = s.reset := by
  have hinjected := congrArg
    (fun injected : List (String × Deque PyValue) =>
      BatchedWindowedState.mk s.names s.maxlen s.buffer.clear
        (s.names.map fun name => (name, nan)) none injected)
    (clear_injected s.injected values)
  unfold BatchedWindowedState.update
  simp only
  split
  · exact hinjected
  · split
    · exact hinjected
    · split
      · exact hinjected
      · exact hinjected

theorem BatchedWindowedState.reset_init (names columns : List String) (maxlen : ℕ) :
    (BatchedWindowedState.init names maxlen columns).reset
      = BatchedWindowedState.init names maxlen columns := by
  unfold BatchedWindowedState.reset BatchedWindowedState.init
  simp only [Deque.clear_empty, List.map_map]
  rfl

/-! ## §3 Families -/

theorem FamilyState.reset_update (rt : Runtime) (state : FamilyState) (bar : StreamBar) :
    (state.update rt bar).1.reset = state.reset := by
  cases state with
  | hand s => exact congrArg FamilyState.hand (s.reset_update rt.sessionDateOf bar)
  | windowed s => exact congrArg FamilyState.windowed (s.reset_update rt.handlers bar)
  | causal s => exact congrArg FamilyState.causal (s.reset_update rt.handlers bar)
  | rollingVp s => exact congrArg FamilyState.rollingVp (s.reset_update rt.handlers bar)

/-- `reset` of all family states. -/
def resetFamilies (families : List (String × FamilyState)) : List (String × FamilyState) :=
  families.map fun family => (family.1, family.2.reset)

/-- Resetting the families forgets an update, also one that raises halfway. -/
theorem resetFamilies_update (rt : Runtime) (bar : StreamBar)
    (families : List (String × FamilyState)) :
    resetFamilies (updateFamilies rt bar families).1 = resetFamilies families := by
  unfold resetFamilies
  induction families with
  | nil => rfl
  | cons family families ih =>
      obtain ⟨key, state⟩ := family
      have hstate := FamilyState.reset_update rt state bar
      unfold updateFamilies
      cases hupdate : state.update rt bar with
      | mk state' raised =>
          rw [hupdate] at hstate
          cases raised with
          | some err =>
              simp only [List.map_cons]
              rw [hstate]
          | none =>
              simp only [List.map_cons]
              rw [hstate, ih]

theorem buildWindowedState_reset {state : FamilyState}
    (h : buildWindowedState rt name = .ok state) : state.reset = state := by
  unfold buildWindowedState at h
  split at h
  · obtain rfl := Except.ok.inj h
    rfl
  · obtain ⟨window, -, h⟩ := bind_eq_ok.mp h
    obtain rfl := Except.ok.inj h
    rfl

/-- A new family state is its own reset. -/
theorem buildState_reset {state : FamilyState} (h : buildState rt name = .ok state) :
    state.reset = state := by
  unfold buildState at h
  split at h
  · obtain rfl := Except.ok.inj h
    rfl
  · obtain ⟨kind, -, h⟩ := bind_eq_ok.mp h
    cases kind with
    | windowed => exact buildWindowedState_reset h
    | streaming =>
        cases hbuild : factoryBuild name with
        | none =>
            rw [hbuild] at h
            cases h
        | some hand =>
            rw [hbuild] at h
            obtain rfl := Except.ok.inj h
            exact congrArg FamilyState.hand (factoryBuild_reset hbuild)

theorem buildFamilies_reset {elsewhere : String → Bool} {names : List String}
    {families built : List (String × FamilyState)}
    (h : buildFamilies rt elsewhere names families = .ok built)
    (hnew : resetFamilies families = families) : resetFamilies built = built := by
  induction names generalizing families with
  | nil =>
      obtain rfl := Except.ok.inj h
      exact hnew
  | cons name names ih =>
      unfold buildFamilies at h
      split at h
      · exact ih h hnew
      · split at h
        · exact ih h hnew
        · obtain ⟨state, hstate, h⟩ := bind_eq_ok.mp h
          refine ih h ?_
          unfold resetFamilies at hnew ⊢
          rw [List.map_append, hnew, List.map_singleton, buildState_reset hstate]

/-! ## §4 The engine -/

theorem updateBatched_reset (rt : Runtime) (batched : Option BatchedWindowedState)
    (sessionVp : Option SessionVpState) (bar : StreamBar) :
    (updateBatched rt batched sessionVp bar).1.map BatchedWindowedState.reset
      = batched.map BatchedWindowedState.reset := by
  cases batched with
  | none => rfl
  | some s =>
      exact congrArg some
        (s.reset_update rt.handlers bar (injectedValues sessionVp))

/-- What a reset makes of an engine, the derived metrics' buffers and the
session profile left out. -/
def Engine.restored (e : Engine) : List String × Option BatchedWindowedState ×
    List (String × FamilyState) × Option (List String) :=
  (e.indicators, e.batched.map BatchedWindowedState.reset, resetFamilies e.families,
    e.vpDerived.map VpDerivedState.names)

/-- **No update changes what a reset restores**, whether it returns or
raises. -/
theorem restored_update (rt : Runtime) (e : Engine) (bar : StreamBar) :
    (e.update rt bar).1.restored = e.restored := by
  have hderived := updateDerived_names rt e.vpDerived
    (e.sessionVp.map fun s => s.update rt.sessionDateOf rt.distribute bar) bar
  have hbatched := updateBatched_reset rt e.batched
    (e.sessionVp.map fun s => s.update rt.sessionDateOf rt.distribute bar) bar
  have hfamilies := resetFamilies_update rt bar e.families
  unfold Engine.update Engine.restored
  simp only
  split
  · next hupdate =>
      rw [hupdate] at hderived
      rw [hderived]
  · next hupdate =>
      rw [hupdate] at hderived
      split
      · next hupdate =>
          rw [hupdate] at hbatched
          rw [hderived, hbatched]
      · next hupdate =>
          rw [hupdate] at hbatched
          split
          · next hupdate =>
              rw [hupdate] at hfamilies
              rw [hderived, hbatched, hfamilies]
          · next hupdate =>
              rw [hupdate] at hfamilies
              rw [hderived, hbatched, hfamilies]

/-- The session profile is updated first, whatever raises later. -/
theorem sessionVp_update (rt : Runtime) (e : Engine) (bar : StreamBar) :
    (e.update rt bar).1.sessionVp
      = e.sessionVp.map fun s => s.update rt.sessionDateOf rt.distribute bar := by
  unfold Engine.update
  simp only
  split
  · rfl
  · split
    · rfl
    · split
      · rfl
      · rfl

theorem restored_feed (rt : Runtime) (e : Engine) (bars : List StreamBar) :
    (e.feed rt bars).restored = e.restored :=
  Machine.after_eq_of_step Engine.restored (restored_update rt) e bars

theorem foldl_optionMap {σ ι : Type} (next : σ → ι → σ) (inputs : List ι) (state : Option σ) :
    inputs.foldl (fun state i => state.map fun s => next s i) state
      = state.map fun s => inputs.foldl next s := by
  induction inputs generalizing state with
  | nil => exact Option.map_id'.symm
  | cons i inputs ih =>
      rw [List.foldl_cons, ih, Option.map_map]
      rfl

theorem sessionVp_feed (rt : Runtime) (e : Engine) (bars : List StreamBar) :
    (e.feed rt bars).sessionVp
      = e.sessionVp.map fun s => bars.foldl
          (SessionVpState.update rt.sessionDateOf rt.distribute) s := by
  have hfold := Machine.after_fold Engine.sessionVp
    (fun sessionVp bar => sessionVp.map fun s =>
      SessionVpState.update rt.sessionDateOf rt.distribute s bar)
    (sessionVp_update rt) e bars
  exact hfold.trans (foldl_optionMap _ bars e.sessionVp)

/-! ## §5 Session profiles that read alike -/

section Alike

variable {sessionDateOf : PyValue → String} {distribute : Distribution} {keepsPocs : Prop}
  {s s' : SessionVpState} {bar : StreamBar} {later : List StreamBar}

/-- The date of the first bar with a timestamp. -/
def firstDate (sessionDateOf : PyValue → String) (bars : List StreamBar) : Option String :=
  (bars.filterMap (barDate sessionDateOf)).head?

theorem firstDate_undated (h : bar.timestamp = none) :
    firstDate sessionDateOf (bar :: later) = firstDate sessionDateOf later := by
  unfold firstDate
  rw [List.filterMap_cons_none]
  unfold barDate
  rw [h, Option.map_none]

theorem firstDate_dated {ts : PyValue} (h : bar.timestamp = some ts) :
    firstDate sessionDateOf (bar :: later) = some (sessionDateOf ts) := by
  unfold firstDate
  have hbar : barDate sessionDateOf bar = some (sessionDateOf ts) := by
    unfold barDate
    rw [h, Option.map_some]
  rw [List.filterMap_cons_some hbar, List.head?_cons]

/-- A leftover date changes nothing on the bars to come: there is none, the
next bar has a timestamp, or the first timestamp to come is of that date. -/
def DatesFrom (sessionDateOf : PyValue → String) (date : Option String)
    (later : List StreamBar) : Prop :=
  date = none ∨ (∀ bar ∈ later.head?, bar.timestamp.isSome) ∨
    ∀ next ∈ firstDate sessionDateOf later, some next = date

/-- The dates of two profiles are the same, or the first timestamp to come
starts a session in neither. -/
def DatesSettled (sessionDateOf : PyValue → String) (later : List StreamBar)
    (s s' : SessionVpState) : Prop :=
  s.sessionDate = s'.sessionDate ∨
    (s'.sessionDate = none ∧ ∀ next ∈ firstDate sessionDateOf later, some next = s.sessionDate)

/-- The dates of profiles without bars do not matter either when the next bar
has a timestamp. -/
def DatesAgree (sessionDateOf : PyValue → String) (later : List StreamBar)
    (s s' : SessionVpState) : Prop :=
  (s.bars = [] ∧ s.running = none ∧ ∀ bar ∈ later.head?, bar.timestamp.isSome) ∨
    DatesSettled sessionDateOf later s s'

/-- Two profiles that read alike; their closed sessions matter only if they
are kept. -/
structure VpAlike (keepsPocs : Prop) (s s' : SessionVpState) : Prop where
  bars : s.bars = s'.bars
  running : s.running = s'.running
  pocs : keepsPocs → s.sessionPocs = s'.sessionPocs

/-- Two profiles that read alike on the bars to come. -/
structure VpAgree (sessionDateOf : PyValue → String) (keepsPocs : Prop)
    (later : List StreamBar) (s s' : SessionVpState) : Prop where
  alike : VpAlike keepsPocs s s'
  dates : DatesAgree sessionDateOf later s s'

theorem VpAlike.levels (h : VpAlike keepsPocs s s') : s.levels = s'.levels := by
  unfold SessionVpState.levels
  rw [h.bars, h.running]

theorem VpAlike.view (h : VpAlike keepsPocs s s') : s.view = s'.view := by
  unfold SessionVpState.view
  rw [h.levels]

theorem VpAlike.pocSlope (h : VpAlike keepsPocs s s') (hkeeps : keepsPocs) (n : ℕ) :
    s.pocSlope n = s'.pocSlope n := by
  unfold SessionVpState.pocSlope
  rw [h.pocs hkeeps]

/-- Without bars there is no session to close. -/
theorem capSession_empty (h : s.bars = []) : s.capSession = s := by
  have hlevels : s.levels = none := by
    unfold SessionVpState.levels
    rw [if_pos h]
  unfold SessionVpState.capSession
  rw [hlevels]

theorem reset_empty (hbars : s.bars = []) (hrunning : s.running = none) : s.reset = s := by
  cases s
  cases hbars
  cases hrunning
  rfl

/-- A dated bar leaves a profile without bars as it is, but for the date. -/
theorem enterSession_empty (hbars : s.bars = []) (hrunning : s.running = none) {ts : PyValue}
    (hts : bar.timestamp = some ts) :
    s.enterSession sessionDateOf bar = { s with sessionDate := some (sessionDateOf ts) } := by
  unfold SessionVpState.enterSession
  rw [hts]
  simp only
  cases s.sessionDate with
  | none => rfl
  | some date =>
      simp only
      rw [capSession_empty hbars, reset_empty hbars hrunning, ite_self]

/-- So does a bar of the profile's own date, or any bar if it has none. -/
theorem enterSession_same {ts : PyValue} (hts : bar.timestamp = some ts)
    (hdate : ∀ date ∈ s.sessionDate, sessionDateOf ts = date) :
    s.enterSession sessionDateOf bar = { s with sessionDate := some (sessionDateOf ts) } := by
  unfold SessionVpState.enterSession
  rw [hts]
  simp only
  cases hcurrent : s.sessionDate with
  | none => rfl
  | some date =>
      simp only
      rw [if_neg (not_not.mpr (hdate date hcurrent))]

/-- Profiles of one date close their sessions alike. -/
theorem capSession_pocs (h : VpAlike keepsPocs s s') (hdate : s.sessionDate = s'.sessionDate)
    (hkeeps : keepsPocs) : s.capSession.sessionPocs = s'.capSession.sessionPocs := by
  unfold SessionVpState.capSession
  rw [h.levels, hdate]
  split
  · simp only
    rw [h.pocs hkeeps]
  · exact h.pocs hkeeps

/-- Profiles of one date cross a session boundary alike. -/
theorem enterSession_sameDate (h : VpAlike keepsPocs s s')
    (hdate : s.sessionDate = s'.sessionDate) (bar : StreamBar) :
    VpAlike keepsPocs (s.enterSession sessionDateOf bar) (s'.enterSession sessionDateOf bar) ∧
      (s.enterSession sessionDateOf bar).sessionDate
        = (s'.enterSession sessionDateOf bar).sessionDate := by
  unfold SessionVpState.enterSession
  cases bar.timestamp with
  | none => exact ⟨h, hdate⟩
  | some ts =>
      simp only
      rw [← hdate]
      cases hcurrent : s.sessionDate with
      | none => exact ⟨⟨h.bars, h.running, h.pocs⟩, trivial⟩
      | some date =>
          simp only
          by_cases hne : sessionDateOf ts ≠ date
          · rw [if_pos hne, if_pos hne]
            exact ⟨⟨rfl, rfl, capSession_pocs h hdate⟩, trivial⟩
          · rw [if_neg hne, if_neg hne]
            exact ⟨⟨h.bars, h.running, h.pocs⟩, trivial⟩

/-- **Profiles that agree cross a session boundary alike.** -/
theorem enterSession_agree (h : VpAgree sessionDateOf keepsPocs (bar :: later) s s') :
    VpAlike keepsPocs (s.enterSession sessionDateOf bar) (s'.enterSession sessionDateOf bar) ∧
      DatesSettled sessionDateOf later (s.enterSession sessionDateOf bar)
        (s'.enterSession sessionDateOf bar) := by
  obtain ⟨halike, hdates⟩ := h
  rcases hdates with ⟨hbars, hrunning, hhead⟩ | hdate | ⟨hnone, hnext⟩
  · obtain ⟨ts, hts⟩ := Option.isSome_iff_exists.mp (hhead bar rfl)
    rw [enterSession_empty hbars hrunning hts,
      enterSession_empty (halike.bars ▸ hbars) (halike.running ▸ hrunning) hts]
    exact ⟨⟨halike.bars, halike.running, halike.pocs⟩, .inl rfl⟩
  · obtain ⟨hsame, hdate'⟩ := enterSession_sameDate halike hdate bar
    exact ⟨hsame, .inl hdate'⟩
  · cases hts : bar.timestamp with
    | none =>
        rw [firstDate_undated hts] at hnext
        unfold SessionVpState.enterSession
        rw [hts]
        exact ⟨halike, .inr ⟨hnone, hnext⟩⟩
    | some ts =>
        have hdate := hnext (sessionDateOf ts) (firstDate_dated hts)
        rw [enterSession_same hts (fun date hd => Option.some.inj (hdate.trans hd)),
          enterSession_same hts (fun date hd => by rw [hnone] at hd; cases hd)]
        exact ⟨⟨halike.bars, halike.running, halike.pocs⟩, .inl rfl⟩

/-- **An update keeps profiles in agreement.** -/
theorem update_agree (distribute : Distribution)
    (h : VpAgree sessionDateOf keepsPocs (bar :: later) s s') :
    VpAgree sessionDateOf keepsPocs later (s.update sessionDateOf distribute bar)
      (s'.update sessionDateOf distribute bar) := by
  obtain ⟨henter, hdates⟩ := enterSession_agree h
  unfold SessionVpState.update SessionVpState.ingest
  generalize s.enterSession sessionDateOf bar = t at henter hdates
  generalize s'.enterSession sessionDateOf bar = t' at henter hdates
  refine ⟨⟨?_, ?_, henter.pocs⟩, .inr hdates⟩
  · simp only
    rw [henter.bars]
  · simp only
    rw [henter.bars, henter.running]

end Alike

/-! ## §6 Engines that report alike -/

section Reports

variable {keepsPocs : Prop} {later : List StreamBar} {bar : StreamBar}

/-- Two states of the derived metrics that compute alike: no metric reads the
buffers, and slopes are read only if the closed sessions are kept. -/
structure DerivedAgree (keepsPocs : Prop) (s s' : VpDerivedState) : Prop where
  names : s.names = s'.names
  micros : s.micros = []
  vols : s.vols = []
  slopes : s.slopes = [] ∨ keepsPocs

/-- Two engines that report alike on the bars to come. -/
structure Agree (rt : Runtime) (keepsPocs : Prop) (later : List StreamBar) (e e' : Engine) :
    Prop where
  indicators : e.indicators = e'.indicators
  sessionVp : Option.Rel (VpAgree rt.sessionDateOf keepsPocs later) e.sessionVp e'.sessionVp
  derived : Option.Rel (DerivedAgree keepsPocs) e.vpDerived e'.vpDerived
  profile : e.vpDerived.isSome → e.sessionVp.isSome
  batched : e.batched = e'.batched
  families : e.families = e'.families
  barsSeen : e.barsSeen = e'.barsSeen
  latest : e.latest = e'.latest

/-- The derived metrics after a bar of which they read no buffer. -/
def VpDerivedState.readSlopes (s : VpDerivedState) (vp : SessionVpState) (bar : StreamBar) :
    VpDerivedState :=
  { s with
    microBuf := s.microBuf.push bar
    volBuf := s.volBuf.push bar
    values := s.valuesFrom vp [] }

/-- Metrics that read no buffer never raise. -/
theorem updateDerived_readSlopes {s : VpDerivedState} (hmicros : s.micros = [])
    (hvols : s.vols = []) (vp : SessionVpState) (bar : StreamBar) :
    updateDerived rt (some s) (some vp) bar = (some (s.readSlopes vp bar), none) := by
  have hbatch : ∀ buffer, computeBatch rt.handlers [] buffer vp = .ok [] := by
    intro buffer
    unfold computeBatch
    rw [if_pos (.inl rfl)]
  unfold VpDerivedState.micros at hmicros
  unfold VpDerivedState.vols at hvols
  unfold updateDerived VpDerivedState.update VpDerivedState.micros VpDerivedState.vols
  simp only
  rw [hmicros, hvols, hbatch, hbatch]
  rfl

/-- A metric that is not a slope metric has no slope. -/
theorem slopeValue_none {name : String} (vp : SessionVpState)
    (h : slopeNames.contains name = false) : slopeValue vp name = none := by
  have hne : ∀ slope ∈ slopeNames, name ≠ slope := by
    rintro slope hslope rfl
    rw [List.contains_iff_mem.mpr hslope] at h
    cases h
  unfold slopeValue
  rw [if_neg (hne "poc_slope_5" (by decide)), if_neg (hne "poc_slope_20" (by decide))]

/-- Derived metrics that agree compute the same values. -/
theorem valuesFrom_agree {s s' : VpDerivedState} {vp vp' : SessionVpState}
    (h : DerivedAgree keepsPocs s s') (hvp : VpAlike keepsPocs vp vp') :
    s.valuesFrom vp [] = s'.valuesFrom vp' [] := by
  unfold VpDerivedState.valuesFrom
  rw [← h.names]
  refine List.map_congr_left fun name hname => ?_
  have hslope : slopeValue vp name = slopeValue vp' name := by
    rcases h.slopes with hslopes | hkeeps
    · have hnot : slopeNames.contains name = false := by
        unfold VpDerivedState.slopes at hslopes
        rw [List.filter_eq_nil_iff] at hslopes
        rw [← Bool.not_eq_true]
        exact hslopes name hname
      rw [slopeValue_none vp hnot, slopeValue_none vp' hnot]
    · unfold slopeValue
      rw [hvp.pocSlope hkeeps, hvp.pocSlope hkeeps]
  rw [hslope]

/-- The derived metrics after one more bar: they did not raise, agree, and
have the same values. -/
theorem updateDerived_agree {vpDerived vpDerived' : Option VpDerivedState}
    {sessionVp sessionVp' : Option SessionVpState}
    (hderived : Option.Rel (DerivedAgree keepsPocs) vpDerived vpDerived')
    (hvp : Option.Rel (VpAgree rt.sessionDateOf keepsPocs later) sessionVp sessionVp')
    (hboth : vpDerived.isSome → sessionVp.isSome) (bar : StreamBar) :
    ∃ after after', updateDerived rt vpDerived sessionVp bar = (after, none) ∧
      updateDerived rt vpDerived' sessionVp' bar = (after', none) ∧
      Option.Rel (fun s s' => DerivedAgree keepsPocs s s' ∧ s.values = s'.values)
        after after' := by
  cases hderived with
  | none => exact ⟨none, none, rfl, rfl, .none⟩
  | some hs =>
      cases hvp with
      | none => exact absurd (hboth rfl) Bool.false_ne_true
      | @some vp vp' hvp =>
          rename_i s s'
          have hmicros : s'.micros = [] := by
            unfold VpDerivedState.micros
            rw [← hs.names]
            exact hs.micros
          have hvols : s'.vols = [] := by
            unfold VpDerivedState.vols
            rw [← hs.names]
            exact hs.vols
          refine ⟨_, _, updateDerived_readSlopes hs.micros hs.vols vp bar,
            updateDerived_readSlopes hmicros hvols vp' bar, .some ⟨?_, ?_⟩⟩
          · exact ⟨hs.names, hs.micros, hs.vols, hs.slopes⟩
          · exact valuesFrom_agree hs hvp.alike

/-- The session profiles inject the same values. -/
theorem injectedValues_agree {sessionVp sessionVp' : Option SessionVpState}
    (h : Option.Rel (VpAgree rt.sessionDateOf keepsPocs later) sessionVp sessionVp') :
    injectedValues sessionVp = injectedValues sessionVp' := by
  cases h with
  | none => rfl
  | some h =>
      unfold injectedValues
      simp only
      rw [h.alike.view]

theorem updateBatched_agree {sessionVp sessionVp' : Option SessionVpState}
    (h : Option.Rel (VpAgree rt.sessionDateOf keepsPocs later) sessionVp sessionVp')
    (batched : Option BatchedWindowedState) (bar : StreamBar) :
    updateBatched rt batched sessionVp bar = updateBatched rt batched sessionVp' bar := by
  unfold updateBatched
  rw [injectedValues_agree h]

/-- Engines that agree, and whose derived metrics have the same values, show
the same states. -/
theorem stateView_agree (h : Agree rt keepsPocs later e e')
    (hvalues : Option.Rel (fun s s' => s.names = s'.names ∧ s.values = s'.values)
      e.vpDerived e'.vpDerived) (name : String) :
    e.stateView rt name = e'.stateView rt name := by
  have hderived : (e.vpDerived.filter fun s => s.names.contains name).map
        (fun s => valuesView s.values)
      = (e'.vpDerived.filter fun s => s.names.contains name).map
        (fun s => valuesView s.values) := by
    revert hvalues
    generalize e.vpDerived = vpDerived
    generalize e'.vpDerived = vpDerived'
    intro hvalues
    cases hvalues with
    | none => rfl
    | some hs =>
        rw [Option.filter_some, Option.filter_some, hs.1]
        split
        · rw [Option.map_some, Option.map_some, hs.2]
        · rfl
  have hroot : e.sessionVp.map SessionVpState.view = e'.sessionVp.map SessionVpState.view :=
    Machine.rel_map_eq h.sessionVp fun _ _ hs => hs.alike.view
  -- the route of a name, written with the views of the states
  have hview : ∀ e : Engine, e.stateView rt name =
      ((e.sessionVp.map SessionVpState.view).filter fun _ => vpRootNames.contains name).getD
        (((e.vpDerived.filter fun s => s.names.contains name).map
            fun s => valuesView s.values).getD
          (((e.batched.filter fun s => s.names.contains name).map
              fun s => valuesView s.currents).getD
            (((e.families.lookup (canonicalFamily name)).map
                fun s => s.view rt).getD { attr := fun _ => nan }))) := by
    intro e
    unfold Engine.stateView
    generalize e.vpDerived.filter (fun s => s.names.contains name) = derived
    generalize e.batched.filter (fun s => s.names.contains name) = batched
    generalize e.families.lookup (canonicalFamily name) = family
    cases e.sessionVp with
    | none => cases derived <;> cases batched <;> cases family <;> rfl
    | some s =>
        cases vpRootNames.contains name with
        | true => rfl
        | false => cases derived <;> cases batched <;> cases family <;> rfl
  rw [hview, hview, hroot, hderived, h.batched, h.families]

theorem snapshot_agree (h : Agree rt keepsPocs later e e')
    (hvalues : Option.Rel (fun s s' => s.names = s'.names ∧ s.values = s'.values)
      e.vpDerived e'.vpDerived) : e.snapshot rt = e'.snapshot rt := by
  unfold Engine.snapshot Engine.reading Engine.isReady
  simp only [stateView_agree h hvalues, h.indicators, h.barsSeen]

/-- An engine with one more bar and the given states. -/
def Engine.withStates (e : Engine) (sessionVp : Option SessionVpState)
    (vpDerived : Option VpDerivedState) (batched : Option BatchedWindowedState)
    (families : List (String × FamilyState)) (latest : LatestBar) : Engine where
  indicators := e.indicators
  sessionVp := sessionVp
  vpDerived := vpDerived
  batched := batched
  families := families
  barsSeen := e.barsSeen + 1
  latest := latest

/-- **An update of engines that agree** returns or raises the same and leaves
engines that agree. -/
theorem engine_update_agree (h : Agree rt keepsPocs (bar :: later) e e') :
    (e.update rt bar).2 = (e'.update rt bar).2 ∧
      Agree rt keepsPocs later (e.update rt bar).1 (e'.update rt bar).1 := by
  have hvp : Option.Rel (VpAgree rt.sessionDateOf keepsPocs later)
      (e.sessionVp.map fun s => s.update rt.sessionDateOf rt.distribute bar)
      (e'.sessionVp.map fun s => s.update rt.sessionDateOf rt.distribute bar) :=
    Machine.rel_map h.sessionVp fun _ _ hs => update_agree rt.distribute hs
  have hprofile : e.vpDerived.isSome → (e.sessionVp.map fun s =>
      s.update rt.sessionDateOf rt.distribute bar).isSome := by
    rw [Option.isSome_map]
    exact h.profile
  obtain ⟨after, after', hafter, hafter', hrel⟩ :=
    updateDerived_agree h.derived hvp hprofile bar
  have hderived : Option.Rel (DerivedAgree keepsPocs) after after' :=
    Machine.rel_mono hrel fun _ _ hs => hs.1
  have hvalues : Option.Rel (fun s s' => s.names = s'.names ∧ s.values = s'.values)
      after after' :=
    Machine.rel_mono hrel fun _ _ hs => ⟨hs.1.names, hs.2⟩
  have hprofile' : after.isSome → (e.sessionVp.map fun s =>
      s.update rt.sessionDateOf rt.distribute bar).isSome := by
    have hnames := congrArg Option.isSome (updateDerived_names rt e.vpDerived
      (e.sessionVp.map fun s => s.update rt.sessionDateOf rt.distribute bar) bar)
    rw [hafter, Option.isSome_map, Option.isSome_map] at hnames
    rw [hnames]
    exact hprofile
  have hbatched := updateBatched_agree hvp e.batched bar
  generalize hvpNew : (e.sessionVp.map fun s =>
    s.update rt.sessionDateOf rt.distribute bar) = sessionVp at *
  generalize hvpNew' : (e'.sessionVp.map fun s =>
    s.update rt.sessionDateOf rt.distribute bar) = sessionVp' at *
  have hagree : ∀ batched families latest latest', latest = latest' →
      Agree rt keepsPocs later (e.withStates sessionVp after batched families latest)
        (e'.withStates sessionVp' after' batched families latest') :=
    fun batched families latest latest' hlatest => ⟨h.indicators, hvp, hderived, hprofile', rfl,
      rfl, congrArg (· + 1) h.barsSeen, hlatest⟩
  unfold Engine.update
  simp only [hvpNew, hvpNew', hafter, hafter']
  rw [← h.batched, ← hbatched, ← h.families, ← h.latest]
  cases updateBatched rt e.batched sessionVp bar with
  | mk batched raised =>
      cases raised with
      | some err => exact ⟨rfl, hagree batched e.families _ _ rfl⟩
      | none =>
          simp only
          cases updateFamilies rt bar e.families with
          | mk families raised =>
              cases raised with
              | some err => exact ⟨rfl, hagree batched families _ _ rfl⟩
              | none =>
                  have hsnapshot := snapshot_agree
                    (hagree batched families e.latest e.latest rfl) hvalues
                  exact ⟨congrArg Except.ok hsnapshot, hagree batched families _ _ hsnapshot⟩

/-- What a caller sees of an update: its result, then `latest()` and
`is_ready()`. -/
structure Report where
  result : Except PyError LatestBar
  latest : LatestBar
  isReady : Bool

/-- `update` with what a caller sees of it. -/
def Engine.report (rt : Runtime) (e : Engine) (bar : StreamBar) : Engine × Report :=
  ((e.update rt bar).1,
    { result := (e.update rt bar).2
      latest := (e.update rt bar).1.latest
      isReady := (e.update rt bar).1.isReady })

/-- Two engines cannot be told apart by a sequence of bars: not before it and
not by any of its updates. -/
def SameReports (rt : Runtime) (later : List StreamBar) (e e' : Engine) : Prop :=
  e.latest = e'.latest ∧ e.isReady = e'.isReady ∧
    Machine.outputs (Engine.report rt) e later = Machine.outputs (Engine.report rt) e' later

theorem isReady_agree (h : Agree rt keepsPocs later e e') : e.isReady = e'.isReady := by
  unfold Engine.isReady
  rw [h.barsSeen]

/-- Agreement is a bisimulation. -/
theorem agree_bisimulation (rt : Runtime) (keepsPocs : Prop) :
    Machine.Bisimulation (Engine.report rt) (Engine.report rt) (Agree rt keepsPocs) where
  output := by
    intro bar later e e' h
    obtain ⟨hresult, hnext⟩ := engine_update_agree h
    unfold Engine.report
    simp only
    rw [hresult, hnext.latest, isReady_agree hnext]
  next := fun h => (engine_update_agree h).2

/-- **Engines that agree cannot be told apart.** -/
theorem sameReports_of_agree (h : Agree rt keepsPocs later e e') : SameReports rt later e e' :=
  ⟨h.latest, isReady_agree h, (agree_bisimulation rt keepsPocs).outputs_eq h⟩

end Reports

/-! ## §7 Reset -/

/-- A new engine is its own reset. -/
theorem reset_created (h : Created rt requested e) : e.reset = e := by
  have hsessions : e.sessionVp.map SessionVpState.reset = e.sessionVp := by
    cases hvp : e.sessionVp with
    | none => rfl
    | some s =>
        rw [h.sessionVp s hvp]
        rfl
  have hbatched : e.batched.map BatchedWindowedState.reset = e.batched := by
    cases hwindow : e.batched with
    | none => rfl
    | some s =>
        obtain ⟨maxlen, columns, hs⟩ := (h.batched s hwindow).1
        rw [Option.map_some, hs, BatchedWindowedState.reset_init]
  have hfamilies : resetFamilies e.families = e.families :=
    buildFamilies_reset h.families rfl
  have hcounters : ∀ n l, e.barsSeen = n → e.latest = l →
      ({ e with barsSeen := n, latest := l } : Engine) = e := by
    rintro n l rfl rfl
    rfl
  unfold resetFamilies at hfamilies
  unfold Engine.reset
  rw [hsessions, hbatched, hfamilies]
  exact hcounters 0 {} h.barsSeen h.latest

/-- Closed sessions are kept in a deque of 21. -/
theorem sessionPocs_maxlen (sessionDateOf : PyValue → String) (distribute : Distribution)
    (bars : List StreamBar) :
    (stateAfter sessionDateOf distribute bars).sessionPocs.maxlen = 21 := by
  induction bars using List.reverseRecOn with
  | nil => rfl
  | append_singleton bars bar ih =>
      rw [stateAfter_append]
      generalize stateAfter sessionDateOf distribute bars = s at ih
      have hcap : s.capSession.sessionPocs.maxlen = 21 := by
        unfold SessionVpState.capSession
        split
        · exact ih
        · exact ih
      show (s.enterSession sessionDateOf bar).sessionPocs.maxlen = 21
      unfold SessionVpState.enterSession
      cases bar.timestamp with
      | none => exact ih
      | some ts =>
          simp only
          cases s.sessionDate with
          | none => exact ih
          | some date =>
              simp only
              split
              · exact hcap
              · exact ih

/-- What an engine was fed leaves nothing that its derived metrics or the
bars to come would read: the derived metrics are slopes, no session was
closed with a profile if there are slopes, and the last date changes nothing
on the bars to come. -/
structure CleanReset (rt : Runtime) (fresh : Engine) (bars later : List StreamBar) : Prop where
  buffers : bars = [] ∨ ∀ s ∈ fresh.vpDerived, s.micros = [] ∧ s.vols = []
  slopes : ∀ s ∈ fresh.vpDerived, s.slopes = [] ∨
    (stateAfter rt.sessionDateOf rt.distribute bars).sessionPocs.items = []
  dates : fresh.sessionVp.isSome →
    DatesFrom rt.sessionDateOf (lastDate rt.sessionDateOf bars) later

/-- A reset profile that was fed agrees with a new one. -/
theorem vpAgree_reset {sessionDateOf : PyValue → String} (distribute : Distribution)
    {bars later : List StreamBar}
    (h : DatesFrom sessionDateOf (lastDate sessionDateOf bars) later) :
    VpAgree sessionDateOf ((stateAfter sessionDateOf distribute bars).sessionPocs.items = [])
      later (stateAfter sessionDateOf distribute bars).reset SessionVpState.init := by
  have hdate := stateAfter_sessionDate sessionDateOf distribute bars
  have hmaxlen := sessionPocs_maxlen sessionDateOf distribute bars
  generalize stateAfter sessionDateOf distribute bars = s at hdate hmaxlen
  refine ⟨⟨rfl, rfl, fun hpocs => Deque.ext_items hmaxlen hpocs⟩, ?_⟩
  rcases h with hnone | hhead | hnext
  · exact .inr (.inl (hdate.trans hnone))
  · exact .inl ⟨rfl, rfl, hhead⟩
  · refine .inr (.inr ⟨rfl, ?_⟩)
    show ∀ next ∈ firstDate sessionDateOf later, some next = s.sessionDate
    rw [hdate]
    exact hnext

/-- Derived metrics that were fed agree with new ones of the same names, if
no metric reads the buffers. -/
theorem derivedAgree_of_names {keepsPocs : Prop} {vpDerived vpDerived' : Option VpDerivedState}
    (hnames : vpDerived.map VpDerivedState.names = vpDerived'.map VpDerivedState.names)
    (hbuffers : ∀ s ∈ vpDerived', s.micros = [] ∧ s.vols = [])
    (hslopes : ∀ s ∈ vpDerived', s.slopes = [] ∨ keepsPocs) :
    Option.Rel (DerivedAgree keepsPocs) vpDerived vpDerived' := by
  cases vpDerived with
  | none =>
      cases vpDerived' with
      | none => exact .none
      | some s' => cases hnames
  | some s =>
      cases vpDerived' with
      | none => cases hnames
      | some s' =>
          have hsame : s.names = s'.names := Option.some.inj hnames
          obtain ⟨hmicros, hvols⟩ := hbuffers s' rfl
          have hslope := hslopes s' rfl
          unfold VpDerivedState.micros at hmicros
          unfold VpDerivedState.vols at hvols
          unfold VpDerivedState.slopes at hslope
          rw [← hsame] at hmicros hvols hslope
          exact .some ⟨hsame, hmicros, hvols, hslope⟩

/-- After a reset, an engine that was fed agrees with a new one. -/
theorem agree_reset {bars later : List StreamBar} (hcreated : Created rt requested fresh)
    (hclean : CleanReset rt fresh bars later)
    (hbuffers : ∀ s ∈ fresh.vpDerived, s.micros = [] ∧ s.vols = []) :
    Agree rt ((stateAfter rt.sessionDateOf rt.distribute bars).sessionPocs.items = []) later
      (fresh.feed rt bars).reset fresh := by
  have hrestored := restored_feed rt fresh bars
  have hsessions := sessionVp_feed rt fresh bars
  have hfresh := reset_created hcreated
  unfold Engine.restored at hrestored
  simp only [Prod.mk.injEq] at hrestored
  obtain ⟨hindicators, hbatched, hfamilies, hnames⟩ := hrestored
  have hderived := derivedAgree_of_names hnames hbuffers hclean.slopes
  have hprofile : (fresh.feed rt bars).vpDerived.isSome →
      (fresh.feed rt bars).sessionVp.isSome := by
    have hsome := congrArg Option.isSome hnames
    rw [Option.isSome_map, Option.isSome_map] at hsome
    rw [hsome, hsessions, Option.isSome_map]
    exact hcreated.profile
  refine ⟨hindicators, ?_, hderived, ?_, ?_, ?_, hcreated.barsSeen.symm, hcreated.latest.symm⟩
  · show Option.Rel _ ((fresh.feed rt bars).sessionVp.map SessionVpState.reset) fresh.sessionVp
    rw [hsessions]
    cases hvp : fresh.sessionVp with
    | none => exact .none
    | some s =>
        rw [hcreated.sessionVp s hvp]
        exact .some (vpAgree_reset rt.distribute (hclean.dates (by rw [hvp]; rfl)))
  · intro hsome
    show ((fresh.feed rt bars).sessionVp.map SessionVpState.reset).isSome
    rw [Option.isSome_map]
    exact hprofile hsome
  · exact hbatched.trans (congrArg Engine.batched hfresh)
  · exact hfamilies.trans (congrArg Engine.families hfresh)

/-- **A reset engine cannot be told apart from a new one** by any bars, if
what it was fed leaves nothing that is read after the reset. -/
theorem reset_sameReports (rt : Runtime) (requested : List String) (fresh : Engine)
    (bars later : List StreamBar) (hcreate : Engine.create rt requested = .ok fresh)
    (hclean : CleanReset rt fresh bars later) :
    SameReports rt later (fresh.feed rt bars).reset fresh := by
  have hcreated := create_created hcreate
  rcases hclean.buffers with rfl | hbuffers
  · have hfresh : (fresh.feed rt []).reset = fresh := reset_created hcreated
    rw [hfresh]
    exact ⟨rfl, rfl, rfl⟩
  · exact sameReports_of_agree (agree_reset hcreated hclean hbuffers)

/-! ## §8 Sample resets -/

/-- Two bars of one day, at 100 and at 101. -/
def sampleDay (date : String) : List StreamBar :=
  [flatBar date 100 1, flatBar date 101 5]

/-- The slope of the closed sessions is new after a reset within the first
session. -/
theorem reset_sameReports_first_session :
    ∃ fresh, Engine.create sampleRuntime ["poc_slope_5", "vp_poc"] = .ok fresh ∧
      SameReports sampleRuntime (sampleDay "2024-01-02")
        (fresh.feed sampleRuntime (sampleDay "2024-01-01")).reset fresh := by
  have hnames : (match Engine.create sampleRuntime ["poc_slope_5", "vp_poc"] with
      | .ok fresh => fresh.vpDerived.map VpDerivedState.names
      | .error _ => none) = some ["poc_slope_5"] := by decide +kernel
  cases hcreate : Engine.create sampleRuntime ["poc_slope_5", "vp_poc"] with
  | error err =>
      rw [hcreate] at hnames
      cases hnames
  | ok fresh =>
      rw [hcreate] at hnames
      simp only at hnames
      have hslope : ∀ s ∈ fresh.vpDerived, s.names = ["poc_slope_5"] := by
        intro s hs
        rw [Option.mem_def.mp hs] at hnames
        exact Option.some.inj hnames
      refine ⟨fresh, rfl, reset_sameReports sampleRuntime ["poc_slope_5", "vp_poc"] fresh
        (sampleDay "2024-01-01") (sampleDay "2024-01-02") hcreate ⟨.inr ?_, ?_, ?_⟩⟩
      · intro s hs
        unfold VpDerivedState.micros VpDerivedState.vols
        rw [hslope s hs]
        decide
      · intro s hs
        right
        decide +kernel
      · intro _
        right
        left
        intro bar hbar
        obtain rfl := Option.some.inj hbar
        rfl

/-- The number reported for a name after the last of a sequence of bars. -/
def lastNumber (rt : Runtime) (e : Engine) (later : List StreamBar) (name : String) :
    Option ℚ :=
  match (Machine.outputs (Engine.report rt) e later).getLast? with
  | some report =>
      match report.latest.values.lookup name with
      | some (.num (.fin q)) => some q
      | _ => none
  | none => none

/-- `lastNumber` of a new engine after some preparation. -/
def preparedNumber (rt : Runtime) (requested : List String) (prepare : Engine → Engine)
    (later : List StreamBar) (name : String) : Option ℚ :=
  match Engine.create rt requested with
  | .ok fresh => lastNumber rt (prepare fresh) later name
  | .error _ => none

/-- A preparation that changes a number can be told. -/
theorem not_sameReports {prepare : Engine → Engine} {later : List StreamBar}
    (h : preparedNumber rt requested prepare later name
      ≠ preparedNumber rt requested id later name) :
    ∃ fresh, Engine.create rt requested = .ok fresh ∧
      ¬ SameReports rt later (prepare fresh) fresh := by
  unfold preparedNumber at h
  cases hcreate : Engine.create rt requested with
  | error err =>
      rw [hcreate] at h
      exact absurd rfl h
  | ok fresh =>
      rw [hcreate] at h
      refine ⟨fresh, rfl, ?_⟩
      rintro ⟨-, -, houtputs⟩
      refine h ?_
      simp only [id]
      unfold lastNumber
      rw [houtputs]

/-- Five days and the first bar of the sixth. -/
def sixDays : List StreamBar :=
  ["2024-01-01", "2024-01-02", "2024-01-03", "2024-01-04", "2024-01-05"].flatMap sampleDay
    ++ [flatBar "2024-01-06" 100 1]

/-- Two bars without a timestamp, then one of the second day. -/
def undatedStart : List StreamBar :=
  [{ flatBar "" 100 1 with timestamp := none }, { flatBar "" 101 5 with timestamp := none },
    flatBar "2024-01-02" 101 1]

/-- The closed sessions of the old run give a slope on the first bar after a
reset, and its date splits the bars after it into two sessions. -/
theorem reset_leaves_sessions :
    (∃ fresh, Engine.create sampleRuntime ["poc_slope_5"] = .ok fresh ∧
      ¬ SameReports sampleRuntime [flatBar "2024-01-08" 100 1]
        (fresh.feed sampleRuntime sixDays).reset fresh) ∧
    ∃ fresh, Engine.create sampleRuntime ["vp_poc"] = .ok fresh ∧
      ¬ SameReports sampleRuntime undatedStart
        (fresh.feed sampleRuntime (sampleDay "2024-01-01")).reset fresh := by
  constructor
  · have hnumbers : preparedNumber sampleRuntime ["poc_slope_5"]
        (fun fresh => (fresh.feed sampleRuntime sixDays).reset)
        [flatBar "2024-01-08" 100 1] "poc_slope_5"
      ≠ preparedNumber sampleRuntime ["poc_slope_5"] id
        [flatBar "2024-01-08" 100 1] "poc_slope_5" := by decide +kernel
    exact not_sameReports hnumbers
  · have hnumbers : preparedNumber sampleRuntime ["vp_poc"]
        (fun fresh => (fresh.feed sampleRuntime (sampleDay "2024-01-01")).reset)
        undatedStart "vp_poc"
      ≠ preparedNumber sampleRuntime ["vp_poc"] id undatedStart "vp_poc" := by decide +kernel
    exact not_sameReports hnumbers

end Finbar.Streaming
