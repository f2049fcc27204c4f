/-
Finbar.Streaming.Engine — `StreamingIndicatorEngine`.

`Engine.create` routes every requested name to the state that serves it: the
session profile, the derived metrics, the batched window, or the state of its
family, which the first name of the family builds. `Engine.update` returns the
engine it leaves, also when a state raises, and what the call returned.

No `sorry`, no `axiom`.
-/
import Finbar.Lib.Run
import Finbar.Streaming.Names
import Finbar.Streaming.Windowed

namespace Finbar.Streaming

open Lib Lib.Python Lib.Run

/-! ## §1 The runtime -/

/-- What the engine is given or imports. -/
structure Runtime where
  /-- `_session_date`: the calendar date of a timestamp. -/
  sessionDateOf : PyValue → String
  /-- `_distribute_bar_volume`. -/
  distribute : Distribution
  sqrt : ℚ → ℚ
  handlers : Handlers
  registry : HandlerRegistry
  /-- `UnifiedMetricCatalog().get(name).min_lookback`. -/
  minLookback : String → Option ℕ
  /-- `window_resolver.resolve`, if there is a resolver. -/
  windowResolver : Option (String → Except PyError (Option ℕ))

/-- `MIN_BARS`. -/
def minBars : ℕ := 10

/-- `_session_count_window`. -/
def sessionCountWindow (name : String) : Option ℕ :=
  if name = "wyckoff_phase" ∨ name = "value_area_migration" then some 500
  else if startsWith name "poc_slope_" then some 500
  else none

/-- `_parse_vp_window`. -/
def parseVpWindow (name : String) : ℕ :=
  max ((parseWindowBars name).getD ((parseDays name).getD minBars)) minBars

/-- `_resolve_window`. -/
def resolveWindow (rt : Runtime) (name : String) : Except PyError ℕ := do
  if isRollingVp name then return parseVpWindow name
  else
    let resolved ← match rt.windowResolver with
      | some resolve => resolve name
      | none => .ok none
    match resolved with
    | some window => return window
    | none =>
        match sessionCountWindow name with
        | some window => return window
        | none => return max ((rt.minLookback name).getD 0) 50

/-! ## §2 Family states -/

/-- A state that serves a family of names. -/
inductive FamilyState where
  | hand (s : HandState)
  | windowed (s : WindowedIndicatorState)
  | causal (s : CausalState)
  | rollingVp (s : RollingVpState)

/-- `state.update(bar)`. -/
def FamilyState.update (rt : Runtime) (state : FamilyState) (bar : StreamBar) :
    FamilyState × Option PyError :=
  match state with
  | hand s => (.hand (s.update rt.sessionDateOf bar), none)
  | windowed s => let (s, raised) := s.update rt.handlers bar; (.windowed s, raised)
  | causal s => let (s, raised) := s.update rt.handlers bar; (.causal s, raised)
  | rollingVp s => let (s, raised) := s.update rt.handlers bar; (.rollingVp s, raised)

/-- `state.reset()`. -/
def FamilyState.reset : FamilyState → FamilyState
  | hand s => .hand s.reset
  | windowed s => .windowed s.reset
  | causal s => .causal s.reset
  | rollingVp s => .rollingVp s.reset

/-- `_build_windowed_state`. -/
def buildWindowedState (rt : Runtime) (name : String) : Except PyError FamilyState :=
  match parseWindowBars name with
  | some window => .ok (.rollingVp (RollingVpState.init name window))
  | none => do
      let window ← resolveWindow rt name
      return .windowed (WindowedIndicatorState.init name window)

/-- `_build_state`. -/
def buildState (rt : Runtime) (name : String) : Except PyError FamilyState :=
  if causalNames.contains name then .ok (.causal (CausalState.init name))
  else do
    match ← classifyIndicator rt.registry name with
    | .streaming =>
        match factoryBuild name with
        | some state => return .hand state
        | none => throw (.notImplementedError
            { template := "Streaming state not yet implemented for: '%'", args := [.text name] })
    | .windowed => buildWindowedState rt name

/-! ## §3 The engine -/

/-- `LatestBar`. -/
structure LatestBar where
  values : List (String × PyValue) := []
  isReady : Bool := false
  barsSeen : ℕ := 0

/-- `StreamingIndicatorEngine`. `families` are its de-duplicated family
states by family key; the other states are shared by the names routed to
them. -/
structure Engine where
  indicators : List String
  sessionVp : Option SessionVpState
  vpDerived : Option VpDerivedState
  batched : Option BatchedWindowedState
  families : List (String × FamilyState)
  barsSeen : ℕ := 0
  latest : LatestBar := {}

/-- The names that need a window of their own, in request order. -/
def collectWindowed (registry : HandlerRegistry) :
    List String → Except PyError (List String)
  | [] => .ok []
  | name :: names =>
      if causalNames.contains name ∨ (parseWindowBars name).isSome ∨ vpRootNames.contains name
      then collectWindowed registry names
      else do
        let kind ← classifyIndicator registry name
        let windowed ← collectWindowed registry names
        if kind = .windowed ∧ canonicalFamily name = name then return name :: windowed
        else return windowed

/-- The names of `names` that a family state serves have one, built for the
first name of the family. -/
def buildFamilies (rt : Runtime) (elsewhere : String → Bool) :
    List String → List (String × FamilyState) → Except PyError (List (String × FamilyState))
  | [], families => .ok families
  | name :: names, families =>
      if elsewhere name then buildFamilies rt elsewhere names families
      else
        match families.lookup (canonicalFamily name) with
        | some _ => buildFamilies rt elsewhere names families
        | none => do
            let state ← buildState rt name
            buildFamilies rt elsewhere names (families ++ [(canonicalFamily name, state)])

/-- The name is served by the session profile, by the derived metrics or by
the batched window. -/
def Engine.elsewhere (sessionVp : Option SessionVpState) (vpDerived : Option VpDerivedState)
    (batched : Option BatchedWindowedState) (name : String) : Bool :=
  (sessionVp.isSome && vpRootNames.contains name) ||
    vpDerived.any (fun s => s.names.contains name) ||
    batched.any (fun s => s.names.contains name)

/-- The batched window, if the windowed names call for one. -/
def buildBatched (rt : Runtime) (sessionVp : Option SessionVpState)
    (vpDerived : Option VpDerivedState) (names : List String) :
    Except PyError (Option BatchedWindowedState) :=
  if 2 ≤ names.length ∨ (names.length = 1 ∧ sessionVp.isSome ∧ vpDerived.isNone) then do
    let windows ← names.mapM (resolveWindow rt)
    return some (BatchedWindowedState.init names (windows.max?.getD 0)
      (if sessionVp.isSome then vpRootNames else []))
  else .ok none

/-- `__init__`. -/
def Engine.create (rt : Runtime) (indicators : List String) : Except PyError Engine := do
  let sessionVp : Option SessionVpState :=
    if indicators.any vpRootNames.contains ∨ anyTransitiveDependsOnVp rt.registry indicators
    then some SessionVpState.init else none
  let windowed ← collectWindowed rt.registry indicators
  let derived := windowed.filter vpDerivedNames.contains
  let vpDerived : Option VpDerivedState :=
    if derived ≠ [] ∧ sessionVp.isSome then some (VpDerivedState.init derived) else none
  let batched ← buildBatched rt sessionVp vpDerived
    (windowed.filter fun name => !vpDerivedNames.contains name)
  let families ← buildFamilies rt (Engine.elsewhere sessionVp vpDerived batched) indicators []
  return {
    indicators := indicators
    sessionVp := sessionVp
    vpDerived := vpDerived
    batched := batched
    families := families }

/-! ## §4 Reading -/

/-- What can be read of a state: its attributes, NaN if it lacks them, and
its `values` if it has any. -/
structure StateView where
  attr : String → PyValue
  values : Option (List (String × PyValue)) := none

/-- A state whose only attribute is `value`. -/
def valueView (value : PyValue) : StateView where
  attr name := if name = "value" then value else nan

def SessionVpState.view (s : SessionVpState) : StateView where
  attr name :=
    if name = "poc" ∨ name = "value" then floatValue (s.levels.map VpLevels.poc)
    else if name = "vah" then floatValue (s.levels.map VpLevels.vah)
    else if name = "val" then floatValue (s.levels.map VpLevels.val)
    else nan

def FamilyState.view (rt : Runtime) : FamilyState → StateView
  | hand s => { attr := fun name => floatValue (s.attr rt.sqrt name) }
  | windowed s => valueView s.current
  | causal s => valueView s.current
  | rollingVp s => valueView s.current

/-- A state that has `values`. -/
def valuesView (values : List (String × PyValue)) : StateView where
  attr _ := nan
  values := some values

/-- `_read_output`. -/
def readOutput (name : String) (view : StateView) : PyValue :=
  if name = "macd" then view.attr "macd"
  else if name = "macd_signal" then view.attr "signal"
  else if name = "macd_hist" then view.attr "hist"
  else if startsWith name "bb_upper" then view.attr "upper"
  else if startsWith name "bb_middle" then view.attr "middle"
  else if startsWith name "bb_lower" then view.attr "lower"
  else if name = "vp_poc" then view.attr "poc"
  else if name = "vp_vah" then view.attr "vah"
  else if name = "vp_val" then view.attr "val"
  else
    match view.values with
    | some values => (values.lookup name).getD nan
    | none => view.attr "value"

/-- The state that serves a name (`_states[name]`). -/
def Engine.stateView (rt : Runtime) (e : Engine) (name : String) : StateView :=
  match e.sessionVp, vpRootNames.contains name with
  | some s, true => s.view
  | _, _ =>
      match e.vpDerived.filter (fun s => s.names.contains name) with
      | some s => valuesView s.values
      | none =>
          match e.batched.filter (fun s => s.names.contains name) with
          | some s => valuesView s.currents
          | none =>
              match e.families.lookup (canonicalFamily name) with
              | some s => s.view rt
              | none => { attr := fun _ => nan }

/-- The value of a name, if it is not missing. -/
def Engine.reading (rt : Runtime) (e : Engine) (name : String) : Option PyValue :=
  let value := readOutput name (e.stateView rt name)
  if value.isMissing then none else some value

/-- `is_ready`. -/
def Engine.isReady (e : Engine) : Bool := decide (minBars ≤ e.barsSeen)

/-- The snapshot of an engine. -/
def Engine.snapshot (rt : Runtime) (e : Engine) : LatestBar where
  values := e.indicators.filterMap fun name => (e.reading rt name).map fun value => (name, value)
  isReady := e.isReady
  barsSeen := e.barsSeen

/-! ## §5 Updating -/

/-- Update the family states in order, up to the first that raises. -/
def updateFamilies (rt : Runtime) (bar : StreamBar) :
    List (String × FamilyState) → List (String × FamilyState) × Option PyError
  | [] => ([], none)
  | (key, state) :: families =>
      match state.update rt bar with
      | (state, some e) => ((key, state) :: families, some e)
      | (state, none) =>
          let (families, raised) := updateFamilies rt bar families
          ((key, state) :: families, raised)

/-- The values injected into the batched window. -/
def injectedValues (sessionVp : Option SessionVpState) : List (String × PyValue) :=
  match sessionVp with
  | none => []
  | some s =>
      [("vp_poc", s.view.attr "poc"), ("vp_vah", s.view.attr "vah"),
        ("vp_val", s.view.attr "val")]

/-- Update the derived metrics, which read the session profile. -/
def updateDerived (rt : Runtime) (vpDerived : Option VpDerivedState)
    (sessionVp : Option SessionVpState) (bar : StreamBar) :
    Option VpDerivedState × Option PyError :=
  match vpDerived, sessionVp with
  | some s, some vp => let (s, raised) := s.update rt.handlers vp bar; (some s, raised)
  | _, _ => (vpDerived, none)

/-- Update the batched window. -/
def updateBatched (rt : Runtime) (batched : Option BatchedWindowedState)
    (sessionVp : Option SessionVpState) (bar : StreamBar) :
    Option BatchedWindowedState × Option PyError :=
  match batched with
  | some s =>
      let (s, raised) := s.update rt.handlers bar (injectedValues sessionVp)
      (some s, raised)
  | none => (none, none)

/-- `update`: the session profile first, then the states that read it, then
the family states. -/
def Engine.update (rt : Runtime) (e : Engine) (bar : StreamBar) :
    Engine × Except PyError LatestBar :=
  let e := { e with
    barsSeen := e.barsSeen + 1
    sessionVp := e.sessionVp.map fun (s : SessionVpState) =>
      s.update rt.sessionDateOf rt.distribute bar }
  match updateDerived rt e.vpDerived e.sessionVp bar with
  | (vpDerived, some err) => ({ e with vpDerived := vpDerived }, .error err)
  | (vpDerived, none) =>
      let e := { e with vpDerived := vpDerived }
      match updateBatched rt e.batched e.sessionVp bar with
      | (batched, some err) => ({ e with batched := batched }, .error err)
      | (batched, none) =>
          let e := { e with batched := batched }
          match updateFamilies rt bar e.families with
          | (families, some err) => ({ e with families := families }, .error err)
          | (families, none) =>
              let e := { e with families := families }
              let latest := e.snapshot rt
              ({ e with latest := latest }, .ok latest)

/-- `reset`: the derived metrics are not among the states it resets. -/
def Engine.reset (e : Engine) : Engine :=
  { e with
    sessionVp := e.sessionVp.map SessionVpState.reset
    batched := e.batched.map BatchedWindowedState.reset
    families := e.families.map fun family => (family.1, family.2.reset)
    barsSeen := 0
    latest := {} }

/-- The engine after updates that all return. -/
def Engine.run (rt : Runtime) (e : Engine) (bars : List StreamBar) : Except PyError Engine :=
  bars.foldlM
    (fun e bar =>
      match e.update rt bar with
      | (e, .ok _) => .ok e
      | (_, .error err) => .error err)
    e

/-- The engine after any updates, returning or raising. -/
def Engine.feed (rt : Runtime) (e : Engine) (bars : List StreamBar) : Engine :=
  bars.foldl (fun e bar => (e.update rt bar).1) e

end Finbar.Streaming
