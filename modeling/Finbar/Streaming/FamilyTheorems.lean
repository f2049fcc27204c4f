/-
Finbar.Streaming.FamilyTheorems — which values depend on the other requested
names.

A name with a hand-written state reads the state of its family, which the
family's first name built (`family_state`), and a run feeds that state the
bars and nothing else (`reported_eq`). So the engine reports what an engine
with that name alone reports, unless the family is Bollinger's and its first
name has another period (`reportsAlone_sharesPeriod`).

No `sorry`, no `axiom`.
-/
import Finbar.Streaming.EngineTheorems

namespace Finbar.Streaming

open Lib Lib.Python Lib.Run

variable {rt : Runtime} {requested : List String} {name other : String} {hand : HandState}
  {e : Engine} {bars : List StreamBar}

/-! ## §1 The state of a family -/

/-- No window is kept for the family key of the Bollinger names. -/
theorem ownWindow_not_bollinger {registry : HandlerRegistry} (h : OwnWindow registry name) :
    canonicalFamily name ≠ "bb" := by
  intro hbb
  obtain ⟨hkind, hfamily⟩ := h
  rw [hfamily] at hbb
  subst hbb
  have hhand : handStreaming.contains "bb" = false := by decide
  have hdynamic : isDynamic "bb" = false := by decide +kernel
  have hrolling : isRollingVp "bb" = false := by decide +kernel
  unfold classifyIndicator at hkind
  rw [hhand, hdynamic, hrolling, registry.bb_free] at hkind
  cases hkind

/-- A name in the family of a name with a state is not served elsewhere. -/
theorem here_of_family (hcreated : Created rt requested e)
    (hstate : factoryBuild name = some hand)
    (hfamily : canonicalFamily other = canonicalFamily name) :
    Engine.elsewhere e.sessionVp e.vpDerived e.batched other = false := by
  have hroot : vpRootNames.contains other = false := by
    by_cases hbb : canonicalFamily name = "bb"
    · have hroots : ∀ root ∈ vpRootNames, canonicalFamily root ≠ "bb" := by decide +kernel
      rw [← Bool.not_eq_true, List.contains_iff_mem]
      exact fun hmem => hroots other hmem (hfamily.trans hbb)
    · exact factoryBuild_not_vpRoot ((factoryBuild_of_family hfamily hbb).trans hstate)
  have hwindow : ¬ OwnWindow rt.registry other := by
    intro hown
    by_cases hbb : canonicalFamily name = "bb"
    · exact ownWindow_not_bollinger hown (hfamily.trans hbb)
    · have hstreaming := factoryBuild_streaming rt.registry
        ((factoryBuild_of_family hfamily hbb).trans hstate)
      have hkind := hown.1
      rw [hstreaming] at hkind
      cases hkind
  unfold Engine.elsewhere
  rw [hroot, Bool.and_false, Bool.false_or, Bool.or_eq_false_iff]
  constructor
  · rw [← Bool.not_eq_true, Option.any_eq_true]
    rintro ⟨s, hs, hcontains⟩
    exact hwindow ((hcreated.derived s hs).2 other (List.contains_iff_mem.mp hcontains))
  · rw [← Bool.not_eq_true, Option.any_eq_true]
    rintro ⟨s, hs, hcontains⟩
    exact hwindow ((hcreated.batched s hs).2 other (List.contains_iff_mem.mp hcontains))

/-- **The state of a name is that of the first name of its family.** -/
theorem family_state (hcreate : Engine.create rt requested = .ok e) (hname : name ∈ requested)
    (hstate : factoryBuild name = some hand) :
    ∃ first state, first ∈ requested ∧ canonicalFamily first = canonicalFamily name ∧
      firstOfFamily (canonicalFamily name) requested = some first ∧
      buildState rt first = .ok state ∧
      e.families.lookup (canonicalFamily name) = some state := by
  have hcreated := create_created hcreate
  cases hfirst : firstOfFamily (canonicalFamily name) requested with
  | none =>
      unfold firstOfFamily at hfirst
      rw [List.find?_eq_none] at hfirst
      exact absurd (decide_eq_true rfl) (hfirst name hname)
  | some first =>
      have hfamily : canonicalFamily first = canonicalFamily name := by
        simpa using List.find?_some hfirst
      obtain ⟨state, hbuild, hlookup⟩ := buildFamilies_first hcreated.families rfl
        (fun other _ hother => here_of_family hcreated hstate hother) hfirst
      exact ⟨first, state, List.mem_of_find?_eq_some hfirst, hfamily, rfl, hbuild, hlookup⟩

/-! ## §2 The reported value -/

/-- The value of a name in the engine's latest snapshot. -/
def Engine.reported (e : Engine) (name : String) : Option PyValue :=
  e.latest.values.lookup name

/-- The value of a name read off a family state, if it is not missing. -/
def FamilyState.reading (rt : Runtime) (state : FamilyState) (name : String) :
    Option PyValue :=
  let value := readOutput name (state.view rt)
  if value.isMissing then none else some value

/-- **The reported value** is read off the family's state, fed the bars. -/
theorem reported_eq (hcreate : Engine.create rt requested = .ok e) (hname : name ∈ requested)
    (hstate : factoryBuild name = some hand) {state : FamilyState}
    (hlookup : e.families.lookup (canonicalFamily name) = some state)
    {e' : Engine} (hrun : e.run rt bars = .ok e') :
    e'.reported name = if bars = [] then none else (state.feed rt bars).reading rt name := by
  have hcreated := create_created hcreate
  have hfed := run_fed hrun
  unfold Engine.reported
  rw [hfed.latest]
  by_cases hbars : bars = []
  · rw [if_pos hbars, if_pos hbars, hcreated.latest]
    rfl
  · rw [if_neg hbars, if_neg hbars]
    have hindicators : name ∈ e'.indicators := by
      rw [hfed.indicators, hcreated.indicators]
      exact hname
    have hhere : Engine.elsewhere e'.sessionVp e'.vpDerived e'.batched name = false := by
      rw [hfed.elsewhere]
      exact here_of_family hcreated hstate rfl
    rw [snapshot_lookup rt hindicators]
    unfold Engine.reading
    rw [stateView_family (factoryBuild_not_vpRoot hstate) hhere (hfed.lookup hlookup)]
    rfl

/-! ## §3 A name alone -/

/-- An engine whose states are all hand-written. -/
def HandOnly (e : Engine) : Prop :=
  e.vpDerived = none ∧ e.batched = none ∧
    ∀ family ∈ e.families, ∃ hand, family.2 = FamilyState.hand hand

/-- The engine for one name with a hand-written state. -/
def Engine.alone (rt : Runtime) (name : String) (hand : HandState) : Engine where
  indicators := [name]
  sessionVp :=
    if [name].any vpRootNames.contains ∨ anyTransitiveDependsOnVp rt.registry [name]
    then some SessionVpState.init else none
  vpDerived := none
  batched := none
  families := [(canonicalFamily name, .hand hand)]

theorem create_alone (rt : Runtime) (hstate : factoryBuild name = some hand) :
    Engine.create rt [name] = .ok (Engine.alone rt name hand) := by
  have hcollect : collectWindowed rt.registry [name] = .ok [] := by
    unfold collectWindowed
    split
    · rfl
    · rw [factoryBuild_streaming rt.registry hstate]
      rfl
  have hfamilies : ∀ sessionVp,
      buildFamilies rt (Engine.elsewhere sessionVp none none) [name] []
        = .ok [(canonicalFamily name, .hand hand)] := by
    intro sessionVp
    unfold buildFamilies Engine.elsewhere
    rw [factoryBuild_not_vpRoot hstate, Bool.and_false, buildState_hand rt hstate]
    rfl
  unfold Engine.create
  rw [hcollect]
  show buildFamilies rt (Engine.elsewhere _ none none) [name] [] >>= _ = _
  rw [hfamilies]
  rfl

/-- Hand-written states never raise. -/
theorem updateFamilies_hand (rt : Runtime) {families : List (String × FamilyState)}
    (h : ∀ family ∈ families, ∃ hand, family.2 = FamilyState.hand hand) (bar : StreamBar) :
    ∃ families', updateFamilies rt bar families = (families', none) ∧
      ∀ family ∈ families', ∃ hand, family.2 = FamilyState.hand hand := by
  induction families with
  | nil => exact ⟨[], rfl, h⟩
  | cons family families ih =>
      obtain ⟨key, state⟩ := family
      obtain ⟨hand, rfl⟩ := h (key, state) List.mem_cons_self
      obtain ⟨rest, hrest, hhand⟩ := ih fun f hf => h f (List.mem_cons_of_mem _ hf)
      refine ⟨(key, .hand (hand.update rt.sessionDateOf bar)) :: rest, ?_, ?_⟩
      · unfold updateFamilies FamilyState.update
        simp only
        rw [hrest]
      · intro f hf
        rcases List.mem_cons.mp hf with rfl | hf
        · exact ⟨_, rfl⟩
        · exact hhand f hf

theorem update_handOnly (rt : Runtime) (h : HandOnly e) (bar : StreamBar) :
    ∃ e' latest, e.update rt bar = (e', .ok latest) ∧ HandOnly e' := by
  obtain ⟨hderived, hbatched, hhand⟩ := h
  obtain ⟨families, hfamilies, hhand'⟩ := updateFamilies_hand rt hhand bar
  cases hupdate : e.update rt bar with
  | mk e' result =>
      unfold Engine.update updateDerived updateBatched at hupdate
      simp only [hderived, hbatched] at hupdate
      rw [hfamilies] at hupdate
      obtain ⟨rfl, rfl⟩ := Prod.mk.inj hupdate
      exact ⟨_, _, rfl, rfl, rfl, hhand'⟩

/-- **An engine for one such name** never raises. -/
theorem run_handOnly (h : HandOnly e) (bars : List StreamBar) :
    ∃ e', e.run rt bars = .ok e' := by
  obtain ⟨e', hrun, -⟩ : Ensures (e.run rt bars) HandOnly := by
    refine Ensures.foldlM ?_ h
    intro s bar _ hs
    obtain ⟨s', latest, hupdate, hs'⟩ := update_handOnly rt hs bar
    refine ⟨s', ?_, hs'⟩
    rw [hupdate]
  exact ⟨e', hrun⟩

theorem handOnly_alone (rt : Runtime) (name : String) (hand : HandState) :
    HandOnly (Engine.alone rt name hand) := by
  refine ⟨rfl, rfl, ?_⟩
  intro family hfamily
  rw [List.mem_singleton.mp hfamily]
  exact ⟨hand, rfl⟩

/-- **What a name alone reports.** -/
theorem reported_alone (rt : Runtime) (hstate : factoryBuild name = some hand)
    (bars : List StreamBar) :
    ∃ alone', (Engine.alone rt name hand).run rt bars = .ok alone' ∧
      alone'.reported name =
        if bars = [] then none else ((FamilyState.hand hand).feed rt bars).reading rt name := by
  obtain ⟨alone', hrun⟩ := run_handOnly (handOnly_alone rt name hand) bars
  refine ⟨alone', hrun, ?_⟩
  refine reported_eq (create_alone rt hstate) (List.mem_singleton.mpr rfl) hstate ?_ hrun
  exact List.lookup_cons_self

/-! ## §4 Bollinger bands -/

/-- The attributes that the Bollinger names read. -/
def bandKeys : List String := ["upper", "middle", "lower"]

/-- A Bollinger name with a state reads one of them. -/
theorem readOutput_bollinger (hfamily : canonicalFamily name = "bb")
    (hstate : factoryBuild name = some hand) :
    ∃ key ∈ bandKeys, ∀ view, readOutput name view = view.attr key := by
  have hroot : ∃ root ∈ bbNames, startsWith name root = true := by
    rcases bollinger_name hfamily hstate with hname | ⟨start, hstart, hname⟩
    · exact ⟨name, hname, (startsWith_iff name name).mpr (List.prefix_refl _)⟩
    · have hroots : ∀ start ∈ bbStarts, ∃ root ∈ bbNames, startsWith start root = true := by
        decide
      obtain ⟨root, hroot, hstarts⟩ := hroots start hstart
      exact ⟨root, hroot, startsWith_trans hstarts hname⟩
  have hmacd : ∀ n ∈ macdNames, name ≠ n := by
    intro n hn heq
    subst heq
    have hfamilies : ∀ n ∈ macdNames, canonicalFamily n ≠ "bb" := by decide +kernel
    exact hfamilies name hn hfamily
  unfold macdNames at hmacd
  unfold bbNames at hroot
  simp only [List.mem_cons, List.not_mem_nil, or_false, forall_eq_or_imp, forall_eq,
    exists_eq_or_imp, exists_eq_left] at hmacd hroot
  have hbands : ∀ view : StateView, readOutput name view =
      if startsWith name "bb_upper" then view.attr "upper"
      else if startsWith name "bb_middle" then view.attr "middle"
      else view.attr "lower" := by
    intro view
    unfold readOutput
    rw [if_neg hmacd.1, if_neg hmacd.2.1, if_neg hmacd.2.2]
    by_cases hupper : startsWith name "bb_upper" = true
    · rw [if_pos hupper, if_pos hupper]
    · rw [if_neg hupper, if_neg hupper]
      by_cases hmiddle : startsWith name "bb_middle" = true
      · rw [if_pos hmiddle, if_pos hmiddle]
      · rw [if_neg hmiddle, if_neg hmiddle]
        exact if_pos ((hroot.resolve_left hupper).resolve_left hmiddle)
  simp only [hbands]
  by_cases hupper : startsWith name "bb_upper" = true
  · exact ⟨"upper", by decide, fun view => if_pos hupper⟩
  · by_cases hmiddle : startsWith name "bb_middle" = true
    · exact ⟨"middle", by decide, fun view => (if_neg hupper).trans (if_pos hmiddle)⟩
    · exact ⟨"lower", by decide, fun view => (if_neg hupper).trans (if_neg hmiddle)⟩

/-- The bands of a state are missing until it was fed `period` bars, and
always if there is no such period. -/
def BandsFrom (rt : Runtime) (state : FamilyState) (period : Option ℕ) : Prop :=
  ∀ bars, ∀ key ∈ bandKeys, (((state.feed rt bars).view rt).attr key).isMissing
    = !period.any fun p => p ≤ bars.length

theorem floatValue_isMissing (value : Option ℚ) : (floatValue value).isMissing = value.isNone := by
  cases value with
  | none => rfl
  | some q => rfl

/-- The window of a Bollinger state grows up to its period. -/
theorem bbState_feed {period : ℕ} (hperiod : 2 ≤ period) (bars : List StreamBar) :
    (bars.foldl BbState.update (BbState.init period)).period = period ∧
      (bars.foldl BbState.update (BbState.init period)).buffer.maxlen = period ∧
      (bars.foldl BbState.update (BbState.init period)).buffer.length
        = min bars.length period := by
  induction bars using List.reverseRecOn with
  | nil =>
      have hmax : max 2 period = period := max_eq_right hperiod
      exact ⟨hmax, hmax, (Nat.zero_min period).symm⟩
  | append_singleton bars bar ih =>
      obtain ⟨hp, hmaxlen, hlength⟩ := ih
      rw [List.foldl_append, List.foldl_cons, List.foldl_nil]
      generalize bars.foldl BbState.update (BbState.init period) = s at hp hmaxlen hlength
      refine ⟨hp, hmaxlen, ?_⟩
      show (s.buffer.push bar.close).length = _
      rw [Deque.length_push, hlength, hmaxlen, List.length_append, List.length_singleton]
      omega

theorem feed_bb (rt : Runtime) (s : BbState) (bars : List StreamBar) :
    (FamilyState.hand (.bb s)).feed rt bars
      = .hand (.bb (bars.foldl BbState.update s)) := by
  induction bars generalizing s with
  | nil => rfl
  | cons bar bars ih => exact ih (s.update bar)

theorem bandsFrom_bb (rt : Runtime) {period : ℕ} (hperiod : 2 ≤ period) :
    BandsFrom rt (.hand (.bb (BbState.init period))) (some period) := by
  intro bars key hkey
  obtain ⟨hp, -, hlength⟩ := bbState_feed hperiod bars
  rw [feed_bb]
  generalize bars.foldl BbState.update (BbState.init period) = s at hp hlength
  have hmiddle : s.middle.isNone = !decide (period ≤ bars.length) := by
    unfold BbState.middle
    rw [hp, hlength]
    by_cases hle : period ≤ bars.length
    · rw [min_eq_right hle, if_neg (lt_irrefl period), decide_eq_true hle]
      rfl
    · have hlt : min bars.length period < period := by omega
      rw [if_pos hlt, decide_eq_false hle]
      rfl
  have hband : ∀ deviations, (s.band rt.sqrt deviations).isNone = s.middle.isNone := by
    intro deviations
    unfold BbState.band
    rw [Option.isNone_map]
  unfold bandKeys at hkey
  simp only [List.mem_cons, List.not_mem_nil, or_false] at hkey
  rcases hkey with rfl | rfl | rfl
  · show (floatValue (s.upper rt.sqrt)).isMissing = _
    rw [floatValue_isMissing]
    exact (hband 2).trans hmiddle
  · show (floatValue s.middle).isMissing = _
    rw [floatValue_isMissing]
    exact hmiddle
  · show (floatValue (s.lower rt.sqrt)).isMissing = _
    rw [floatValue_isMissing]
    exact (hband (-2)).trans hmiddle

/-- States that are not hand-written have no bands. -/
theorem bandsFrom_none {state : FamilyState} (h : ∀ hand, state ≠ .hand hand) :
    BandsFrom rt state none := by
  have hfeed : ∀ (bars : List StreamBar) (state : FamilyState), (∀ hand, state ≠ .hand hand) →
      ∀ hand, state.feed rt bars ≠ .hand hand := by
    intro bars
    induction bars with
    | nil => exact fun state h => h
    | cons bar bars ih =>
        intro state h
        refine ih (state.update rt bar).1 ?_
        cases state with
        | hand s => exact absurd rfl (h s)
        | windowed s => exact fun hand heq => by cases heq
        | causal s => exact fun hand heq => by cases heq
        | rollingVp s => exact fun hand heq => by cases heq
  have hview : ∀ value, ∀ key ∈ bandKeys, ((valueView value).attr key).isMissing = true := by
    intro value key hkey
    have hne : key ≠ "value" := by
      rintro rfl
      exact absurd hkey (by decide)
    unfold valueView
    simp only
    rw [if_neg hne]
    rfl
  intro bars key hkey
  have hfed := hfeed bars state h
  cases hstate : state.feed rt bars with
  | hand s => exact absurd hstate (hfed s)
  | windowed s => exact hview s.current key hkey
  | causal s => exact hview s.current key hkey
  | rollingVp s => exact hview s.current key hkey

/-- The state built for a name of the Bollinger family. -/
theorem bandsFrom_buildState {state : FamilyState} (hfamily : canonicalFamily name = "bb")
    (h : buildState rt name = .ok state) : BandsFrom rt state (bollingerPeriod name) := by
  cases hbuild : factoryBuild name with
  | some hand =>
      obtain ⟨period, rfl, hperiod⟩ := factoryBuild_bollinger hfamily hbuild
      rw [buildState_hand rt hbuild] at h
      obtain rfl := Except.ok.inj h
      rw [bollingerPeriod_eq hbuild hperiod]
      exact bandsFrom_bb rt hperiod
  | none =>
      have hnone : bollingerPeriod name = none := by
        unfold bollingerPeriod
        rw [hbuild]
      rw [hnone]
      refine bandsFrom_none ?_
      unfold buildState at h
      split at h
      · obtain rfl := Except.ok.inj h
        exact fun hand heq => by cases heq
      · obtain ⟨kind, -, h⟩ := bind_eq_ok.mp h
        cases kind with
        | streaming =>
            rw [hbuild] at h
            cases h
        | windowed =>
            simp only at h
            unfold buildWindowedState at h
            split at h
            · obtain rfl := Except.ok.inj h
              exact fun hand heq => by cases heq
            · obtain ⟨window, -, h⟩ := bind_eq_ok.mp h
              obtain rfl := Except.ok.inj h
              exact fun hand heq => by cases heq

/-! ## §5 Independence of the other names -/

/-- The engine reports for a name what an engine with that name alone
reports, after any bars whose updates return. -/
def ReportsAlone (rt : Runtime) (e : Engine) (name : String) : Prop :=
  ∃ alone, Engine.create rt [name] = .ok alone ∧
    ∀ bars e', e.run rt bars = .ok e' →
      ∃ alone', alone.run rt bars = .ok alone' ∧ e'.reported name = alone'.reported name

/-- The first requested name of the name's family has the name's Bollinger
period; names outside the Bollinger family have none. -/
def SharesPeriod (requested : List String) (name : String) : Prop :=
  (firstOfFamily (canonicalFamily name) requested).bind bollingerPeriod = bollingerPeriod name

/-- Names of one family and one period have one state. -/
theorem factoryBuild_of_period (hfamily : canonicalFamily other = canonicalFamily name)
    (hperiod : bollingerPeriod other = bollingerPeriod name)
    (hstate : factoryBuild name = some hand) : factoryBuild other = some hand := by
  by_cases hbb : canonicalFamily name = "bb"
  · obtain ⟨period, rfl, hle⟩ := factoryBuild_bollinger hbb hstate
    rw [bollingerPeriod_eq hstate hle] at hperiod
    exact (factoryBuild_of_bollingerPeriod (hfamily.trans hbb) hperiod).1
  · exact (factoryBuild_of_family hfamily hbb).trans hstate

/-- A name that shares its period reads the state it has alone. -/
theorem reportsAlone_of_sharesPeriod (hcreate : Engine.create rt requested = .ok e)
    (hname : name ∈ requested) (hstate : factoryBuild name = some hand)
    (hshares : SharesPeriod requested name) : ReportsAlone rt e name := by
  obtain ⟨first, state, -, hfamily, hfirst, hbuild, hlookup⟩ :=
    family_state hcreate hname hstate
  unfold SharesPeriod at hshares
  rw [hfirst, Option.bind_some] at hshares
  have hsame := factoryBuild_of_period hfamily hshares hstate
  rw [buildState_hand rt hsame] at hbuild
  obtain rfl := Except.ok.inj hbuild
  refine ⟨Engine.alone rt name hand, create_alone rt hstate, ?_⟩
  intro bars e' hrun
  obtain ⟨alone', halone, hreported⟩ := reported_alone rt hstate bars
  exact ⟨alone', halone, (reported_eq hcreate hname hstate hlookup hrun).trans hreported.symm⟩

/-- A Bollinger name reads a band that is missing until its state was fed
enough bars. -/
theorem reading_isNone {state : FamilyState} {period : Option ℕ} {key : String}
    (hbands : BandsFrom rt state period) (hkey : key ∈ bandKeys)
    (hread : ∀ view, readOutput name view = view.attr key) (bars : List StreamBar) :
    ((state.feed rt bars).reading rt name).isNone
      = !period.any fun p => p ≤ bars.length := by
  have hmissing := hbands bars key hkey
  unfold FamilyState.reading
  simp only
  rw [hread]
  cases hvalue : (((state.feed rt bars).view rt).attr key).isMissing with
  | true => rw [if_pos rfl, ← hmissing, hvalue, Option.isNone_none]
  | false => rw [if_neg Bool.false_ne_true, ← hmissing, hvalue, Option.isNone_some]

/-- Between two different periods, one state has its bands and the other not. -/
theorem periods_separate {served : Option ℕ} {own : ℕ} (hne : served ≠ some own)
    (hserved : ∀ p ∈ served, 2 ≤ p) (hown : 2 ≤ own) :
    ∃ n, 0 < n ∧ (served.any fun p => p ≤ n) ≠ decide (own ≤ n) := by
  cases served with
  | none =>
      refine ⟨own, by omega, ?_⟩
      simp
  | some p =>
      have hp := hserved p rfl
      have hpown : p ≠ own := fun heq => hne (congrArg some heq)
      refine ⟨min p own, by omega, ?_⟩
      rw [Option.any_some, ne_eq, decide_eq_decide]
      omega

/-- A name that reports what it reports alone shares its period, if the
engine's updates can return any number of times. -/
theorem sharesPeriod_of_reportsAlone (hcreate : Engine.create rt requested = .ok e)
    (hname : name ∈ requested) (hstate : factoryBuild name = some hand)
    (hruns : ∀ n, ∃ bars e', bars.length = n ∧ e.run rt bars = .ok e')
    (halone : ReportsAlone rt e name) : SharesPeriod requested name := by
  obtain ⟨first, state, hmem, hfamily, hfirst, hbuild, hlookup⟩ :=
    family_state hcreate hname hstate
  unfold SharesPeriod
  rw [hfirst, Option.bind_some]
  by_cases hbb : canonicalFamily name = "bb"
  · obtain ⟨own, rfl, hown⟩ := factoryBuild_bollinger hbb hstate
    obtain ⟨key, hkey, hread⟩ := readOutput_bollinger hbb hstate
    rw [bollingerPeriod_eq hstate hown]
    by_contra hne
    have hserved : ∀ p ∈ bollingerPeriod first, 2 ≤ p :=
      fun p hp => (factoryBuild_of_bollingerPeriod (hfamily.trans hbb) hp).2
    obtain ⟨n, hpos, hseparate⟩ := periods_separate hne hserved hown
    obtain ⟨bars, e', hlength, hrun⟩ := hruns n
    have hbars : bars ≠ [] := List.ne_nil_of_length_pos (hlength ▸ hpos)
    obtain ⟨alone, hcreateAlone, hsame⟩ := halone
    rw [create_alone rt hstate] at hcreateAlone
    obtain rfl := Except.ok.inj hcreateAlone
    obtain ⟨alone', hrunAlone, hreported⟩ := hsame bars e' hrun
    obtain ⟨alone'', hrunAlone', hvalue⟩ := reported_alone rt hstate bars
    obtain rfl := Except.ok.inj (hrunAlone.symm.trans hrunAlone')
    rw [reported_eq hcreate hname hstate hlookup hrun, hvalue, if_neg hbars, if_neg hbars]
      at hreported
    -- the reading of one state is missing after `n` bars and that of the other is not
    have hfirstNone := reading_isNone (bandsFrom_buildState (hfamily.trans hbb) hbuild) hkey
      hread bars
    have hownNone := reading_isNone (bandsFrom_bb rt hown) hkey hread bars
    rw [hreported, hownNone, hlength, Option.any_some, Bool.not_inj_iff] at hfirstNone
    exact hseparate hfirstNone.symm
  · unfold bollingerPeriod
    rw [factoryBuild_of_family hfamily hbb]

/-- **A name's value is its own** — the value that an engine with that name
alone reports — if the first requested name of its family has its period;
and only then, if the engine's updates can return any number of times. -/
theorem reportsAlone_sharesPeriod (rt : Runtime) (requested : List String) (name : String)
    (e : Engine) (hcreate : Engine.create rt requested = .ok e) (hname : name ∈ requested)
    (hstate : (factoryBuild name).isSome) :
    (SharesPeriod requested name → ReportsAlone rt e name) ∧
    ((∀ n, ∃ bars e', bars.length = n ∧ e.run rt bars = .ok e') →
      ReportsAlone rt e name → SharesPeriod requested name) := by
  obtain ⟨hand, hhand⟩ := Option.isSome_iff_exists.mp hstate
  exact ⟨reportsAlone_of_sharesPeriod hcreate hname hhand,
    sharesPeriod_of_reportsAlone hcreate hname hhand⟩

/-- Two Bollinger names of one period beside a moving average. -/
theorem reportsAlone_sharesPeriod_bands :
    ∃ e, Engine.create sampleRuntime ["sma_5", "bb_upper_10", "bb_lower_10"] = .ok e ∧
      ReportsAlone sampleRuntime e "bb_lower_10" := by
  cases hcreate : Engine.create sampleRuntime ["sma_5", "bb_upper_10", "bb_lower_10"] with
  | error err =>
      have hok : (Engine.create sampleRuntime
          ["sma_5", "bb_upper_10", "bb_lower_10"]).toBool = true := by decide +kernel
      rw [hcreate] at hok
      cases hok
  | ok e =>
      refine ⟨e, rfl, (reportsAlone_sharesPeriod sampleRuntime
        ["sma_5", "bb_upper_10", "bb_lower_10"] "bb_lower_10" e hcreate (by decide)
        (by decide +kernel)).1 ?_⟩
      unfold SharesPeriod
      decide +kernel

/-! ## §6 Two periods in one request -/

/-- The number that an engine reports for a name after a sequence of bars. -/
def numberAfter (rt : Runtime) (requested : List String) (bars : List StreamBar)
    (name : String) : Option ℚ :=
  match Engine.create rt requested with
  | .error _ => none
  | .ok e =>
      match e.run rt bars with
      | .error _ => none
      | .ok e' =>
          match e'.reported name with
          | some (.num (.fin q)) => some q
          | _ => none

theorem numberAfter_eq_some {q : ℚ} (h : numberAfter rt requested bars name = some q) :
    ∃ e e', Engine.create rt requested = .ok e ∧ e.run rt bars = .ok e' ∧
      e'.reported name = some (.ofRat q) := by
  unfold numberAfter at h
  split at h
  · cases h
  · next e hcreate =>
      split at h
      · cases h
      · next e' hrun =>
          split at h
          · next q' hvalue =>
              obtain rfl := Option.some.inj h
              exact ⟨e, e', hcreate, hrun, hvalue⟩
          · cases h

/-- Two numbers for one name after the same bars. -/
theorem not_reportsAlone {q q' : ℚ} (h : numberAfter rt requested bars name = some q)
    (halone : numberAfter rt [name] bars name = some q') (hne : q ≠ q') :
    ∃ e, Engine.create rt requested = .ok e ∧ ¬ ReportsAlone rt e name := by
  obtain ⟨e, e', hcreate, hrun, hvalue⟩ := numberAfter_eq_some h
  obtain ⟨alone, alone', hcreateAlone, hrunAlone, hvalueAlone⟩ := numberAfter_eq_some halone
  refine ⟨e, hcreate, ?_⟩
  rintro ⟨alone₁, hcreate₁, hsame⟩
  obtain rfl := Except.ok.inj (hcreateAlone.symm.trans hcreate₁)
  obtain ⟨alone₂, hrun₂, hreported⟩ := hsame bars e' hrun
  obtain rfl := Except.ok.inj (hrunAlone.symm.trans hrun₂)
  rw [hvalue, hvalueAlone] at hreported
  exact hne (by simpa using hreported)

/-- Three closes. -/
def threeCloses : List StreamBar :=
  [flatBar "2024-01-01" 1 1, flatBar "2024-01-02" 1 1, flatBar "2024-01-03" 4 1]

/-- Requested after `bb_middle_2`, `bb_middle_3` is the mean of two closes. -/
theorem bb_middle_3_after_bb_middle_2 :
    numberAfter sampleRuntime ["bb_middle_2", "bb_middle_3"] threeCloses "bb_middle_3"
      = some (5 / 2) ∧
    numberAfter sampleRuntime ["bb_middle_3"] threeCloses "bb_middle_3" = some 2 ∧
    ∃ e, Engine.create sampleRuntime ["bb_middle_2", "bb_middle_3"] = .ok e ∧
      ¬ ReportsAlone sampleRuntime e "bb_middle_3" := by
  have htwo : numberAfter sampleRuntime ["bb_middle_2", "bb_middle_3"] threeCloses "bb_middle_3"
      = some (5 / 2) := by
    decide +kernel
  have hthree : numberAfter sampleRuntime ["bb_middle_3"] threeCloses "bb_middle_3"
      = some 2 := by
    decide +kernel
  exact ⟨htwo, hthree, not_reportsAlone htwo hthree (by decide +kernel)⟩

end Finbar.Streaming
