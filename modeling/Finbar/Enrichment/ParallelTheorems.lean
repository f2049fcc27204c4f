/-
Finbar.Enrichment.ParallelTheorems — the parallel mode against the
sequential one.

The parallel mode computes every informative row before the first primary
bar. A fault there (`FirstFrontFault`) is what it raises; the modes then agree
exactly when it is also the first fault in the order in which bars fall due
(`FirstDueFault`). Without one, the cursors hold between two primary bars the
rows of the sequential cursors and, after them, those of the bars that the
sequential mode has yet to feed (`Seeded`); these open later than every primary
bar so far, so no lookup reaches them. The modes agree under `Repeats`: every
alias whose bars fall due is declared, its engine is the one of the worker,
which has no window resolver, and no primary bar fails in two ways.

No `sorry`, no `axiom`.
-/
import Finbar.Enrichment.AheadTheorems

namespace Finbar.Enrichment

open Lib Lib.Python Lib.AsOf Lib.Run Finbar.Streaming

variable {env : Environment} {settings : EnricherSettings}

/-! ## §1 Engines with and without a resolver -/

/-- The resolver gives a name the window that it has without one. -/
def SameWindow (env : Environment) (resolver : Option (String → Except PyError (Option ℕ)))
    (name : String) : Prop :=
  resolveWindow { env.runtime with windowResolver := resolver } name
    = resolveWindow { env.runtime with windowResolver := none } name

theorem collectWindowed_subset {registry : HandlerRegistry} {names windowed : List String}
    (h : collectWindowed registry names = .ok windowed) : windowed ⊆ names := by
  induction names generalizing windowed with
  | nil =>
      obtain rfl := Except.ok.inj h
      exact List.Subset.refl _
  | cons name names ih =>
      unfold collectWindowed at h
      split at h
      · exact List.Subset.trans (ih h) (List.subset_cons_self name names)
      · obtain ⟨kind, -, h⟩ := bind_eq_ok.mp h
        obtain ⟨rest, hrest, h⟩ := bind_eq_ok.mp h
        split at h
        · obtain rfl := Except.ok.inj h
          exact List.cons_subset_cons name (ih hrest)
        · obtain rfl := Except.ok.inj h
          exact List.Subset.trans (ih hrest) (List.subset_cons_self name names)

theorem buildState_congr {resolver : Option (String → Except PyError (Option ℕ))}
    {name : String} (h : SameWindow env resolver name) :
    buildState { env.runtime with windowResolver := resolver } name
      = buildState { env.runtime with windowResolver := none } name := by
  have hwindowed : buildWindowedState { env.runtime with windowResolver := resolver } name
      = buildWindowedState { env.runtime with windowResolver := none } name := by
    unfold buildWindowedState
    cases parseWindowBars name with
    | some window => rfl
    | none => simp only [show _ = _ from h]
  unfold buildState
  simp only [hwindowed]

theorem buildFamilies_congr {resolver : Option (String → Except PyError (Option ℕ))}
    {names : List String} (h : ∀ name ∈ names, SameWindow env resolver name)
    (elsewhere : String → Bool) (families : List (String × FamilyState)) :
    buildFamilies { env.runtime with windowResolver := resolver } elsewhere names families
      = buildFamilies { env.runtime with windowResolver := none } elsewhere names
          families := by
  induction names generalizing families with
  | nil => rfl
  | cons name names ih =>
      have hrest := ih fun n hn => h n (List.mem_cons_of_mem name hn)
      unfold buildFamilies
      rw [buildState_congr (h name List.mem_cons_self)]
      simp only [hrest]

/-- **Engines whose names have the same windows are the same.** -/
theorem newEngine_congr {resolver : Option (String → Except PyError (Option ℕ))}
    {indicators : List String} (h : ∀ name ∈ indicators, SameWindow env resolver name) :
    newEngine env resolver indicators = newEngine env none indicators := by
  unfold newEngine Engine.create
  simp only
  cases hwindowed : collectWindowed env.runtime.registry indicators with
  | error e => rfl
  | ok windowed =>
      have hsubset := collectWindowed_subset hwindowed
      have hbatched : ∀ sessionVp vpDerived,
          buildBatched { env.runtime with windowResolver := resolver } sessionVp vpDerived
              (windowed.filter fun name => !vpDerivedNames.contains name)
            = buildBatched { env.runtime with windowResolver := none } sessionVp vpDerived
              (windowed.filter fun name => !vpDerivedNames.contains name) := by
        intro sessionVp vpDerived
        have hwindows : (windowed.filter fun name => !vpDerivedNames.contains name).mapM
              (resolveWindow { env.runtime with windowResolver := resolver })
            = (windowed.filter fun name => !vpDerivedNames.contains name).mapM
              (resolveWindow { env.runtime with windowResolver := none }) :=
          mapM_congr fun name hname => h name (hsubset (List.mem_of_mem_filter hname))
        unfold buildBatched
        rw [hwindows]
      simp only [bind, Except.bind, hbatched, buildFamilies_congr h]

/-! ## §2 When the modes agree -/

/-- Some bar of the list is due at a primary bar before which none fails. -/
def FallsDue (env : Environment) (settings : EnricherSettings) (primaryBars : List StreamBar)
    (bars : List StreamBar) : Prop :=
  ∃ start engine bar t,
    newEngine env (primaryResolver settings) settings.primaryIndicators = .ok start ∧
      Comes env settings start primaryBars engine bar ∧ barOpenTs env bar = .ok t ∧
      ¬ Dormant env t bars

/-- An alias whose bars fall due is declared. -/
def AllDeclared (env : Environment) (settings : EnricherSettings)
    (primaryBars : List StreamBar) (items : List (String × List StreamBar)) : Prop :=
  ∀ entry ∈ items, FallsDue env settings primaryBars entry.2 → Declared settings entry.1

/-- The engine of an alias whose bars fall due is the one that the worker
builds, without a resolver. -/
def SameEngines (env : Environment) (settings : EnricherSettings)
    (primaryBars : List StreamBar) (items : List (String × List StreamBar)) : Prop :=
  ∀ entry ∈ items, FallsDue env settings primaryBars entry.2 →
    ∀ item ∈ settings.informative, item.aliasName = entry.1 →
      newEngine env (windowResolverFor item.interval settings.marketCalendar)
          (settings.indicatorsOf entry.1)
        = newEngine env none (settings.indicatorsOf entry.1)

/-- No primary bar that the run comes to fails both at its timestamp and in
its row, differently. -/
def FailsOneWay (env : Environment) (settings : EnricherSettings)
    (primaryBars : List StreamBar) : Prop :=
  ∀ start engine bar e e',
    newEngine env (primaryResolver settings) settings.primaryIndicators = .ok start →
      Comes env settings start primaryBars engine bar → barOpenTs env bar = .error e →
      enrichBar env engine settings.primaryIndicators bar = .error e' → e = e'

/-- What the parallel mode computes is what the sequential one would. -/
structure Repeats (env : Environment) (settings : EnricherSettings)
    (primaryBars : List StreamBar) (items : List (String × List StreamBar)) : Prop where
  engines : SameEngines env settings primaryBars items
  declared : AllDeclared env settings primaryBars items
  primary : FailsOneWay env settings primaryBars

/-- The first fault up front is also the first one in the order in which bars
fall due; or there is none up front, and what is computed is what the
sequential mode would compute. -/
def Precomputable (env : Environment) (settings : EnricherSettings)
    (primaryBars : List StreamBar) (items : List (String × List StreamBar)) : Prop :=
  (∃ e, FirstFrontFault env settings items e ∧ FirstDueFault env settings primaryBars items e) ∨
    (∀ e, ¬ FirstFrontFault env settings items e) ∧ Repeats env settings primaryBars items

/-- `e` is what the first primary bar raises that fails by itself. -/
def PrimaryFault (env : Environment) (settings : EnricherSettings)
    (primaryBars : List StreamBar) (e : PyError) : Prop :=
  ∃ start engine bar,
    newEngine env (primaryResolver settings) settings.primaryIndicators = .ok start ∧
      Comes env settings start primaryBars engine bar ∧
      primaryStep env settings engine bar = .error e

variable {primaryBars : List StreamBar} {informativeBars : OrderedDict String (List StreamBar)}

/-! ## §3 Rows that are computed up front -/

/-- A new state, filled with what the worker returned, is ahead by all
bars. -/
theorem Filled.seeded {item : InformativeTimeframe} {live : Prop} {s p : InfoState}
    {bars : List StreamBar} {rows : List (Timestamp × Row)}
    (hnew : newInfoState env settings item = .ok s) (hfilled : Filled rows s p)
    (hlive : live → newEngine env (windowResolverFor item.interval settings.marketCalendar)
        (settings.indicatorsOf item.aliasName)
      = newEngine env none (settings.indicatorsOf item.aliasName))
    (hrows : (bars = [] ∧ rows = []) ∨ enrichInfo env settings item.aliasName bars = .ok rows) :
    Seeded env settings item.aliasName live bars s p := by
  obtain ⟨hengine, hoffset, -⟩ := newInfoState_spec hnew
  refine ⟨⟨rows, ?_, hfilled.entries, fun hlives => ?_⟩, hfilled.offset, hoffset,
    hfilled.visible, hfilled.suffix⟩
  · rcases hrows with ⟨rfl, rfl⟩ | hrows
    · rfl
    · obtain ⟨engine, -, hrows⟩ := bind_eq_ok.mp hrows
      exact opens_of_enrichRows hrows
  · rcases hrows with ⟨rfl, rfl⟩ | hrows
    · rfl
    · obtain ⟨engine, hworker, hrows⟩ := bind_eq_ok.mp hrows
      rw [hlive hlives, hworker] at hengine
      obtain rfl := Except.ok.inj hengine
      exact hrows

/-- A seeded enricher is ahead of the new one by all bars. The live aliases
are those whose bars fall due. -/
theorem SeededWith.ahead {s p : Enricher}
    (h : SeededWith env settings informativeBars.items s p)
    (hengines : SameEngines env settings primaryBars informativeBars.items) :
    Ahead env settings
      (fun aliasName => FallsDue env settings primaryBars
        (entriesFor informativeBars.items aliasName))
      (entriesFor informativeBars.items) s p := by
  obtain ⟨-, hfrom, -⟩ := create_spec h.created
  refine ⟨h.engine, h.keys.symm, fun aliasName sInfo pInfo hs hp => ?_⟩
  obtain ⟨item, hitem, rfl, hnew⟩ := hfrom aliasName sInfo hs
  obtain ⟨rows, hfilled, hrows⟩ := h.filled _ sInfo pInfo hs hp
  refine hfilled.seeded hnew (fun hdue => ?_) (hrows.imp_left (And.imp_left entriesFor_of_not_mem))
  obtain ⟨bars, hget⟩ : ∃ bars, informativeBars.get item.aliasName = some bars := by
    by_contra hnone
    have hmem : item.aliasName ∉ informativeBars.items.map Prod.fst := fun hmem =>
      hnone (OrderedDict.mem_keys.mp hmem)
    obtain ⟨_, _, _, _, -, -, -, hnot⟩ := hdue
    rw [entriesFor_of_not_mem hmem] at hnot
    exact hnot fun _ hbar => nomatch hbar
  have hmem := OrderedDict.mem_of_get hget
  rw [entriesFor_of_mem hmem] at hdue
  exact hengines _ hmem hdue item hitem rfl

/-- **Rows that are computed up front** are the sequential ones. -/
theorem primaryRows_seedUpFront {p : Enricher}
    (h : seedUpFront env settings informativeBars.items = .ok p)
    (hrepeats : Repeats env settings primaryBars informativeBars.items) :
    enrichSequentially env settings primaryBars informativeBars
      = primaryRows env settings p primaryBars := by
  obtain ⟨s, hseeded⟩ := seedUpFront_spec informativeBars.nodup h
  obtain ⟨hprimary, -, hdeclared⟩ := create_spec hseeded.created
  rw [← hseeded.engine] at hprimary
  unfold enrichSequentially
  rw [hseeded.created]
  refine sequentialRows_ahead primaryBars informativeBars.nodup
    (fun entry hentry => entriesFor_of_mem hentry)
    (fun aliasName hnot => entriesFor_of_not_mem hnot) ?_ ?_ (hseeded.ahead hrepeats.engines)
  · intro entry hentry hquiet engine bar t hcomes hopen
    by_contra hdue
    have hfalls : FallsDue env settings primaryBars entry.2 :=
      ⟨p.primaryEngine, engine, bar, t, hprimary, hcomes, hopen, hdue⟩
    rcases hquiet with hundeclared | hnotLive
    · rw [hseeded.keys] at hundeclared
      exact hundeclared (hdeclared _ (hrepeats.declared entry hentry hfalls))
    · rw [entriesFor_of_mem hentry] at hnotLive
      exact hnotLive hfalls
  · exact fun engine bar e e' => hrepeats.primary _ engine bar e e' hprimary

/-! ## §4 Where the run fails -/

/-- An alias that is not declared and raises nothing has no bar that is due. -/
theorem dormant_of_dueOutcome {info : OrderedDict String InfoState} {t : Timestamp}
    {entry : String × List StreamBar} (hnone : info.get entry.1 = none)
    (h : dueOutcome env settings info t entry = .ok ()) : Dormant env t entry.2 := by
  obtain ⟨state, hfed, hnext⟩ := bind_eq_ok.mp h
  have hdue : dueAt env t entry.2 = [] := by
    by_contra hsome
    rw [hnone, feedAlias, if_neg hsome] at hfed
    cases hfed
  intro bar hbar
  obtain ⟨bars, hbars⟩ : ∃ bars, entry.2 = bar :: bars :=
    ⟨entry.2.tail, (List.cons_head?_tail hbar).symm⟩
  rw [hbars] at hdue hnext
  have hnot : ¬ opensBy env t bar = true := by
    intro hopens
    rw [dueAt, List.takeWhile_cons_of_pos hopens] at hdue
    cases hdue
  rw [leftAt, List.dropWhile_cons_of_neg hnot] at hnext
  cases hopen : barOpenTs env bar with
  | error e => simp [nextOpens, hopen, Except.map] at hnext
  | ok openTs =>
      rw [opensBy_of_open hopen, decide_eq_true_eq] at hnot
      exact ⟨openTs, rfl, not_le.mp hnot⟩

/-- A dormant alias raises nothing. -/
theorem dueOutcome_of_dormant {info : OrderedDict String InfoState} {t : Timestamp}
    {entry : String × List StreamBar} (h : Dormant env t entry.2) :
    dueOutcome env settings info t entry = .ok () := by
  have hnothing : dueAt env t entry.2 = [] := by
    rw [← h.leftAt_eq]
    exact (leftAt_of_ge le_rfl entry.2).1
  have hnext : nextOpens env entry.2 = .ok () := by
    cases hbars : entry.2 with
    | nil => rfl
    | cons bar bars =>
        obtain ⟨openTs, hopen, -⟩ := h bar (by rw [hbars]; rfl)
        simp only [nextOpens, hopen, Except.map]
  unfold dueOutcome
  rw [hnothing, feedAlias_nil, h.leftAt_eq, hnext]
  rfl

/-- A live alias raises nothing. -/
theorem dueOutcome_of_seeded {s : Enricher} {aliasName : String} {live : Prop}
    {bars : List StreamBar} {sInfo pInfo : InfoState} (hlive : live)
    (hget : s.info.get aliasName = some sInfo)
    (h : Seeded env settings aliasName live bars sInfo pInfo) (t : Timestamp) :
    dueOutcome env settings s.info t (aliasName, bars) = .ok () := by
  obtain ⟨enricher, sInfo', hfeed, -⟩ := feedDue_ahead (t := t) hlive hget h
  obtain ⟨state, hstate, -⟩ := (feedDue_alike t aliasName bars s).of_eq_ok hfeed
  obtain ⟨state', hfed, hstate⟩ := bind_eq_ok.mp hstate
  obtain ⟨⟨⟩, hnext, -⟩ := bind_eq_ok.mp hstate
  unfold dueOutcome
  rw [hfed]
  exact hnext

theorem primaryStep_of_dueStep {info : OrderedDict String InfoState}
    {items : List (String × List StreamBar)} {engine next : Engine} {bar : StreamBar}
    (h : dueStep env settings info items engine bar = .ok next) :
    primaryStep env settings engine bar = .ok next := by
  obtain ⟨t, hopen, h⟩ := bind_eq_ok.mp h
  obtain ⟨⟨⟩, -, h⟩ := bind_eq_ok.mp h
  obtain ⟨result, hrow, hpure⟩ := bind_eq_ok.mp h
  simp only [primaryStep, hrow, hopen, bind, Except.bind]
  exact hpure

/-- A bar that returns leaves every alias that is not declared dormant. -/
theorem dormant_of_dueStep {info : OrderedDict String InfoState}
    {items : List (String × List StreamBar)} {engine next : Engine} {bar : StreamBar}
    {t : Timestamp} (h : dueStep env settings info items engine bar = .ok next)
    (hopen : barOpenTs env bar = .ok t) {entry : String × List StreamBar}
    (hentry : entry ∈ items) (hnone : info.get entry.1 = none) : Dormant env t entry.2 := by
  obtain ⟨t', hopen', h⟩ := bind_eq_ok.mp h
  obtain rfl : t = t' := Except.ok.inj (hopen.symm.trans hopen')
  obtain ⟨_, hall, -⟩ := bind_eq_ok.mp h
  exact dormant_of_dueOutcome hnone (eq_ok_of_forM hall entry hentry)

/-- Rows that are computed up front have the timestamps of their bars. -/
theorem opens_of_seedUpFront {p : Enricher}
    (h : seedUpFront env settings informativeBars.items = .ok p)
    {entry : String × List StreamBar} (hentry : entry ∈ informativeBars.items) :
    ∃ opens, entry.2.mapM (barOpenTs env) = .ok opens := by
  obtain ⟨enriched, henriched, -⟩ := bind_eq_ok.mp h
  have hrows := (entriesFor_enrichInfo henriched).2 entry.1
    (List.mem_map.mpr ⟨entry, hentry, rfl⟩)
  rw [entriesFor_of_mem hentry] at hrows
  obtain ⟨engine, -, hrows⟩ := bind_eq_ok.mp hrows
  exact ⟨_, opens_of_enrichRows hrows⟩

/-- At a primary bar that the run comes to, an alias raises nothing; or it is
not declared, and raises that. -/
theorem dueOutcome_cases {s p : Enricher} {engine : Engine} {bar : StreamBar} {t : Timestamp}
    (h : seedUpFront env settings informativeBars.items = .ok p)
    (hseeded : SeededWith env settings informativeBars.items s p)
    (hengines : SameEngines env settings primaryBars informativeBars.items)
    (hcomes : Comes env settings s.primaryEngine primaryBars engine bar)
    (hopen : barOpenTs env bar = .ok t) {entry : String × List StreamBar}
    (hentry : entry ∈ informativeBars.items) :
    dueOutcome env settings s.info t entry = .ok () ∨
      dueOutcome env settings s.info t entry = .error (.keyError entry.1) ∧
        FallsDue env settings primaryBars entry.2 ∧ ¬ Declared settings entry.1 := by
  obtain ⟨hprimary, -, hdeclared⟩ := create_spec hseeded.created
  by_cases hdormant : Dormant env t entry.2
  · exact .inl (dueOutcome_of_dormant hdormant)
  have hdue : FallsDue env settings primaryBars entry.2 :=
    ⟨s.primaryEngine, engine, bar, t, hprimary, hcomes, hopen, hdormant⟩
  cases hs : s.info.get entry.1 with
  | some sInfo =>
      obtain ⟨pInfo, hp⟩ := OrderedDict.mem_keys.mp
        (hseeded.keys ▸ OrderedDict.mem_keys.mpr ⟨sInfo, hs⟩ : entry.1 ∈ p.info.keys)
      have hlives := (hseeded.ahead hengines).seeded entry.1 sInfo pInfo hs hp
      simp only [entriesFor_of_mem hentry] at hlives
      exact .inl (dueOutcome_of_seeded hdue hs hlives t)
  | none =>
      refine .inr ⟨?_, hdue, fun hdeclares => ?_⟩
      · obtain ⟨opens, hopens⟩ := opens_of_seedUpFront h hentry
        have hsome : dueAt env t entry.2 ≠ [] := by
          intro hnothing
          refine hdormant fun first hfirst => ?_
          obtain ⟨bars, hbars⟩ : ∃ bars, entry.2 = first :: bars :=
            ⟨entry.2.tail, (List.cons_head?_tail hfirst).symm⟩
          rw [hbars, List.mapM_cons] at hopens
          obtain ⟨openTs, hfirstOpen, -⟩ := bind_eq_ok.mp hopens
          refine ⟨openTs, hfirstOpen, not_le.mp fun hle => ?_⟩
          rw [hbars, dueAt, List.takeWhile_cons_of_pos
            ((opensBy_of_open hfirstOpen t).trans (decide_eq_true hle))] at hnothing
          cases hnothing
        unfold dueOutcome
        rw [hs, feedAlias, if_neg hsome]
        rfl
      · obtain ⟨state, hstate⟩ := OrderedDict.mem_keys.mp (hdeclared _ hdeclares)
        rw [hs] at hstate
        cases hstate

/-- What a primary bar that the run comes to raises: its timestamp, an alias
that is not declared, or its own row. -/
theorem dueStep_cases {s p : Enricher} {engine : Engine} {bar : StreamBar} {e : PyError}
    (h : seedUpFront env settings informativeBars.items = .ok p)
    (hseeded : SeededWith env settings informativeBars.items s p)
    (hengines : SameEngines env settings primaryBars informativeBars.items)
    (hcomes : Comes env settings s.primaryEngine primaryBars engine bar)
    (hraises : dueStep env settings s.info informativeBars.items engine bar = .error e) :
    barOpenTs env bar = .error e ∨
      (∃ entry ∈ informativeBars.items, e = .keyError entry.1 ∧
        FallsDue env settings primaryBars entry.2 ∧ ¬ Declared settings entry.1) ∨
      ∃ t, barOpenTs env bar = .ok t ∧
        (∀ entry ∈ informativeBars.items,
          dueOutcome env settings s.info t entry = .ok ()) ∧
        enrichBar env engine settings.primaryIndicators bar = .error e := by
  unfold dueStep at hraises
  cases hopen : barOpenTs env bar with
  | error e' =>
      rw [hopen] at hraises
      cases hraises
      exact .inl rfl
  | ok t =>
      rw [hopen] at hraises
      cases hall : informativeBars.items.forM (dueOutcome env settings s.info t) with
      | error e' =>
          simp only [hall, bind, Except.bind] at hraises
          cases hraises
          obtain ⟨entry, hentry, hfault⟩ := exists_error_of_forM hall
          rcases dueOutcome_cases h hseeded hengines hcomes hopen hentry with
            hok | ⟨hkey, hdue, hundeclared⟩
          · rw [hok] at hfault
            cases hfault
          · rw [hkey] at hfault
            cases hfault
            exact .inr (.inl ⟨entry, hentry, rfl, hdue, hundeclared⟩)
      | ok u =>
          refine .inr (.inr ⟨t, rfl, eq_ok_of_forM hall, ?_⟩)
          simp only [hall, bind, Except.bind] at hraises
          cases hrow : enrichBar env engine settings.primaryIndicators bar with
          | error e' =>
              rw [hrow] at hraises
              cases hraises
              rfl
          | ok result =>
              rw [hrow] at hraises
              cases hraises

/-- **Of two places where the run fails**, `bar` by itself and `bar'` with the
bars that are due by then, the one with an alias that is not declared apart,
`bar'` is no earlier. -/
theorem fault_not_before {s p : Enricher} {before after before' after' : List StreamBar}
    {bar bar' : StreamBar} {engine engine' : Engine} {e : PyError}
    (h : seedUpFront env settings informativeBars.items = .ok p)
    (hseeded : SeededWith env settings informativeBars.items s p)
    (hengines : SameEngines env settings primaryBars informativeBars.items)
    (hsplit : primaryBars = before ++ bar :: after)
    (hbefore : before.foldlM (primaryStep env settings) s.primaryEngine = .ok engine)
    (hsplit' : primaryBars = before' ++ bar' :: after')
    (hbefore' : before'.foldlM (dueStep env settings s.info informativeBars.items)
      s.primaryEngine = .ok engine')
    (hraises : dueStep env settings s.info informativeBars.items engine' bar' = .error e)
    (hdeclared : ∀ entry ∈ informativeBars.items, FallsDue env settings primaryBars entry.2 →
      ¬ Declared settings entry.1 → e ≠ .keyError entry.1) :
    (∃ next, ∃ reached, dueStep env settings s.info informativeBars.items reached bar
        = .ok next) ∨
      bar' = bar ∧ engine' = engine := by
  have hown' : before'.foldlM (primaryStep env settings) s.primaryEngine = .ok engine' :=
    foldlM_eq_ok_of_step (fun _ _ _ => primaryStep_of_dueStep) hbefore'
  rcases split_cases (hsplit.symm.trans hsplit') with
    ⟨rest, rfl⟩ | ⟨rfl, rfl⟩ | ⟨rest, rfl⟩
  · obtain ⟨reached, next, -, hstep⟩ := exists_of_foldlM_append hbefore'
    exact .inl ⟨next, reached, hstep⟩
  · exact .inr ⟨rfl, Except.ok.inj (hown'.symm.trans hbefore)⟩
  · exfalso
    obtain ⟨reached, next, hreached, hstep⟩ := exists_of_foldlM_append hbefore
    obtain rfl := Except.ok.inj (hown'.symm.trans hreached)
    obtain ⟨result, hrow, hrest⟩ := bind_eq_ok.mp hstep
    obtain ⟨t, hopen, -⟩ := bind_eq_ok.mp hrest
    rcases dueStep_cases h hseeded hengines ⟨before', after', hsplit', hown'⟩ hraises with
      hopen' | ⟨entry, hentry, hkey, hdue, hundeclared⟩ | ⟨_, -, -, hrow'⟩
    · rw [hopen] at hopen'
      cases hopen'
    · exact hdeclared entry hentry hdue hundeclared hkey
    · rw [hrow] at hrow'
      cases hrow'

theorem updatePrimary_alike (p : Enricher) (bar : StreamBar) :
    Alike (p.updatePrimary env settings bar) (primaryStep env settings p.primaryEngine bar)
      fun r engine => r.1.primaryEngine = engine := by
  unfold Enricher.updatePrimary primaryStep
  refine (Alike.refl (enrichBar env p.primaryEngine settings.primaryIndicators bar)).bind ?_
  rintro result _ rfl
  refine (Alike.refl (barOpenTs env bar)).bind ?_
  rintro t _ rfl
  exact .returns rfl rfl rfl

/-- The loop of the parallel mode raises what its primary bars raise by
themselves. -/
theorem primaryRows_alike (p : Enricher) (bars : List StreamBar) :
    Alike (primaryRows env settings p bars)
      (bars.foldlM (primaryStep env settings) p.primaryEngine) fun _ _ => True := by
  induction bars generalizing p with
  | nil => exact .returns rfl rfl trivial
  | cons bar bars ih =>
      unfold primaryRows
      rw [List.foldlM_cons]
      refine (updatePrimary_alike p bar).bind ?_
      rintro ⟨p', enriched⟩ _ rfl
      show Alike (primaryRows env settings p' bars >>= fun rows =>
        pure (enriched.values :: rows)) _ _
      cases ih p' with
      | raises hx hy =>
          rw [hx]
          exact .raises rfl hy
      | returns hx hy =>
          rw [hx]
          exact .returns rfl hy trivial

/-! ## §5 The two modes -/

/-- Rows that are computed up front leave the primary bars' own faults. -/
theorem primaryRows_error_iff {s p : Enricher}
    (hseeded : SeededWith env settings informativeBars.items s p) {e : PyError} :
    primaryRows env settings p primaryBars = .error e ↔
      PrimaryFault env settings primaryBars e := by
  obtain ⟨hprimary, -, -⟩ := create_spec hseeded.created
  rw [(primaryRows_alike p primaryBars).error_iff, foldlM_eq_error_iff, hseeded.engine]
  constructor
  · rintro ⟨before, bar, after, engine, hsplit, hbefore, hraises⟩
    exact ⟨s.primaryEngine, engine, bar, hprimary, ⟨before, after, hsplit, hbefore⟩, hraises⟩
  · rintro ⟨start, engine, bar, hnew, ⟨before, after, hsplit, hbefore⟩, hraises⟩
    obtain rfl := Except.ok.inj (hprimary.symm.trans hnew)
    exact ⟨before, bar, after, engine, hsplit, hbefore, hraises⟩

section Necessary

variable {p : Enricher} (h : seedUpFront env settings informativeBars.items = .ok p)
  (hengines : SameEngines env settings primaryBars informativeBars.items)
  (hagree : enrichSequentially env settings primaryBars informativeBars
    = primaryRows env settings p primaryBars)

include h hengines hagree

/-- Modes that agree, on anything but the `KeyError` of an alias that is not
declared, do so because every alias whose bars fall due is declared. -/
theorem allDeclared_of_agree
    (hkey : ∀ entry ∈ informativeBars.items, ¬ Declared settings entry.1 →
      ¬ PrimaryFault env settings primaryBars (.keyError entry.1)) :
    AllDeclared env settings primaryBars informativeBars.items := by
  obtain ⟨s, hseeded⟩ := seedUpFront_spec informativeBars.nodup h
  obtain ⟨hprimary, hfrom, -⟩ := create_spec hseeded.created
  have halike := @enrichSequentially_alike _ _ primaryBars informativeBars _ hseeded.created
  intro entry hentry hdue
  by_contra hundeclared
  obtain ⟨start, engine, bar, t, hnew, ⟨before, after, hsplit, hbefore⟩, hopen, hnot⟩ := hdue
  obtain rfl := Except.ok.inj (hprimary.symm.trans hnew)
  have hnone : s.info.get entry.1 = none := by
    by_contra hsome
    obtain ⟨state, hstate⟩ := Option.ne_none_iff_exists'.mp hsome
    obtain ⟨item, hitem, hname, -⟩ := hfrom entry.1 state hstate
    exact hundeclared ⟨item, hitem, hname⟩
  cases hrun : primaryBars.foldlM (dueStep env settings s.info informativeBars.items)
      s.primaryEngine with
  | ok last =>
      rw [hsplit] at hrun
      obtain ⟨_, _, -, hstep⟩ := exists_of_foldlM_append hrun
      exact hnot (dormant_of_dueStep hstep hopen hentry hnone)
  | error e =>
      have hfails : PrimaryFault env settings primaryBars e := by
        rw [← primaryRows_error_iff hseeded, ← hagree]
        exact halike.error_iff.mpr hrun
      obtain ⟨before', bar', after', engine', hsplit', hbefore', hraises⟩ :=
        foldlM_eq_error_iff.mp hrun
      rcases fault_not_before h hseeded hengines hsplit hbefore hsplit' hbefore' hraises
          (fun other hother _ hnotDeclared heq =>
            hkey other hother hnotDeclared (heq ▸ hfails)) with
        ⟨_, _, hstep⟩ | ⟨rfl, rfl⟩
      · exact hnot (dormant_of_dueStep hstep hopen hentry hnone)
      · rcases dueStep_cases h hseeded hengines ⟨before, after, hsplit, hbefore⟩ hraises with
          hopen' | ⟨other, hother, rfl, -, hnotDeclared⟩ | ⟨t', hopen', hall, -⟩
        · rw [hopen] at hopen'
          cases hopen'
        · exact hkey other hother hnotDeclared hfails
        · obtain rfl := Except.ok.inj (hopen.symm.trans hopen')
          exact hnot (dormant_of_dueOutcome hnone (hall entry hentry))

/-- Modes that agree, with every alias declared whose bars fall due, do so
because the primary bars fail one way. -/
theorem failsOneWay_of_agree
    (hdeclared : AllDeclared env settings primaryBars informativeBars.items) :
    FailsOneWay env settings primaryBars := by
  obtain ⟨s, hseeded⟩ := seedUpFront_spec informativeBars.nodup h
  obtain ⟨hprimary, -, -⟩ := create_spec hseeded.created
  intro start engine bar e e' hnew ⟨before, after, hsplit, hbefore⟩ hopen hrow
  obtain rfl := Except.ok.inj (hprimary.symm.trans hnew)
  have hfails : primaryRows env settings p primaryBars = .error e' := by
    refine (primaryRows_error_iff hseeded).mpr
      ⟨_, engine, bar, hprimary, ⟨before, after, hsplit, hbefore⟩, ?_⟩
    simp only [primaryStep, hrow, bind, Except.bind]
  rw [← hagree, (enrichSequentially_alike hseeded.created).error_iff] at hfails
  obtain ⟨before', bar', after', engine', hsplit', hbefore', hraises⟩ :=
    foldlM_eq_error_iff.mp hfails
  rcases fault_not_before h hseeded hengines hsplit hbefore hsplit' hbefore' hraises
      (fun other hother hdue hnotDeclared => absurd (hdeclared other hother hdue) hnotDeclared)
    with ⟨_, _, hstep⟩ | ⟨rfl, rfl⟩
  · obtain ⟨t, hopen', -⟩ := bind_eq_ok.mp hstep
    rw [hopen] at hopen'
    cases hopen'
  · simp only [dueStep, hopen, bind, Except.bind, Except.error.injEq] at hraises
    exact hraises

end Necessary

/-- The modes return the same rows, or the same error. -/
def ModesAgree (env : Environment) (settings : EnricherSettings)
    (primaryBars : List StreamBar) (informativeBars : OrderedDict String (List StreamBar)) :
    Prop :=
  causalEnrichBars env settings true primaryBars informativeBars
    = causalEnrichBars env settings false primaryBars informativeBars

theorem modesAgree_iff (hbars : informativeBars.items ≠ []) :
    ModesAgree env settings primaryBars informativeBars ↔
      (seedUpFront env settings informativeBars.items >>= fun p =>
          primaryRows env settings p primaryBars)
        = enrichSequentially env settings primaryBars informativeBars := by
  unfold ModesAgree causalEnrichBars
  rw [if_pos ⟨hbars, rfl⟩, if_neg fun hmode => Bool.false_ne_true hmode.2, enrichInParallel_eq]

/-- With a fault up front the modes agree on an error. -/
theorem modesAgree_iff_of_fault (hbars : informativeBars.items ≠ []) {e : PyError}
    (hfault : FirstFrontFault env settings informativeBars.items e) :
    ModesAgree env settings primaryBars informativeBars ↔
      FirstDueFault env settings primaryBars informativeBars.items e := by
  rw [modesAgree_iff hbars, seedUpFront_error_iff.mpr hfault, ← enrichSequentially_error_iff,
    eq_comm]
  rfl

/-- Without a fault up front the primary bars come after seeding. -/
theorem exists_seedUpFront
    (hnone : ∀ e, ¬ FirstFrontFault env settings informativeBars.items e) :
    ∃ p, seedUpFront env settings informativeBars.items = .ok p := by
  cases hfront : seedUpFront env settings informativeBars.items with
  | error e => exact absurd (seedUpFront_error_iff.mp hfront) (hnone e)
  | ok p => exact ⟨p, rfl⟩

theorem modesAgree_iff_of_seeded (hbars : informativeBars.items ≠ []) {p : Enricher}
    (hfront : seedUpFront env settings informativeBars.items = .ok p) :
    ModesAgree env settings primaryBars informativeBars ↔
      enrichSequentially env settings primaryBars informativeBars
        = primaryRows env settings p primaryBars := by
  rw [modesAgree_iff hbars, hfront, eq_comm]
  rfl

/-- No timeframes and no indicators. -/
def plainSettings : EnricherSettings where
  timeframes := none
  primaryIndicators := []
  informativeIndicators := {}

end Finbar.Enrichment
