/-
Finbar.Parser.ParseTheorems — what holds of a definition that is parsed
without errors.

No `sorry`, no `axiom`.
-/
import Finbar.Parser.Definition

namespace Finbar.Parser

open Lib Lib.Python Finbar.Evaluation Checked

variable {env : ParserEnvironment}

/-! ## §1 Parameters -/

/-- Parameter values have no parts. -/
def ScalarParams (params : ResolvedParams) : Prop :=
  params.Forall fun value => value.isScalar = true

/-- A value of a declared type has no parts. -/
theorem isScalar_of_valueMatchesType {value : Json} {type : ParameterType}
    (h : valueMatchesType value type = true) : value.isScalar = true := by
  cases value with
  | list items => cases type <;> simp [valueMatchesType, Json.isBool, Json.isInt,
      Json.isNumber, Json.isStr] at h
  | dict entries => cases type <;> simp [valueMatchesType, Json.isBool, Json.isInt,
      Json.isNumber, Json.isStr] at h
  | _ => rfl

/-- What a declared parameter satisfies when it is parsed without errors. -/
structure ParsedParameter (path : String) (param : StrategyParameter) : Prop where
  default : valueMatchesType param.default param.type = true
  bounds : boundsInvalid path param.minimum param.maximum = pure false
  range : validateRange (path ++ ".default") param.default param.minimum param.maximum =
    pure ()

theorem parsedParameter {name : String} {raw : Json} {param : StrategyParameter}
    (h : parseParameter env name raw = pure (some param)) :
    ParsedParameter ("$.parameters." ++ name) param := by
  cases raw with
  | dict spec =>
      rw [parseParameter] at h
      cases htype : parameterTypeOf (lower (env.textOf spec "type" "")) with
      | none =>
          simp only [htype] at h
          exact absurd h report_bind_ne_pure
      | some type =>
          simp only [htype] at h
          split_ifs at h with hmatches
          · obtain ⟨minimum, -, h⟩ := bind_eq_pure.mp h
            obtain ⟨maximum, -, h⟩ := bind_eq_pure.mp h
            obtain ⟨invalid, hbounds, h⟩ := bind_eq_pure.mp h
            cases invalid with
            | true => cases pure_eq_pure.mp h
            | false =>
                obtain ⟨_, hrange, h⟩ := bind_eq_pure.mp h
                obtain rfl := Option.some.inj (pure_eq_pure.mp h)
                exact ⟨hmatches, hbounds, hrange⟩
          · exact absurd h report_bind_ne_pure
  | _ => exact absurd h report_bind_ne_pure

/-- The parsed parameters, each under its name. -/
theorem parseParameters_eq {raw : Json} {params : Parameters}
    (h : parseParameters env raw = pure params) :
    ∀ entry ∈ params.items, ParsedParameter ("$.parameters." ++ entry.1) entry.2 := by
  cases raw with
  | dict entries =>
      refine foldlM_induction (motive := fun params : Parameters => ∀ entry ∈ params.items,
        ParsedParameter ("$.parameters." ++ entry.1) entry.2) h (by simp) ?_
      intro state entry next _ hstate hnext
      obtain ⟨param, hparam, hnext⟩ := bind_eq_pure.mp hnext
      cases param with
      | none =>
          obtain rfl := pure_eq_pure.mp hnext
          exact hstate
      | some param =>
          obtain rfl := pure_eq_pure.mp hnext
          rintro ⟨name, found⟩ hfound
          rw [OrderedDict.mem_items, OrderedDict.get_assign] at hfound
          split_ifs at hfound with hname
          · obtain rfl := Option.some.inj hfound
            exact hname ▸ parsedParameter hparam
          · exact hstate (name, found) (OrderedDict.mem_items.mpr hfound)
  | _ => exact absurd h report_bind_ne_pure

/-- The defaults of declared parameters have no parts. -/
theorem parseParameters_scalar {raw : Json} {params : Parameters}
    (h : parseParameters env raw = pure params) :
    params.Forall fun param => param.default.isScalar = true := by
  cases raw with
  | dict entries =>
      refine foldlM_induction h OrderedDict.forall_empty ?_
      intro state entry next _ hstate hnext
      obtain ⟨param, hparam, hnext⟩ := bind_eq_pure.mp hnext
      cases param with
      | none =>
          obtain rfl := pure_eq_pure.mp hnext
          exact hstate
      | some param =>
          obtain rfl := pure_eq_pure.mp hnext
          exact hstate.assign (isScalar_of_valueMatchesType (parsedParameter hparam).default) _
  | _ => exact absurd h report_bind_ne_pure

/-- **Resolved parameters have no parts**, whatever the overrides. -/
theorem applyOverrides_scalar {params : Parameters} {overrides : List (String × Json)}
    {resolved : ResolvedParams}
    (hparams : params.Forall fun param => param.default.isScalar = true)
    (h : applyOverrides params overrides = pure resolved) : ScalarParams resolved := by
  refine foldlM_induction h ?_ ?_
  · refine OrderedDict.Forall.assignAll (fun entry hentry => ?_) OrderedDict.forall_empty
    obtain ⟨param, hparam, rfl⟩ := List.mem_map.mp hentry
    exact hparams.of_mem hparam
  · intro state entry next _ hstate hnext
    unfold applyOverride at hnext
    cases hget : params.get entry.1 with
    | none =>
        simp only [hget] at hnext
        exact absurd hnext report_bind_ne_pure
    | some param =>
        simp only [hget] at hnext
        split_ifs at hnext with hmatches hrange
        · obtain rfl := congrArg Checked.value hnext
          exact hstate.assign (isScalar_of_valueMatchesType hmatches) _
        · obtain rfl := congrArg Checked.value hnext
          exact hstate
        · exact absurd hnext report_bind_ne_pure

/-! ## §2 Timeframes -/

theorem validateInterval_eq {path interval : String} {valid : Bool} :
    validateInterval path interval = pure valid ↔
      interval ≠ "" ∧ interval ∈ intervals ∧ valid = true := by
  unfold validateInterval
  constructor
  · intro h
    split_ifs at h with hempty hknown
    · exact absurd h report_bind_ne_pure
    · exact ⟨hempty, hknown, (pure_eq_pure.mp h).symm⟩
    · exact absurd h report_bind_ne_pure
  · rintro ⟨hempty, hknown, rfl⟩
    rw [if_neg hempty, if_pos hknown]

/-- An informative timeframe that is parsed without errors, after the others. -/
structure ParsedInformative (before : List InformativeTimeframe) (item : InformativeTimeframe) :
    Prop where
  aliasStripped : stripped item.aliasName = item.aliasName
  intervalStripped : stripped item.interval = item.interval
  named : item.aliasName ≠ ""
  free : ¬(item.aliasName = "primary" ∨
    item.aliasName ∈ before.map InformativeTimeframe.aliasName ∨ item.aliasName ∈ ohlcvFields)
  distinct : (item.interval, item.symbol) ∉ before.map fun item => (item.interval, item.symbol)
  known : item.interval ≠ "" ∧ item.interval ∈ intervals

theorem parsedInformative {path : String} {before : List InformativeTimeframe} {raw : Json}
    {item : InformativeTimeframe}
    (h : parseOneInformative env path before raw = pure (some item)) :
    ParsedInformative before item := by
  cases raw with
  | dict entries =>
      unfold parseOneInformative at h
      dsimp only at h
      split_ifs at h with hnamed hfree hdistinct
      · exact absurd h report_bind_ne_pure
      · exact absurd h report_bind_ne_pure
      · exact absurd h report_bind_ne_pure
      · obtain ⟨valid, hvalid, h⟩ := bind_eq_pure.mp h
        obtain ⟨hnonempty, hknown, rfl⟩ := validateInterval_eq.mp hvalid
        obtain rfl := Option.some.inj (pure_eq_pure.mp h)
        exact ⟨stripped_stripped _, stripped_stripped _, hnamed, hfree, hdistinct,
          hnonempty, hknown⟩
  | _ => exact absurd h report_bind_ne_pure

/-- How the timeframes are parsed without errors. -/
structure ParsedTimeframes (timeframes : TimeframeDeclaration) : Prop where
  stripped : stripped timeframes.primary = timeframes.primary
  primary : timeframes.primary ≠ "" ∧ timeframes.primary ∈ intervals
  few : timeframes.informative.length ≤ maxInformativeTimeframes
  informative : ∀ before item after, timeframes.informative = before ++ item :: after →
    ParsedInformative before item

theorem addInformative_eq : addInformative env = appendFound fun items entry =>
    parseOneInformative env (indexed "$.timeframes.informative" entry.2) items entry.1 := by
  funext items entry
  unfold addInformative appendFound
  congr 1
  funext found
  cases found <;> rfl

theorem parseInformative_eq {raw : Json} {informative : List InformativeTimeframe}
    (h : parseInformative env raw = pure informative) :
    informative.length ≤ maxInformativeTimeframes ∧
      ∀ before item after, informative = before ++ item :: after →
        ParsedInformative before item := by
  unfold parseInformative at h
  by_cases hempty : raw.isNullOrEmptyList = true
  · rw [if_pos hempty] at h
    obtain rfl := pure_eq_pure.mp h
    simp
  · rw [if_neg hempty] at h
    cases raw with
    | list items =>
        dsimp only at h
        by_cases hmany : maxInformativeTimeframes < items.length
        · rw [if_pos hmany] at h
          exact absurd h report_bind_ne_pure
        · rw [if_neg hmany, addInformative_eq] at h
          have hlength := foldlM_appendFound_length h
          rw [List.length_nil, Nat.zero_add, List.length_zipIdx] at hlength
          refine ⟨hlength.trans (not_lt.mp hmany), fun before item after hsplit => ?_⟩
          obtain ⟨entry, -, hfind⟩ := foldlM_appendFound h before item after hsplit
          exact parsedInformative hfind
    | _ => exact absurd h report_bind_ne_pure

theorem parseTimeframes_eq {raw : Json} {timeframes : TimeframeDeclaration}
    (h : parseTimeframes env raw = pure (some timeframes)) : ParsedTimeframes timeframes := by
  unfold parseTimeframes at h
  split_ifs at h
  · cases pure_eq_pure.mp h
  · cases raw with
    | dict entries =>
        obtain ⟨valid, hvalid, h⟩ := bind_eq_pure.mp h
        obtain ⟨informative, hinformative, h⟩ := bind_eq_pure.mp h
        obtain rfl := Option.some.inj (pure_eq_pure.mp h)
        obtain ⟨hnonempty, hknown, -⟩ := validateInterval_eq.mp hvalid
        obtain ⟨hfew, hitems⟩ := parseInformative_eq hinformative
        exact ⟨stripped_stripped _, ⟨hnonempty, hknown⟩, hfew, hitems⟩
    | _ => exact absurd h report_bind_ne_pure

/-! ## §3 Indicators -/

/-- How an indicator is parsed without errors. -/
structure ParsedIndicator (env : ParserEnvironment) (params : ResolvedParams)
    (timeframes : Option TimeframeDeclaration) (used : List String)
    (item : IndicatorSpec) (path : String) (entries : List (String × Json))
    (found : List String) (column : String) : Prop where
  name : item.name = stripped (env.textOf entries "name" "")
  type : item.type = stripped (lower (env.textOf entries "type" ""))
  valid : aliasInvalid (path ++ ".name") item.name used = pure false
  period : resolveExpression params (path ++ ".period") (Json.get entries "period") =
    pure item.period
  sources : parseSources env (path ++ ".sources") item.type (Json.get entries "sources") =
    pure found
  concrete : concreteColumn env path item.type item.period (entries.lookup "period").isSome
    found = pure (some column)
  timeframe : resolveTimeframe env (path ++ ".timeframe")
    (Json.getD entries "timeframe" (.str "primary")) timeframes = pure (some item.timeframe)
  spec : item =
    { name := item.name
      type := item.type
      period := item.period
      source := env.textOf entries "source" "close"
      concreteName := found.head?.getD column
      expectedColumn := expectedColumn (found.head?.getD column) item.timeframe timeframes
      timeframe := item.timeframe
      sources := if 1 < found.length then found.tail else found }

theorem parseIndicator_eq {params : ResolvedParams} {timeframes : Option TimeframeDeclaration}
    {path : String} {used : List String} {raw : Json} {item : IndicatorSpec}
    (h : parseIndicator env params timeframes path used raw = pure (some item)) :
    ∃ entries sources concrete, raw = .dict entries ∧
      ParsedIndicator env params timeframes used item path entries sources concrete := by
  cases raw with
  | dict entries =>
      obtain ⟨invalid, hvalid, h⟩ := bind_eq_pure.mp h
      cases invalid with
      | true => cases pure_eq_pure.mp h
      | false =>
          obtain ⟨period, hperiod, h⟩ := bind_eq_pure.mp h
          obtain ⟨sources, hsources, h⟩ := bind_eq_pure.mp h
          obtain ⟨concrete, hconcrete, h⟩ := bind_eq_pure.mp h
          cases concrete with
          | none => cases pure_eq_pure.mp h
          | some concrete =>
              obtain ⟨timeframe, htimeframe, h⟩ := bind_eq_pure.mp h
              cases timeframe with
              | none => cases pure_eq_pure.mp h
              | some timeframe =>
                  obtain rfl := Option.some.inj (pure_eq_pure.mp h)
                  exact ⟨entries, sources, concrete, rfl, rfl, rfl, hvalid, hperiod, hsources,
                    hconcrete, htimeframe, rfl⟩
  | _ => exact absurd h report_bind_ne_pure

/-- The sources of a fallback are named. -/
theorem parseSources_named {path type : String} {raw : Json} {sources : List String}
    (h : parseSources env path type raw = pure sources) : ∀ source ∈ sources, source ≠ "" := by
  unfold parseSources at h
  split_ifs at h with htype hnull
  · exact absurd h report_bind_ne_pure
  · obtain rfl := pure_eq_pure.mp h
    simp
  · cases raw with
    | list items =>
        simp only at h
        split_ifs at h
        · exact absurd h report_bind_ne_pure
        · refine foldlM_induction (motive := fun sources => ∀ source ∈ sources, source ≠ "")
            h (by simp) ?_
          intro state entry next _ hstate hnext
          unfold parseSource at hnext
          split at hnext
          · split_ifs at hnext with hempty hknown
            · exact absurd hnext report_bind_ne_pure
            · exact absurd hnext report_bind_ne_pure
            · obtain rfl := pure_eq_pure.mp hnext
              intro source hsource
              rcases List.mem_append.mp hsource with hmem | hmem
              · exact hstate source hmem
              · exact List.mem_singleton.mp hmem ▸ hempty
          · exact absurd hnext report_bind_ne_pure
    | _ => exact absurd h report_bind_ne_pure

theorem aliasInvalid_eq {path aliasName : String} {used : List String} :
    aliasInvalid path aliasName used = pure false ↔
      aliasName ≠ "" ∧ ¬(aliasName ∈ used ∨ aliasName ∈ ohlcvFields) := by
  unfold aliasInvalid
  constructor
  · intro h
    split_ifs at h with hempty hused
    · exact absurd h report_bind_ne_pure
    · exact absurd h report_bind_ne_pure
    · exact ⟨hempty, hused⟩
  · rintro ⟨hempty, hused⟩
    rw [if_neg hempty, if_neg hused]

theorem periodInvalid_eq {path type : String} {period : Json} {supplied : Bool} :
    periodInvalid env path type period supplied = pure false ↔
      if env.catalog.requiresPeriod type then (period.isInt && !period.isBool) = true
      else (supplied && !period.isNull) = true → env.catalog.acceptsPeriod type = true := by
  unfold periodInvalid
  by_cases hrequires : env.catalog.requiresPeriod type = true
  · rw [if_pos hrequires, if_pos hrequires]
    by_cases hint : (period.isInt && !period.isBool) = true
    · simp [hint]
    · rw [if_neg hint]
      exact ⟨fun h => absurd h report_bind_ne_pure, fun h => absurd h hint⟩
  · rw [if_neg hrequires, if_neg hrequires]
    by_cases hsupplied : (supplied && !period.isNull) = true
    · rw [if_pos hsupplied]
      by_cases haccepts : env.catalog.acceptsPeriod type = true
      · simp [haccepts]
      · rw [if_neg haccepts]
        exact ⟨fun h => absurd h report_bind_ne_pure, fun h => absurd (h hsupplied) haccepts⟩
    · rw [if_neg hsupplied]
      exact ⟨fun _ h => absurd h hsupplied, fun _ => rfl⟩

/-- The column of an indicator that is no fallback. -/
theorem concreteColumn_eq {path type : String} {period : Json} {supplied : Bool}
    {sources : List String} {column : String} (htype : type ≠ "fallback") :
    concreteColumn env path type period supplied sources = pure (some column) ↔
      periodInvalid env (path ++ ".period") type period supplied = pure false ∧
        env.catalog.resolve type period = some column := by
  unfold concreteColumn
  rw [if_neg htype]
  constructor
  · intro h
    obtain ⟨invalid, hinvalid, h⟩ := bind_eq_pure.mp h
    cases invalid with
    | true => cases pure_eq_pure.mp h
    | false =>
        refine ⟨hinvalid, ?_⟩
        cases hresolve : env.catalog.resolve type period with
        | some concrete =>
            simp only [hresolve] at h
            exact pure_eq_pure.mp h
        | none =>
            simp only [hresolve] at h
            exact absurd h report_bind_ne_pure
  · rintro ⟨hinvalid, hresolve⟩
    rw [hinvalid]
    simp [hresolve]

theorem parseSources_eq {path type : String} {raw : Json} {sources : List String}
    (htype : type ≠ "fallback") (h : parseSources env path type raw = pure sources) :
    sources = [] := by
  unfold parseSources at h
  rw [if_pos htype] at h
  split_ifs at h
  · exact absurd h report_bind_ne_pure
  · exact (pure_eq_pure.mp h).symm

theorem resolveTimeframe_eq {path : String} {raw : Json}
    {timeframes : Option TimeframeDeclaration} {timeframe : String} :
    resolveTimeframe env path raw timeframes = pure (some timeframe) ↔
      timeframe = stripped ((raw.orElse (.str "primary")).toStr env.strOf) ∧
        (timeframe = "primary" ∨
          (timeframes.bind fun declared => declared.intervalFor timeframe).isSome) := by
  unfold resolveTimeframe
  dsimp only
  generalize stripped ((raw.orElse (.str "primary")).toStr env.strOf) = text
  by_cases hprimary : text = "primary"
  · rw [if_pos hprimary, pure_eq_pure, Option.some.injEq]
    exact ⟨fun h => ⟨h.symm, .inl (h ▸ hprimary)⟩, fun h => h.1.symm⟩
  · rw [if_neg hprimary]
    cases hinterval : timeframes.bind fun declared => declared.intervalFor text with
    | some interval =>
        dsimp only
        rw [pure_eq_pure, Option.some.injEq]
        constructor
        · rintro rfl
          exact ⟨rfl, .inr (by rw [hinterval]; rfl)⟩
        · exact fun h => h.1.symm
    | none =>
        constructor
        · exact fun h => absurd h report_bind_ne_pure
        · rintro ⟨rfl, h | h⟩
          · exact absurd h hprimary
          · rw [hinterval] at h
            cases h

theorem addIndicator_eq {params : ResolvedParams} {timeframes : Option TimeframeDeclaration} :
    addIndicator env params timeframes = appendFound fun indicators entry =>
      parseIndicator env params timeframes (indexed "$.indicators" entry.2)
        (indicators.map IndicatorSpec.name) entry.1 := by
  funext indicators entry
  unfold addIndicator appendFound
  congr 1
  funext found
  cases found <;> rfl

/-- Every parsed indicator, after those before it. -/
theorem parseIndicators_eq {params : ResolvedParams}
    {timeframes : Option TimeframeDeclaration} {raw : Json} {indicators : List IndicatorSpec}
    (h : parseIndicators env params timeframes raw = pure indicators) :
    ∀ before item after, indicators = before ++ item :: after →
      ∃ path value, parseIndicator env params timeframes path
        (before.map IndicatorSpec.name) value = pure (some item) := by
  cases raw with
  | null =>
      obtain rfl := pure_eq_pure.mp h
      simp
  | list items =>
      rw [parseIndicators, addIndicator_eq] at h
      intro before item after hsplit
      obtain ⟨entry, -, hfind⟩ := foldlM_appendFound h before item after hsplit
      exact ⟨_, _, hfind⟩
  | _ => exact absurd h report_bind_ne_pure
/-- A property of every indicator that is parsed. -/
theorem parseIndicators_forall {params : ResolvedParams}
    {timeframes : Option TimeframeDeclaration} {motive : IndicatorSpec → Prop}
    (hitem : ∀ path used raw item,
      parseIndicator env params timeframes path used raw = pure (some item) → motive item)
    {raw : Json} {indicators : List IndicatorSpec}
    (h : parseIndicators env params timeframes raw = pure indicators) :
    ∀ item ∈ indicators, motive item := by
  intro item hmem
  obtain ⟨before, after, hsplit⟩ := List.append_of_mem hmem
  obtain ⟨path, value, hfound⟩ := parseIndicators_eq h before item after hsplit
  exact hitem path _ value item hfound

/-- The catalog knows no column without a name. -/
structure IndicatorCapabilityProvider.Named (catalog : IndicatorCapabilityProvider) :
    Prop where
  resolve : ∀ type period column, catalog.resolve type period = some column → column ≠ ""
  supportsConcrete : catalog.supportsConcrete "" = false

/-- The column of an indicator has a name. -/
theorem parseIndicator_columnName (hcatalog : env.catalog.Named) {params : ResolvedParams}
    {timeframes : Option TimeframeDeclaration} {path : String} {used : List String}
    {raw : Json} {item : IndicatorSpec}
    (h : parseIndicator env params timeframes path used raw = pure (some item)) :
    item.columnName ≠ "" := by
  obtain ⟨entries, found, column, -, hparsed⟩ := parseIndicator_eq h
  have hconcrete : item.concreteName ≠ "" := by
    have hname := congrArg IndicatorSpec.concreteName hparsed.spec
    simp only at hname
    rw [hname]
    cases hfound : found with
    | cons source rest =>
        exact parseSources_named hparsed.sources source (by simp [hfound])
    | nil =>
        have hcolumn := hparsed.concrete
        unfold concreteColumn at hcolumn
        split_ifs at hcolumn
        · simp only [hfound, List.head?_nil] at hcolumn
          cases pure_eq_pure.mp hcolumn
        · obtain ⟨invalid, -, hcolumn⟩ := bind_eq_pure.mp hcolumn
          split_ifs at hcolumn
          · cases pure_eq_pure.mp hcolumn
          · split at hcolumn
            · rename_i concrete hresolve
              obtain rfl := Option.some.inj (pure_eq_pure.mp hcolumn)
              exact hcatalog.resolve _ _ _ hresolve
            · exact absurd hcolumn report_bind_ne_pure
  unfold IndicatorSpec.columnName
  split_ifs with hexpected
  · exact hconcrete
  · exact hexpected

theorem aliasColumns_named {indicators : List IndicatorSpec}
    (h : ∀ item ∈ indicators, item.columnName ≠ "") :
    (aliasColumns indicators).Forall (· ≠ "") := by
  refine OrderedDict.Forall.assignAll (fun entry hentry => ?_) OrderedDict.forall_empty
  obtain ⟨item, hitem, rfl⟩ := List.mem_map.mp hentry
  exact h item hitem

/-! ## §4 Features -/

/-- A formula keeps its expression with the parameters resolved. -/
theorem parseFormula_eq {params : ResolvedParams} {path name featureType : String}
    {item : List (String × Json)} {feature : FeatureSpec}
    (h : parseFormula params path name featureType item = pure (some feature)) :
    ∃ path expr, feature.rawExpr = some (resolveExprParams params path expr).value := by
  unfold parseFormula at h
  dsimp only at h
  split_ifs at h
  · exact absurd h report_bind_ne_pure
  · obtain ⟨expr, hexpr, h⟩ := bind_eq_pure.mp h
    obtain rfl := Option.some.inj (pure_eq_pure.mp h)
    exact ⟨_, _, by rw [hexpr]; rfl⟩

theorem nameInvalid_eq {path name : String} {used : List String} :
    nameInvalid path name used = pure false ↔
      name ≠ "" ∧ ¬(name ∈ used ∨ name ∈ ohlcvFields) := by
  unfold nameInvalid
  constructor
  · intro h
    split_ifs at h with hempty hused
    · exact absurd h report_bind_ne_pure
    · exact absurd h report_bind_ne_pure
    · exact ⟨hempty, hused⟩
  · rintro ⟨hempty, hused⟩
    rw [if_neg hempty, if_neg hused]

theorem windowInvalid_eq {path featureType : String} {window : Json} :
    windowInvalid path featureType window = pure false ↔
      (featureType ∈ rollingTypes → ∃ n : ℤ, window = .int n ∧ 1 ≤ n) := by
  unfold windowInvalid
  by_cases hrolling : featureType ∈ rollingTypes
  · rw [if_neg (not_not.mpr hrolling)]
    cases window with
    | int n =>
        dsimp only
        by_cases hn : 1 ≤ n
        · rw [if_pos hn]
          exact ⟨fun _ _ => ⟨n, rfl, hn⟩, fun _ => rfl⟩
        · rw [if_neg hn]
          refine ⟨fun h => absurd h report_bind_ne_pure, fun h => ?_⟩
          obtain ⟨m, hm, hpos⟩ := h hrolling
          cases hm
          exact absurd hpos hn
    | _ =>
        refine ⟨fun h => absurd h report_bind_ne_pure, fun h => ?_⟩
        obtain ⟨m, hm, -⟩ := h hrolling
        cases hm
  · rw [if_pos hrolling]
    exact ⟨fun _ h => absurd h hrolling, fun _ => rfl⟩

/-- A feature that is no formula and is parsed without errors. -/
structure ParsedDerived (feature : FeatureSpec) : Prop where
  window : feature.type ∈ rollingTypes → ∃ n : ℤ, feature.window = .int n ∧ 1 ≤ n
  integral : feature.window.isInt = true ∨ feature.window = .null
  shift : 0 ≤ feature.shift
  rawExpr : feature.rawExpr = none

theorem parseDerived_eq {params : ResolvedParams} {aliases : OrderedDict String String}
    {path name featureType : String} {item : List (String × Json)} {feature : FeatureSpec}
    (h : parseDerived env params aliases path name featureType item = pure (some feature)) :
    feature.name = name ∧ feature.type = featureType ∧ ParsedDerived feature := by
  obtain ⟨source, -, h⟩ := bind_eq_pure.mp h
  obtain ⟨window, -, h⟩ := bind_eq_pure.mp h
  obtain ⟨shift, -, h⟩ := bind_eq_pure.mp h
  obtain ⟨invalid, hinvalid, h⟩ := bind_eq_pure.mp h
  cases invalid with
  | true => cases pure_eq_pure.mp h
  | false =>
      cases shift with
      | int shift =>
          simp only [Bool.false_eq_true, if_false] at h
          by_cases hshift : shift < 0
          · rw [if_pos hshift] at h
            exact absurd h report_bind_ne_pure
          · rw [if_neg hshift] at h
            obtain rfl := Option.some.inj (pure_eq_pure.mp h)
            refine ⟨rfl, rfl, fun hrolling => ?_, ?_, not_lt.mp hshift, rfl⟩
            · obtain ⟨n, rfl, hn⟩ := windowInvalid_eq.mp hinvalid hrolling
              exact ⟨n, rfl, hn⟩
            · dsimp only
              split_ifs with hint
              · exact .inl hint
              · exact .inr rfl
      | _ => exact absurd h report_bind_ne_pure

/-- A feature that is parsed without errors. -/
structure ParsedFeature (used : List String) (feature : FeatureSpec) : Prop where
  nameStripped : stripped feature.name = feature.name
  typeLower : stripped (lower feature.type) = feature.type
  valid : feature.name ≠ "" ∧ ¬(feature.name ∈ used ∨ feature.name ∈ ohlcvFields)
  supported : feature.type ∈ supportedTypes
  derived : feature.type ≠ "formula" → ParsedDerived feature

theorem parseFeature_eq {params : ResolvedParams} {aliases : OrderedDict String String}
    {path : String} {used : List String} {raw : Json} {feature : FeatureSpec}
    (h : parseFeature env params aliases path used raw = pure (some feature)) :
    ParsedFeature used feature := by
  cases raw with
  | dict item =>
      obtain ⟨invalid, hinvalid, h⟩ := bind_eq_pure.mp h
      have hlower : ∀ text, stripped (lower (stripped (lower text))) = stripped (lower text) :=
        fun text => by rw [lower_stripped_lower, stripped_stripped]
      split_ifs at h with htrue hsupported hformula
      · cases pure_eq_pure.mp h
      · unfold parseFormula at h
        dsimp only at h
        split_ifs at h
        · exact absurd h report_bind_ne_pure
        · obtain ⟨expr, -, h⟩ := bind_eq_pure.mp h
          obtain rfl := Option.some.inj (pure_eq_pure.mp h)
          obtain rfl : invalid = false := by simpa using htrue
          exact ⟨stripped_stripped _, hlower _, nameInvalid_eq.mp hinvalid, hsupported,
            fun hne => absurd hformula hne⟩
      · obtain ⟨hname, htype, hderived⟩ := parseDerived_eq h
        obtain rfl : invalid = false := by simpa using htrue
        refine ⟨?_, ?_, ?_, ?_, fun _ => hderived⟩
        · rw [hname, stripped_stripped]
        · rw [htype, hlower]
        · rw [hname]
          exact nameInvalid_eq.mp hinvalid
        · rw [htype]
          exact hsupported
      · exact absurd h report_bind_ne_pure
  | _ => exact absurd h report_bind_ne_pure

theorem addFeature_eq {params : ResolvedParams} {aliases : OrderedDict String String} :
    addFeature env params aliases = appendFound fun features entry =>
      parseFeature env params aliases (indexed "$.features" entry.2)
        (aliases.keys ++ features.map FeatureSpec.name) entry.1 := by
  funext features entry
  unfold addFeature appendFound
  congr 1
  funext found
  cases found <;> rfl

/-- Every parsed feature, after those before it. -/
theorem parseFeatures_eq {params : ResolvedParams} {indicators : List IndicatorSpec}
    {raw : Json} {features : List FeatureSpec}
    (h : parseFeatures env params indicators raw = pure features) :
    ∀ before feature after, features = before ++ feature :: after →
      ∃ path value, parseFeature env params (aliasColumns indicators) path
        ((aliasColumns indicators).keys ++ before.map FeatureSpec.name) value =
          pure (some feature) := by
  cases raw with
  | null =>
      obtain rfl := pure_eq_pure.mp h
      simp
  | list items =>
      rw [parseFeatures, addFeature_eq] at h
      intro before feature after hsplit
      obtain ⟨entry, -, hfind⟩ := foldlM_appendFound h before feature after hsplit
      exact ⟨_, _, hfind⟩
  | _ => exact absurd h report_bind_ne_pure
theorem parseFeature_formula {params : ResolvedParams} {aliases : OrderedDict String String}
    {path : String} {used : List String} {raw : Json} {feature : FeatureSpec}
    (h : parseFeature env params aliases path used raw = pure (some feature))
    (htype : feature.type = "formula") :
    ∃ path expr, feature.rawExpr = some (resolveExprParams params path expr).value := by
  cases raw with
  | dict item =>
      obtain ⟨invalid, -, h⟩ := bind_eq_pure.mp h
      split_ifs at h with hinvalid hsupported hformula
      · cases pure_eq_pure.mp h
      · exact parseFormula_eq h
      · exact absurd ((parseDerived_eq h).2.1.symm.trans htype) hformula
      · exact absurd h report_bind_ne_pure
  | _ => exact absurd h report_bind_ne_pure

/-- Formula features hold resolved expressions. -/
theorem parseFeatures_formula {params : ResolvedParams} {indicators : List IndicatorSpec}
    {raw : Json} {features : List FeatureSpec}
    (h : parseFeatures env params indicators raw = pure features) :
    ∀ feature ∈ features, feature.type = "formula" →
      ∃ path expr, feature.rawExpr = some (resolveExprParams params path expr).value := by
  intro feature hmem htype
  obtain ⟨before, after, hsplit⟩ := List.append_of_mem hmem
  obtain ⟨path, value, hfeature⟩ := parseFeatures_eq h before feature after hsplit
  exact parseFeature_formula hfeature htype

/-! ## §5 Risk settings -/

/-- The column of an ATR setting has a name. -/
theorem resolveAtrIndicator_named (hcatalog : env.catalog.Named)
    {aliases : OrderedDict String String} (haliases : aliases.Forall (· ≠ ""))
    {path name column : String}
    (h : resolveAtrIndicator env true path name aliases = pure column) : column ≠ "" := by
  unfold resolveAtrIndicator at h
  simp only [Bool.not_true, Bool.false_eq_true, if_false] at h
  split at h
  · rename_i found hget
    exact pure_eq_pure.mp h ▸ haliases name found hget
  · split at h
    · rename_i found hfound
      obtain rfl := pure_eq_pure.mp h
      split_ifs at hfound
      obtain ⟨entry, hentry, rfl⟩ := Option.map_eq_some_iff.mp hfound
      exact haliases.of_mem (List.mem_of_find?_eq_some hentry)
    · split_ifs at h with hsupports
      · rintro rfl
        rw [pure_eq_pure.mp h, hcatalog.supportsConcrete] at hsupports
        cases hsupports
      · exact absurd h report_bind_ne_pure

/-- A number of the risk settings is not negative. -/
theorem riskNumber_eq {params : ResolvedParams} {section_ : List (String × Json)}
    {path key : String} {value : PyFloat}
    (h : riskNumber params section_ path key = pure value) : value.lt (.fin 0) = false := by
  obtain ⟨raw, -, h⟩ := bind_eq_pure.mp h
  unfold positiveFloat at h
  split_ifs at h
  · obtain rfl := pure_eq_pure.mp h
    decide +kernel
  · cases hfloat : raw.toFloat with
    | none =>
        simp only [hfloat] at h
        exact absurd h report_bind_ne_pure
    | some found =>
        simp only [hfloat] at h
        split_ifs at h with hnegative
        · exact absurd h report_bind_ne_pure
        · obtain rfl := pure_eq_pure.mp h
          simpa using hnegative

theorem requirePositive_eq {applies : Bool} {value : PyFloat} {path : String} :
    requirePositive applies value path = pure () ↔
      (applies && value.le (.fin 0)) = false := by
  unfold requirePositive
  constructor
  · intro h
    split_ifs at h with hpositive
    · exact absurd h report_ne_pure
    · simpa using hpositive
  · intro h
    rw [if_neg (by simp [h])]

/-- How risk settings are parsed without errors. -/
structure ParsedRisk (env : ParserEnvironment) (params : ResolvedParams)
    (aliases : OrderedDict String String) (stop target : List (String × Json))
    (spec : RiskSpec) : Prop where
  types : validateTypes (lower (env.textOf stop "type" "none"))
    (lower (env.textOf target "type" "none")) = pure (spec.stopLossType, spec.takeProfitType)
  stopIndicator : resolveAtrIndicator env (spec.stopLossType = .atr)
    "$.risk.stop_loss.indicator" (env.textOf stop "indicator" "atr") aliases =
      pure spec.stopIndicator
  stopMultiplier : riskNumber params stop "$.risk.stop_loss" "multiplier" =
    pure spec.stopMultiplier
  takeProfitIndicator : resolveAtrIndicator env (spec.takeProfitType = .atr)
    "$.risk.take_profit.indicator" (env.textOf target "indicator" "atr") aliases =
      pure spec.takeProfitIndicator
  takeProfitMultiplier : riskNumber params target "$.risk.take_profit" "multiplier" =
    pure spec.takeProfitMultiplier
  required : validateRequiredValues spec = pure ()

theorem parseRisk_eq {params : ResolvedParams} {indicators : List IndicatorSpec} {raw : Json}
    {spec : RiskSpec} (h : parseRisk env params indicators raw = pure (some spec)) :
    ∃ stop target, ParsedRisk env params (aliasColumns indicators) stop target spec := by
  unfold parseRisk at h
  split_ifs at h
  · cases pure_eq_pure.mp h
  · cases raw with
    | dict entries =>
        obtain ⟨stop, -, h⟩ := bind_eq_pure.mp h
        obtain ⟨target, -, h⟩ := bind_eq_pure.mp h
        cases stop with
        | none => cases pure_eq_pure.mp h
        | some stop =>
            cases target with
            | none => cases pure_eq_pure.mp h
            | some target =>
                obtain ⟨found, hfound, h⟩ := bind_eq_pure.mp h
                obtain ⟨_, hrequired, h⟩ := bind_eq_pure.mp h
                obtain rfl := Option.some.inj (pure_eq_pure.mp h)
                obtain ⟨⟨stopType, targetType⟩, htypes, hfound⟩ := bind_eq_pure.mp hfound
                obtain ⟨stopIndicator, hstopIndicator, hfound⟩ := bind_eq_pure.mp hfound
                obtain ⟨stopMultiplier, hstopMultiplier, hfound⟩ := bind_eq_pure.mp hfound
                obtain ⟨stopPct, -, hfound⟩ := bind_eq_pure.mp hfound
                obtain ⟨targetIndicator, htargetIndicator, hfound⟩ := bind_eq_pure.mp hfound
                obtain ⟨targetMultiplier, htargetMultiplier, hfound⟩ := bind_eq_pure.mp hfound
                obtain ⟨targetPct, -, hfound⟩ := bind_eq_pure.mp hfound
                obtain ⟨ratio, -, hfound⟩ := bind_eq_pure.mp hfound
                obtain rfl := pure_eq_pure.mp hfound
                exact ⟨stop, target, htypes, hstopIndicator, hstopMultiplier,
                  htargetIndicator, htargetMultiplier, hrequired⟩
    | _ => exact absurd h report_bind_ne_pure

/-! ## §6 Conditions -/

section Conditions

variable {names : OperandNames} {params : ResolvedParams}

/-- A condition that is parsed without errors. -/
def ParsedCondition (env : ParserEnvironment) (names : OperandNames) (params : ResolvedParams)
    (condition : Condition) : Prop :=
  ∃ path raw, parseCondition env names params path raw = pure condition

/-- How a list of trees is parsed without errors. -/
theorem parseGroups_eq {items : List Json} :
    ∀ {path : String} {index : ℕ} {groups : List ConditionGroup},
      parseGroups env names params path index items = pure groups →
      groups.length = items.length ∧ ∀ group ∈ groups, ∃ path, ∃ item ∈ items,
        parseGroup env names params path item = pure group := by
  induction items with
  | nil =>
      intro path index groups h
      obtain rfl := pure_eq_pure.mp h
      simp
  | cons item items ih =>
      intro path index groups h
      rw [parseGroups] at h
      obtain ⟨group, hgroup, h⟩ := bind_eq_pure.mp h
      obtain ⟨rest, hrest, h⟩ := bind_eq_pure.mp h
      obtain rfl := pure_eq_pure.mp h
      obtain ⟨hlength, hgroups⟩ := ih hrest
      refine ⟨by rw [List.length_cons, List.length_cons, hlength], fun other hother => ?_⟩
      rcases List.mem_cons.mp hother with rfl | hmem
      · exact ⟨_, item, by simp, hgroup⟩
      · obtain ⟨path, found, hfound, hparse⟩ := hgroups other hmem
        exact ⟨path, found, List.mem_cons_of_mem item hfound, hparse⟩

/-- The children under a key: there are some, and each is one of the items. -/
theorem childrenUnder_parsed {raw : List (String × Json)} {path kind : String}
    {children : List ConditionGroup}
    (h : childrenUnder env names params path kind raw = some (pure children)) :
    children ≠ [] ∧ ∃ entry ∈ raw, ∃ items, entry.2 = .list items ∧
      ∀ child ∈ children, ∃ path, ∃ item ∈ items,
        parseGroup env names params path item = pure child := by
  rw [childrenUnder_eq, Option.map_eq_some_iff] at h
  obtain ⟨value, hlookup, hchildren⟩ := h
  unfold parseChildren at hchildren
  split at hchildren
  · obtain ⟨hlength, hgroups⟩ := parseGroups_eq hchildren
    refine ⟨?_, _, mem_of_lookup hlookup, _, rfl, hgroups⟩
    rintro rfl
    simp at hlength
  · exact absurd hchildren report_bind_ne_pure

/-- What holds of the parts of every tree that is parsed without errors holds of
the tree. -/
theorem parseGroup_induction {motive : ConditionGroup → Prop}
    (all : ∀ children, children ≠ [] → (∀ child ∈ children, motive child) →
      motive (.all children))
    (any : ∀ children, children ≠ [] → (∀ child ∈ children, motive child) →
      motive (.any children))
    (not : ∀ child, motive child → motive (.not [child]))
    (condition : ∀ condition, ParsedCondition env names params condition →
      motive (.condition condition)) (raw : Json) :
    ∀ path group, parseGroup env names params path raw = pure group → motive group := by
  suffices h : (∀ path group, parseGroup env names params path raw = pure group →
      motive group) ∧ ∀ items, raw = .list items → ∀ item ∈ items, ∀ path group,
        parseGroup env names params path item = pure group → motive group from h.1
  induction raw using Json.induction with
  | scalar value hscalar =>
      refine ⟨fun path group h => ?_, ?_⟩
      · cases value with
        | dict entries => cases hscalar
        | _ => exact absurd h report_bind_ne_pure
      · rintro items rfl
        cases hscalar
  | list items ih =>
      refine ⟨fun path group h => absurd h report_bind_ne_pure, ?_⟩
      intro _ hitems item hitem
      obtain rfl := Json.list.inj hitems
      exact (ih item hitem).1
  | dict raw ih =>
      have hchildren : ∀ {path kind : String} {children : List ConditionGroup},
          childrenUnder env names params path kind raw = some (pure children) →
          children ≠ [] ∧ ∀ child ∈ children, motive child := by
        intro path kind children h
        obtain ⟨hne, entry, hentry, items, hitems, hparsed⟩ := childrenUnder_parsed h
        refine ⟨hne, fun child hchild => ?_⟩
        obtain ⟨path, item, hitem, hparse⟩ := hparsed child hchild
        exact (ih entry hentry).2 items hitems item hitem path child hparse
      refine ⟨fun path group h => ?_, by simp⟩
      rw [parseGroup] at h
      cases hall : childrenUnder env names params path "all" raw with
      | some children =>
          simp only [hall] at h
          obtain ⟨children, rfl, h⟩ := bind_eq_pure.mp h
          obtain rfl := pure_eq_pure.mp h
          exact all children (hchildren hall).1 (hchildren hall).2
      | none =>
          simp only [hall] at h
          cases hany : childrenUnder env names params path "any" raw with
          | some children =>
              simp only [hany] at h
              obtain ⟨children, rfl, h⟩ := bind_eq_pure.mp h
              obtain rfl := pure_eq_pure.mp h
              exact any children (hchildren hany).1 (hchildren hany).2
          | none =>
              simp only [hany] at h
              rw [groupUnder_eq] at h
              cases hnot : raw.lookup "not" with
              | some value =>
                  simp only [hnot, Option.map_some] at h
                  obtain ⟨child, hchild, h⟩ := bind_eq_pure.mp h
                  obtain rfl := pure_eq_pure.mp h
                  exact not child ((ih _ (mem_of_lookup hnot)).1 _ child hchild)
              | none =>
                  simp only [hnot, Option.map_none] at h
                  obtain ⟨found, hfound, h⟩ := bind_eq_pure.mp h
                  obtain rfl := pure_eq_pure.mp h
                  exact condition found ⟨path, raw, hfound⟩

theorem mem_groupConditions {condition : Condition} {groups : List ConditionGroup} :
    condition ∈ groupConditions groups ↔ ∃ group ∈ groups, condition ∈ group.conditions := by
  induction groups with
  | nil => simp [groupConditions]
  | cons group groups ih => simp [groupConditions, ih]

/-- All conditions of a tree that is parsed without errors are parsed ones. -/
theorem parsesConditions {raw : Json} {path : String} {group : ConditionGroup}
    (h : parseGroup env names params path raw = pure group) :
    ∀ condition ∈ group.conditions, ParsedCondition env names params condition := by
  refine parseGroup_induction (motive := fun group => ∀ condition ∈ group.conditions,
    ParsedCondition env names params condition) ?_ ?_ ?_ ?_ raw path group h
  · intro children _ ih condition hcondition
    obtain ⟨child, hchild, hmem⟩ := mem_groupConditions.mp hcondition
    exact ih child hchild condition hmem
  · intro children _ ih condition hcondition
    obtain ⟨child, hchild, hmem⟩ := mem_groupConditions.mp hcondition
    exact ih child hchild condition hmem
  · intro child ih condition hcondition
    obtain ⟨other, hother, hmem⟩ := mem_groupConditions.mp hcondition
    exact ih condition (List.mem_singleton.mp hother ▸ hmem)
  · intro condition hparsed other hother
    exact List.mem_singleton.mp hother ▸ hparsed

/-- What `parseSide` makes of its two trees. -/
theorem parseSide_eq {side : String} {spec : Json} {rules : SideRules}
    (h : parseSide env names params side spec = pure (some rules)) :
    ∃ entries, spec = .dict entries ∧ (side = "long" ∨ side = "short") ∧
      parseEntry env names params ("$.sides." ++ side) entries = pure (some rules.entry) ∧
      parseExitGroup env names params ("$.sides." ++ side) entries = pure rules.exit := by
  cases spec with
  | dict entries =>
      simp only [parseSide] at h
      split_ifs at h with hside
      · obtain ⟨entry, hentry, h⟩ := bind_eq_pure.mp h
        cases entry with
        | none => cases pure_eq_pure.mp h
        | some entry =>
            obtain ⟨exit, hexit, h⟩ := bind_eq_pure.mp h
            obtain rfl := Option.some.inj (pure_eq_pure.mp h)
            exact ⟨entries, rfl, hside, hentry, hexit⟩
      · exact absurd h report_bind_ne_pure
  | _ => exact absurd h report_bind_ne_pure

/-- A side without errors has rules. -/
theorem parseSide_ne_none {side : String} {spec : Json} :
    parseSide env names params side spec ≠ pure none := by
  intro h
  cases spec with
  | dict entries =>
      simp only [parseSide] at h
      split_ifs at h with hside
      · obtain ⟨entry, hentry, h⟩ := bind_eq_pure.mp h
        cases entry with
        | none =>
            simp only [parseEntry] at hentry
            split_ifs at hentry
            · exact report_bind_ne_pure hentry
            · obtain ⟨group, -, hentry⟩ := bind_eq_pure.mp hentry
              cases pure_eq_pure.mp hentry
        | some entry =>
            obtain ⟨exit, -, h⟩ := bind_eq_pure.mp h
            cases pure_eq_pure.mp h
      · exact report_bind_ne_pure h
  | _ => exact report_bind_ne_pure h

theorem addSide_eq {sides next : Sides} {entry : String × Json}
    (h : addSide env names params sides entry = pure next) :
    ∃ rules, parseSide env names params entry.1 entry.2 = pure (some rules) ∧
      next = sides.assign entry.1 rules := by
  obtain ⟨rules, hrules, h⟩ := bind_eq_pure.mp h
  cases rules with
  | none => exact absurd hrules parseSide_ne_none
  | some rules => exact ⟨rules, hrules, (pure_eq_pure.mp h).symm⟩

/-- The parsed sides: there are some, each from its own part. -/
theorem parseSides_eq {raw : Json} {sides : Sides}
    (h : parseSides env names params raw = pure sides) :
    sides.items ≠ [] ∧ ∀ side ∈ sides.items,
      ∃ spec, parseSide env names params side.1 spec = pure (some side.2) := by
  unfold parseSides at h
  split at h
  · constructor
    · rw [List.foldlM_cons] at h
      obtain ⟨first, hfirst, hrest⟩ := bind_eq_pure.mp h
      have hassigned : ∀ {state next : Sides} {entry : String × Json},
          addSide env names params state entry = pure next → next.items ≠ [] := by
        intro state next entry hnext
        obtain ⟨rules, -, rfl⟩ := addSide_eq hnext
        have hget := OrderedDict.get_assign_self state entry.1 rules
        exact List.ne_nil_of_mem (OrderedDict.mem_of_get hget)
      exact foldlM_induction (motive := fun sides : Sides => sides.items ≠ []) hrest
        (hassigned hfirst) fun state entry next _ _ hnext => hassigned hnext
    · refine foldlM_induction (motive := fun sides : Sides => ∀ side ∈ sides.items,
        ∃ spec, parseSide env names params side.1 spec = pure (some side.2)) h (by simp) ?_
      intro state entry next _ hstate hnext
      obtain ⟨rules, hrules, rfl⟩ := addSide_eq hnext
      rintro ⟨name, found⟩ hfound
      rw [OrderedDict.mem_items, OrderedDict.get_assign] at hfound
      split_ifs at hfound with hname
      · obtain rfl := Option.some.inj hfound
        exact ⟨entry.2, hname ▸ hrules⟩
      · exact hstate (name, found) (OrderedDict.mem_items.mpr hfound)
  · exact absurd h report_bind_ne_pure

/-- A property of every tree of the parsed sides. -/
theorem parseSide_trees {motive : ConditionGroup → Prop} {side : String} {spec : Json}
    {rules : SideRules}
    (hgroup : ∀ raw path group, parseGroup env names params path raw = pure group → motive group)
    (h : parseSide env names params side spec = pure (some rules)) :
    motive rules.entry ∧ ∀ exit, rules.exit = some exit → motive exit := by
  obtain ⟨entries, -, -, hentry, hexit⟩ := parseSide_eq h
  constructor
  · simp only [parseEntry] at hentry
    split_ifs at hentry
    · exact absurd hentry report_bind_ne_pure
    · obtain ⟨group, hparse, hentry⟩ := bind_eq_pure.mp hentry
      obtain rfl := Option.some.inj (pure_eq_pure.mp hentry)
      exact hgroup _ _ _ hparse
  · intro exit hsome
    simp only [parseExitGroup] at hexit
    split_ifs at hexit
    · rw [← pure_eq_pure.mp hexit] at hsome
      cases hsome
    · obtain ⟨group, hparse, hexit⟩ := bind_eq_pure.mp hexit
      rw [← pure_eq_pure.mp hexit] at hsome
      obtain rfl := Option.some.inj hsome
      exact hgroup _ _ _ hparse

theorem parseSide_conditions {side : String} {spec : Json} {rules : SideRules}
    (h : parseSide env names params side spec = pure (some rules)) :
    ∀ condition ∈ rules.conditions, ParsedCondition env names params condition := by
  obtain ⟨hentry, hexit⟩ := parseSide_trees (fun _ _ _ => parsesConditions) h
  intro condition hcondition
  rcases List.mem_append.mp hcondition with hmem | hmem
  · exact hentry condition hmem
  · cases hsome : rules.exit with
    | none => simp [hsome] at hmem
    | some exit => exact hexit exit hsome condition (by simpa [hsome] using hmem)

/-- **All conditions of the parsed sides are parsed without errors.** -/
theorem parseSides_conditions {raw : Json} {sides : Sides}
    (h : parseSides env names params raw = pure sides) :
    sides.Forall fun rules =>
      ∀ condition ∈ rules.conditions, ParsedCondition env names params condition := by
  intro name rules hget
  obtain ⟨spec, hspec⟩ := (parseSides_eq h).2 (name, rules) (OrderedDict.mem_of_get hget)
  exact parseSide_conditions hspec

/-- A name that is accepted without errors. -/
theorem parseNamed_eq {path value : String} {operand : Operand}
    (h : parseNamed env names path value = pure operand) :
    (∃ column, names.aliases.get value = some column ∧
      operand = { kind := .indicator, value := .str column, label := value,
                  sources := (names.sourcesMap.get column).getD [] }) ∨
    (names.aliases.get value = none ∧ ∃ kind : OperandKind, kind.isColumn = true ∧
      (value ∈ names.features ∨ value ∈ ohlcvFields ∨
        env.catalog.supportsConcrete value = true) ∧
      operand = { kind := kind, value := .str value, label := value }) := by
  unfold parseNamed at h
  cases halias : names.aliases.get value with
  | some column =>
      simp only [halias] at h
      exact .inl ⟨column, rfl, (pure_eq_pure.mp h).symm⟩
  | none =>
      simp only [halias] at h
      split_ifs at h with hfeature hfield hconcrete
      · exact .inr ⟨rfl, .feature, rfl, .inl hfeature, (pure_eq_pure.mp h).symm⟩
      · exact .inr ⟨rfl, .field, rfl, .inr (.inl hfield), (pure_eq_pure.mp h).symm⟩
      · exact .inr ⟨rfl, .column, rfl, .inr (.inr hconcrete), (pure_eq_pure.mp h).symm⟩
      · exact absurd h report_bind_ne_pure

/-- An operand is a literal, or a name. -/
theorem parseOperand_eq {path : String} {raw : Json} {operand : Operand}
    (h : parseOperand env names params path raw = pure operand) :
    ∃ value, resolveExpression params path raw = pure value ∧
      (((value.isNumber || value.isList) = true ∧
        operand = { kind := .literal, value := value, label := raw.toStr env.strOf }) ∨
      ∃ name, value = .str name ∧ parseNamed env names path name = pure operand) := by
  obtain ⟨value, hvalue, h⟩ := bind_eq_pure.mp h
  refine ⟨value, hvalue, ?_⟩
  split_ifs at h with hliteral
  · exact .inl ⟨hliteral, (pure_eq_pure.mp h).symm⟩
  · cases value with
    | str name => exact .inr ⟨name, rfl, h⟩
    | _ => exact absurd h report_bind_ne_pure

/-- An operand that is parsed without errors. -/
def ParsedOperand (env : ParserEnvironment) (names : OperandNames) (params : ResolvedParams)
    (operand : Operand) : Prop :=
  ∃ path raw, parseOperand env names params path raw = pure operand

/-- What is read from a bar is named by a text. -/
theorem ParsedOperand.value_of_isColumn {operand : Operand}
    (h : ParsedOperand env names params operand) (hkind : operand.kind.isColumn = true) :
    ∃ column, operand.value = .str column := by
  obtain ⟨path, raw, h⟩ := h
  obtain ⟨value, -, ⟨-, rfl⟩ | ⟨name, -, hname⟩⟩ := parseOperand_eq h
  · cases hkind
  · rcases parseNamed_eq hname with ⟨column, -, rfl⟩ | ⟨-, kind, -, -, rfl⟩
    · exact ⟨column, rfl⟩
    · exact ⟨name, rfl⟩

/-- A condition that is parsed without errors: its operator is known, and its
operands are parsed without errors. -/
theorem parseCondition_eq {path : String} {raw : List (String × Json)} {condition : Condition}
    (h : parseCondition env names params path raw = pure condition) :
    operatorOf (stripped (env.textOf raw "operator" "")) = some condition.operator ∧
      parseOperand env names params (path ++ ".left") (Json.get raw "left") =
        pure condition.left ∧
      if condition.operator ∈ binaryOperators then
        ∃ right, condition.right = some right ∧
          parseOperand env names params (path ++ ".right") (Json.get raw "right") = pure right
      else condition.right = none := by
  unfold parseCondition at h
  simp only at h
  cases hoperator : operatorOf (stripped (env.textOf raw "operator" "")) with
  | none =>
      simp only [hoperator, Option.isNone_none, if_true] at h
      exact absurd h report_bind_ne_pure
  | some operator =>
      simp only [hoperator, Option.isNone_some, Option.getD_some] at h
      obtain ⟨left, hleft, h⟩ := bind_eq_pure.mp h
      split_ifs at h with hbinary
      · obtain ⟨right, hright, h⟩ := bind_eq_pure.mp h
        obtain rfl := pure_eq_pure.mp h
        refine ⟨rfl, hleft, ?_⟩
        rw [if_pos hbinary]
        exact ⟨right, rfl, hright⟩
      · obtain rfl := pure_eq_pure.mp h
        refine ⟨rfl, hleft, ?_⟩
        rw [if_neg hbinary]

/-- The operands of a parsed condition are parsed. -/
theorem ParsedCondition.operands {condition : Condition}
    (h : ParsedCondition env names params condition) :
    ∀ operand ∈ condition.operands, ParsedOperand env names params operand := by
  obtain ⟨path, raw, h⟩ := h
  obtain ⟨-, hleft, hright⟩ := parseCondition_eq h
  intro operand hoperand
  rcases List.mem_cons.mp hoperand with rfl | hmem
  · exact ⟨_, _, hleft⟩
  · split_ifs at hright
    · obtain ⟨right, hsome, hright⟩ := hright
      simp only [hsome, Option.toList_some, List.mem_singleton] at hmem
      exact ⟨_, _, hmem ▸ hright⟩
    · simp [hright] at hmem

end Conditions

/-! ## §7 Definitions -/

/-- The stages of a definition that is parsed without errors. -/
structure Stages (env : ParserEnvironment) (data overrides : List (String × Json))
    (definition : StrategyDefinition) : Prop where
  header : validateHeader env data = pure definition.name
  parameters : parseParameters env (Json.getD data "parameters" (.dict [])) =
    pure definition.parameters
  resolvedParams : applyOverrides definition.parameters overrides =
    pure definition.resolvedParams
  timeframes : parseTimeframes env (Json.get data "timeframes") = pure definition.timeframes
  indicators : parseIndicators env definition.resolvedParams definition.timeframes
    (Json.getD data "indicators" (.list [])) = pure definition.indicators
  features : parseFeatures env definition.resolvedParams definition.indicators
    (Json.getD data "features" (.list [])) = pure definition.features
  risk : parseRisk env definition.resolvedParams definition.indicators
    (Json.get data "risk") = pure definition.risk
  sides : parseSides env (operandNames definition.indicators definition.features)
    definition.resolvedParams (Json.get data "sides") = pure definition.sides
  description : definition.description = env.textOf data "description" ""
  metadata : definition.metadata = metadataOf data

theorem parseDefinition_eq {data overrides : List (String × Json)}
    {definition : StrategyDefinition}
    (h : parseDefinition env data overrides = pure definition) :
    Stages env data overrides definition := by
  obtain ⟨name, hname, h⟩ := bind_eq_pure.mp h
  obtain ⟨params, hparams, h⟩ := bind_eq_pure.mp h
  obtain ⟨resolved, hresolved, h⟩ := bind_eq_pure.mp h
  obtain ⟨timeframes, htimeframes, h⟩ := bind_eq_pure.mp h
  obtain ⟨indicators, hindicators, h⟩ := bind_eq_pure.mp h
  obtain ⟨features, hfeatures, h⟩ := bind_eq_pure.mp h
  obtain ⟨risk, hrisk, h⟩ := bind_eq_pure.mp h
  obtain ⟨sides, hsides, h⟩ := bind_eq_pure.mp h
  obtain rfl := pure_eq_pure.mp h
  exact ⟨hname, hparams, hresolved, htimeframes, hindicators, hfeatures, hrisk, hsides, rfl, rfl⟩

/-- The stages of an accepted document. -/
theorem stages_of_accepted {data : Json} {overrides : List (String × Json)}
    {accepted : AcceptedStrategy} (h : parse env data overrides = .ok (.valid accepted)) :
    ∃ entries, data = .dict entries ∧ Stages env entries overrides accepted.definition := by
  obtain ⟨entries, hdata, hdefinition, -⟩ := parse_eq_valid env h
  exact ⟨entries, hdata, parseDefinition_eq hdefinition⟩

/-- The parameters of an accepted strategy have no parts. -/
theorem accepted_scalarParams {data : Json} {overrides : List (String × Json)}
    {accepted : AcceptedStrategy} (h : parse env data overrides = .ok (.valid accepted)) :
    ScalarParams accepted.definition.resolvedParams := by
  obtain ⟨entries, -, hstages⟩ := stages_of_accepted h
  exact applyOverrides_scalar (parseParameters_scalar hstages.parameters)
    hstages.resolvedParams

theorem formulaColumns_eq {features : List FeatureSpec} {columns : List String}
    (h : formulaColumns features = some columns) :
    ∀ feature ∈ features, feature.type = "formula" → ∀ expr, feature.rawExpr = some expr →
      ∃ found, collectFormulaExprColumns expr = some found ∧ ∀ column ∈ found,
        column ∈ columns := by
  induction features generalizing columns with
  | nil => simp
  | cons feature features ih =>
      simp only [formulaColumns, Option.bind_eq_bind, Option.bind_eq_some_iff,
        Option.pure_def, Option.some.injEq] at h
      obtain ⟨head, hhead, rest, hrest, rfl⟩ := h
      intro other hmem htype expr hexpr
      rcases List.mem_cons.mp hmem with rfl | hmem
      · simp only [featureColumns, hexpr, htype, if_true] at hhead
        exact ⟨head, hhead, fun column h => List.mem_append_left _ h⟩
      · obtain ⟨found, hfound, hsubset⟩ := ih hrest other hmem htype expr hexpr
        exact ⟨found, hfound, fun column h => List.mem_append_right _ (hsubset column h)⟩

/-- **The formulas of an accepted strategy**: a resolved expression whose columns
the collector reports. -/
theorem accepted_formula {data : Json} {overrides : List (String × Json)}
    {accepted : AcceptedStrategy} (h : parse env data overrides = .ok (.valid accepted))
    {feature : FeatureSpec} (hfeature : feature ∈ accepted.definition.features)
    (htype : feature.type = "formula") :
    ∃ path expr columns,
      feature.rawExpr =
        some (resolveExprParams accepted.definition.resolvedParams path expr).value ∧
      collectFormulaExprColumns
        (resolveExprParams accepted.definition.resolvedParams path expr).value = some columns ∧
      ∀ column ∈ columns, column ∈ accepted.requiredColumns := by
  obtain ⟨entries, hdata, hdefinition, hvalidated⟩ := parse_eq_valid env h
  obtain ⟨path, expr, hexpr⟩ :=
    parseFeatures_formula (parseDefinition_eq hdefinition).features feature hfeature htype
  obtain ⟨-, -, hrequired, -, -⟩ := validated_eq_valid env hvalidated
  have hmem := fun column : String => @mem_requiredColumns env _ _ hrequired column
  obtain ⟨formulas, hformulas, -⟩ := Option.bind_eq_some_iff.mp hrequired
  obtain ⟨columns, hcolumns, hsubset⟩ :=
    formulaColumns_eq hformulas feature hfeature htype _ hexpr
  refine ⟨path, expr, columns, hexpr, hcolumns, fun column hcolumn => ?_⟩
  exact (hmem column).mpr (.inr (.inr (.inr ⟨formulas, hformulas, hsubset column hcolumn⟩)))

/-- The column of an indicator that is no fallback is the one that its type and
period are resolved to. -/
theorem parseIndicator_resolved {params : ResolvedParams}
    {timeframes : Option TimeframeDeclaration} {path : String} {used : List String}
    {raw : Json} {item : IndicatorSpec}
    (h : parseIndicator env params timeframes path used raw = pure (some item))
    (htype : item.type ≠ "fallback") :
    env.catalog.resolve item.type item.period = some item.concreteName := by
  obtain ⟨entries, found, column, -, hparsed⟩ := parseIndicator_eq h
  obtain rfl := parseSources_eq htype hparsed.sources
  have hname : item.concreteName = column := congrArg IndicatorSpec.concreteName hparsed.spec
  rw [hname]
  exact ((concreteColumn_eq htype).mp hparsed.concrete).2

/-- The indicators of an accepted strategy. -/
theorem accepted_indicator {data : Json} {overrides : List (String × Json)}
    {accepted : AcceptedStrategy} (h : parse env data overrides = .ok (.valid accepted))
    {item : IndicatorSpec} (hitem : item ∈ accepted.definition.indicators)
    (htype : item.type ≠ "fallback") :
    env.catalog.resolve item.type item.period = some item.concreteName := by
  obtain ⟨entries, -, hstages⟩ := stages_of_accepted h
  exact parseIndicators_forall
    (motive := fun item => item.type ≠ "fallback" →
      env.catalog.resolve item.type item.period = some item.concreteName)
    (fun _ _ _ _ hparsed => parseIndicator_resolved hparsed) hstages.indicators item hitem htype

/-- The operands of an accepted strategy. -/
theorem accepted_operand {data : Json} {overrides : List (String × Json)}
    {accepted : AcceptedStrategy} (h : parse env data overrides = .ok (.valid accepted)) :
    ∀ operand ∈ accepted.definition.operands,
      ParsedOperand env
        (operandNames accepted.definition.indicators accepted.definition.features)
        accepted.definition.resolvedParams operand := by
  obtain ⟨entries, -, hstages⟩ := stages_of_accepted h
  intro operand hoperand
  obtain ⟨condition, hcondition, hoperand⟩ := List.mem_flatMap.mp hoperand
  obtain ⟨side, hside, hcondition⟩ := List.mem_flatMap.mp hcondition
  exact ((parseSides_conditions hstages.sides).of_mem hside condition hcondition).operands
    operand hoperand

end Finbar.Parser
