/-
Finbar.Parser.RoundTripTheorems — parsing what the serializer writes.

Each stage of the parser reads its part of the serialized definition back; the
stages together give the reread definition (`parseDefinition_written`).

No `sorry`, no `axiom`.
-/
import Finbar.Parser.ParseTheorems
import Finbar.Parser.Reread

namespace Finbar.Parser

open Lib Lib.Python Finbar.Evaluation Checked

variable {env : ParserEnvironment}

/-! ## §1 The serialized document -/

mutual

/-- The document of a tree without `not`. -/
def ConditionGroup.document : ConditionGroup → Json
  | .all children => .dict [("all", .list (documents children))]
  | .any children => .dict [("any", .list (documents children))]
  | .not _ => .dict [("not", .dict [])]
  | .condition condition => serializeCondition condition

def documents : List ConditionGroup → List Json
  | [] => []
  | child :: children => child.document :: documents children

end

/-- The document of a side. -/
def SideRules.document (rules : SideRules) : Json :=
  .dict (("entry", .dict [("condition", rules.entry.document)]) ::
    (rules.exit.map fun exit => ("exit", Json.dict [("condition", exit.document)])).toList)

mutual

theorem serializeGroup_eq :
    ∀ {group : ConditionGroup}, group.negationFree = true →
      serializeGroup group = .ok group.document
  | .all children, h => by
      rw [serializeGroup, serializeGroups_eq h]
      rfl
  | .any children, h => by
      rw [serializeGroup, serializeGroups_eq h]
      rfl
  | .not _, h => by cases h
  | .condition _, _ => rfl

theorem serializeGroups_eq :
    ∀ {children : List ConditionGroup}, negationFreeGroups children = true →
      serializeGroups children = .ok (documents children)
  | [], _ => rfl
  | child :: children, h => by
      rw [negationFreeGroups, Bool.and_eq_true] at h
      rw [serializeGroups, serializeGroup_eq h.1, serializeGroups_eq h.2]
      rfl

end

theorem serializeSide_eq {side : String × SideRules}
    (h : ∀ group ∈ side.2.trees, group.negationFree = true) :
    serializeSide side = .ok (side.1, side.2.document) := by
  obtain ⟨name, entry, exit⟩ := side
  have hentry := serializeGroup_eq (h entry (by simp [SideRules.trees]))
  cases exit with
  | none =>
      simp only [serializeSide, hentry]
      rfl
  | some exit =>
      have hexit := serializeGroup_eq (h exit (by simp [SideRules.trees]))
      simp only [serializeSide, hentry, hexit]
      rfl

/-- The sides of the document. -/
def writtenSides (sides : Sides) : List (String × Json) :=
  sides.items.map fun side => (side.1, side.2.document)

theorem mapM_serializeSide {sides : List (String × SideRules)}
    (h : ∀ side ∈ sides, ∀ group ∈ side.2.trees, group.negationFree = true) :
    sides.mapM serializeSide = .ok (sides.map fun side => (side.1, side.2.document)) := by
  induction sides with
  | nil => rfl
  | cons side sides ih =>
      rw [List.mapM_cons, serializeSide_eq (h side (by simp)),
        ih fun other hother => h other (by simp [hother])]
      rfl

theorem lookup_entryWhen (applies : Bool) (key name : String) (value : Json) :
    (entryWhen applies key value).lookup name =
      if name = key ∧ applies = true then some value else none := by
  cases applies with
  | false => simp [entryWhen]
  | true => simp [entryWhen, lookup_cons_ite]

theorem lookup_toList {α : Type} (value : Option α) (write : α → Json) (key name : String) :
    ((value.map fun value => (key, write value)).toList).lookup name =
      if name = key then value.map write else none := by
  cases value with
  | none => simp
  | some value => simp [lookup_cons_ite]

/-- What the stages of the parser find in the document of a definition. -/
structure Written (env : ParserEnvironment) (definition : StrategyDefinition)
    (entries : List (String × Json)) : Prop where
  version : Json.get entries "schema_version" = .str "2.0"
  name : env.textOf entries "name" "" = definition.name
  description : env.textOf entries "description" "" = definition.description
  parameters : Json.getD entries "parameters" (.dict []) =
    .dict (definition.parameters.items.map fun param => (param.1, serializeParameter param.2))
  timeframes : Json.get entries "timeframes" =
    (definition.timeframes.map serializeTimeframes).getD .null
  indicators : Json.getD entries "indicators" (.list []) =
    .list (definition.indicators.map serializeIndicator)
  features : Json.getD entries "features" (.list []) =
    .list (definition.features.map serializeFeature)
  risk : Json.get entries "risk" = (definition.risk.map serializeRisk).getD .null
  sides : definition.sides.items ≠ [] →
    Json.get entries "sides" = .dict (writtenSides definition.sides)
  metadata : metadataOf entries = definition.metadata

/-- **A definition without `not` is serialized.** -/
theorem serialize_eq {definition : StrategyDefinition}
    (h : ∀ group ∈ definition.trees, group.negationFree = true) :
    ∃ entries, serialize definition = .ok (.dict entries) ∧ Written env definition entries := by
  have hsides : definition.sides.items.mapM serializeSide = .ok (writtenSides definition.sides) :=
    mapM_serializeSide fun side hside group hgroup =>
      h group (List.mem_flatMap.mpr ⟨side, hside, hgroup⟩)
  refine ⟨_, by rw [serialize, hsides]; rfl, ?_⟩
  constructor
  case version => simp [Json.get, Json.getD]
  case name => simp [ParserEnvironment.textOf, Json.getD, List.lookup_cons]
  case description =>
    by_cases hempty : definition.description = ""
    · simp [ParserEnvironment.textOf, Json.getD, lookup_entryWhen, lookup_toList, List.lookup_cons,
        List.lookup_append, hempty]
    · simp [ParserEnvironment.textOf, Json.getD, lookup_entryWhen, lookup_toList, List.lookup_cons,
        List.lookup_append, hempty]
  case parameters =>
    cases hitems : definition.parameters.items with
    | nil => simp [Json.getD, List.lookup_append, lookup_entryWhen, lookup_toList, List.lookup_cons]
    | cons param params =>
        simp [Json.getD, List.lookup_append, lookup_entryWhen, lookup_toList, List.lookup_cons]
  case timeframes =>
    simp [Json.get, Json.getD, List.lookup_append, lookup_entryWhen, lookup_toList, List.lookup_cons]
  case indicators =>
    cases hitems : definition.indicators with
    | nil => simp [Json.getD, List.lookup_append, lookup_entryWhen, lookup_toList, List.lookup_cons]
    | cons item items =>
        simp [Json.getD, List.lookup_append, lookup_entryWhen, lookup_toList, List.lookup_cons]
  case features =>
    cases hitems : definition.features with
    | nil => simp [Json.getD, List.lookup_append, lookup_entryWhen, lookup_toList, List.lookup_cons]
    | cons feature features =>
        simp [Json.getD, List.lookup_append, lookup_entryWhen, lookup_toList, List.lookup_cons]
  case risk =>
    simp [Json.get, Json.getD, List.lookup_append, lookup_entryWhen, lookup_toList, List.lookup_cons]
  case sides =>
    intro hne
    have hwritten : (writtenSides definition.sides).isEmpty = false := by
      simpa [writtenSides, List.isEmpty_eq_false_iff] using hne
    simp [Json.get, Json.getD, List.lookup_append, lookup_entryWhen, lookup_toList, hwritten,
      List.lookup_cons]
  case metadata =>
    cases hmetadata : definition.metadata with
    | nil =>
        simp [metadataOf, Json.get, Json.getD, List.lookup_append, lookup_entryWhen,
          lookup_toList, List.lookup_cons]
    | cons entry entries =>
        simp [metadataOf, Json.get, Json.getD, List.lookup_append, lookup_entryWhen,
          lookup_toList, List.lookup_cons]

/-! ## §2 Header and parameters -/

theorem validateHeader_eq {data : List (String × Json)} {name : String} :
    validateHeader env data = pure name ↔ Json.get data "schema_version" = .str "2.0" ∧
      name = stripped (env.textOf data "name" "") ∧ name ≠ "" := by
  unfold validateHeader
  constructor
  · intro h
    dsimp only at h
    split_ifs at h with hversion hname hname
    · exact absurd h report_bind_ne_pure
    · exact absurd h report_bind_ne_pure
    · exact absurd h report_bind_ne_pure
    · obtain rfl := pure_eq_pure.mp h
      refine ⟨?_, rfl, hname⟩
      split at hversion
      · rename_i version hget
        simpa [hget] using hversion
      · exact absurd rfl hversion
  · rintro ⟨hversion, rfl, hname⟩
    simp [hversion, hname]

theorem parseBound_written {path : String} (bound : Option PyFloat) :
    parseBound path ((bound.map Json.float).getD .null) = pure bound := by
  cases bound with
  | none => rfl
  | some bound => rfl

/-- A parameter is read as it was written. -/
theorem parseParameter_written {name : String} {param : StrategyParameter}
    (h : ParsedParameter ("$.parameters." ++ name) param) :
    parseParameter env name (serializeParameter param) = pure (some param) := by
  obtain ⟨type, default, minimum, maximum⟩ := param
  obtain ⟨hdefault, hbounds, hrange⟩ := h
  dsimp only at hdefault hbounds hrange
  have htype : parameterTypeOf (lower type.value) = some type := by
    cases type <;> decide +kernel
  have hbound : ∀ (entries : List (String × Json)),
      entries = [("type", Json.str type.value), ("default", default)] ++
        (minimum.map fun bound => ("minimum", Json.float bound)).toList ++
        (maximum.map fun bound => ("maximum", Json.float bound)).toList →
      env.textOf entries "type" "" = type.value ∧ Json.get entries "default" = default ∧
        Json.get entries "minimum" = (minimum.map Json.float).getD .null ∧
        Json.get entries "maximum" = (maximum.map Json.float).getD .null := by
    rintro _ rfl
    cases minimum with
    | none => cases maximum <;> exact ⟨rfl, rfl, rfl, rfl⟩
    | some minimum => cases maximum <;> exact ⟨rfl, rfl, rfl, rfl⟩
  obtain ⟨htext, hget, hminimum, hmaximum⟩ := hbound _ rfl
  unfold serializeParameter
  rw [parseParameter]
  simp only [htext, hget, hminimum, hmaximum, htype, hdefault, if_true, parseBound_written,
    pure_bind, hbounds, Bool.false_eq_true, if_false, hrange]

theorem parseParameters_written {params : Parameters}
    (h : ∀ entry ∈ params.items, ParsedParameter ("$.parameters." ++ entry.1) entry.2) :
    parseParameters env
        (.dict (params.items.map fun param => (param.1, serializeParameter param.2))) =
      pure params := by
  have hloop : (params.items.map fun param =>
      (param.1, serializeParameter param.2)).foldlM (addParameter env) {} =
      pure (params.mapValues fun param => param) :=
    foldlM_assign fun state entry hentry => by
      unfold addParameter
      rw [parseParameter_written (h entry hentry)]
      rfl
  rw [OrderedDict.mapValues_id] at hloop
  exact hloop

/-! ## §3 Timeframes -/

theorem parseOneInformative_written {path : String} {before : List InformativeTimeframe}
    {item : InformativeTimeframe} (h : ParsedInformative before item) (hsymbol : item.symbol = "") :
    parseOneInformative env path before (serializeInformative item) = pure (some item) := by
  obtain ⟨aliasName, interval, symbol⟩ := item
  obtain ⟨halias, hinterval, hnamed, hfree, hdistinct, hknown⟩ := h
  dsimp only at halias hinterval hnamed hfree hdistinct hknown hsymbol
  subst hsymbol
  have haliasText : env.textOf [("alias", .str aliasName), ("interval", .str interval)] "alias" ""
      = aliasName := rfl
  have hintervalText : env.textOf [("alias", .str aliasName), ("interval", .str interval)]
      "interval" "" = interval := rfl
  have hsymbolText : stripped (env.textOf [("alias", .str aliasName), ("interval", .str interval)]
      "symbol" "") = "" := by
    show stripped "" = ""
    decide +kernel
  unfold serializeInformative parseOneInformative
  simp only [haliasText, hintervalText, hsymbolText, halias, hinterval, if_neg hnamed,
    if_neg hfree, if_neg hdistinct, validateInterval_eq.mpr ⟨hknown.1, hknown.2, rfl⟩, pure_bind,
    if_true]

theorem parseTimeframes_written {timeframes : Option TimeframeDeclaration}
    (h : ∀ declared, timeframes = some declared → ParsedTimeframes declared ∧
      ∀ item ∈ declared.informative, item.symbol = "") :
    parseTimeframes env ((timeframes.map serializeTimeframes).getD .null) = pure timeframes := by
  cases timeframes with
  | none => rfl
  | some declared =>
      obtain ⟨⟨hstripped, hprimary, hfew, hitems⟩, hsymbols⟩ := h declared rfl
      have hloop : (declared.informative.map serializeInformative).zipIdx.foldlM
          (addInformative env) [] = pure declared.informative := by
        rw [addInformative_eq]
        exact foldlM_appendFound_of fun before item after hsplit i =>
          parseOneInformative_written (hitems before item after hsplit)
            (hsymbols item (by simp [hsplit]))
      have hinformative : parseInformative env
          (.list (declared.informative.map serializeInformative)) =
            pure declared.informative := by
        unfold parseInformative
        cases hnil : declared.informative with
        | nil => rfl
        | cons item items =>
            rw [hnil] at hloop hfew
            rw [if_neg (by simp [Json.isNullOrEmptyList])]
            dsimp only
            rw [if_neg (by simpa using hfew)]
            exact hloop
      have hprimaryText : env.textOf
          [("primary", .str declared.primary),
            ("informative", .list (declared.informative.map serializeInformative))]
          "primary" "" = declared.primary := rfl
      have hget : Json.getD
          [("primary", .str declared.primary),
            ("informative", .list (declared.informative.map serializeInformative))]
          "informative" (.list []) =
            .list (declared.informative.map serializeInformative) := rfl
      rw [Option.map_some, Option.getD_some, serializeTimeframes, parseTimeframes,
        if_neg (by simp [Json.isNullOrEmptyDict])]
      simp only [hprimaryText, hget, hstripped, hinformative, pure_bind,
        validateInterval_eq.mpr ⟨hprimary.1, hprimary.2, rfl⟩]

/-! ## §4 Indicators -/

/-- An alias that is declared has a name. -/
theorem ParsedTimeframes.intervalFor_ne {timeframes : TimeframeDeclaration}
    (h : ParsedTimeframes timeframes) {aliasName : String}
    (hsome : (timeframes.intervalFor aliasName).isSome) : aliasName ≠ "" := by
  rintro rfl
  unfold TimeframeDeclaration.intervalFor at hsome
  rw [if_neg (by decide), Option.isSome_map] at hsome
  obtain ⟨item, hitem⟩ := Option.isSome_iff_exists.mp hsome
  obtain ⟨before, after, hsplit⟩ := List.append_of_mem (List.mem_of_find?_eq_some hitem)
  exact (h.informative before item after hsplit).named (by simpa using List.find?_some hitem)

/-- An indicator is read as it was written. -/
theorem parseIndicator_written {params params' : ResolvedParams}
    {timeframes : Option TimeframeDeclaration} {path path' : String} {used : List String}
    {raw : Json} {item : IndicatorSpec}
    (htimeframes : ∀ declared, timeframes = some declared → ParsedTimeframes declared)
    (h : parseIndicator env params timeframes path used raw = pure (some item))
    (htype : item.type ≠ "fallback") (hperiod : referenceFree item.period = true) :
    parseIndicator env params' timeframes path' used (serializeIndicator item) =
      pure (some item) := by
  obtain ⟨entries, found, column, -, hparsed⟩ := parseIndicator_eq h
  obtain rfl : found = [] := parseSources_eq htype hparsed.sources
  have hname : stripped item.name = item.name := by
    rw [hparsed.name, stripped_stripped]
  have hlower : stripped (lower item.type) = item.type := by
    rw [hparsed.type, lower_stripped_lower, stripped_stripped]
  have halias : aliasInvalid (path' ++ ".name") item.name used = pure false :=
    aliasInvalid_eq.mpr (aliasInvalid_eq.mp hparsed.valid)
  obtain ⟨hinvalid, hresolve⟩ := (concreteColumn_eq htype).mp hparsed.concrete
  have hsupplied : periodInvalid env (path' ++ ".period") item.type item.period true =
      pure false := by
    rw [periodInvalid_eq] at hinvalid ⊢
    split_ifs at hinvalid ⊢ with hrequires
    · exact hinvalid
    · intro hgiven
      refine hinvalid ?_
      cases hlookup : entries.lookup "period" with
      | some value => simpa using hgiven
      | none =>
          -- without the key the period is `None`
          have hnull := hparsed.period
          simp only [Json.get, Json.getD, hlookup, Option.getD_none] at hnull
          rw [← pure_eq_pure.mp hnull] at hgiven
          cases hgiven
  obtain ⟨htimeframe, hknown⟩ := resolveTimeframe_eq.mp hparsed.timeframe
  have hne : item.timeframe ≠ "" := by
    rcases hknown with hprimary | hsome
    · rw [hprimary]
      decide
    · cases timeframes with
      | none => cases hsome
      | some declared => exact (htimeframes declared rfl).intervalFor_ne hsome
  have hframe : resolveTimeframe env (path' ++ ".timeframe") (.str item.timeframe) timeframes =
      pure (some item.timeframe) := by
    refine resolveTimeframe_eq.mpr ⟨?_, hknown⟩
    rw [Json.orElse, if_pos (by simpa [Json.truthy] using hne), Json.toStr_str, htimeframe,
      stripped_stripped]
  have hspec := hparsed.spec
  simp only [List.head?_nil, Option.getD_none, List.length_nil] at hspec
  obtain ⟨document, hdocument, hnameText, htypeText, hperiodGet, hsourcesGet, hperiodLookup,
      hframeGet, hsourceText⟩ : ∃ document, serializeIndicator item = .dict document ∧
      env.textOf document "name" "" = item.name ∧ env.textOf document "type" "" = item.type ∧
      Json.get document "period" = item.period ∧ Json.get document "sources" = .null ∧
      (document.lookup "period").isSome = true ∧
      Json.getD document "timeframe" (.str "primary") = .str item.timeframe ∧
      env.textOf document "source" "close" = item.source :=
    ⟨_, rfl, rfl, rfl, rfl, rfl, rfl, rfl, rfl⟩
  have hnoSources : parseSources env (path' ++ ".sources") item.type .null = pure [] := by
    unfold parseSources
    rw [if_pos htype]
    rfl
  rw [hdocument, parseIndicator]
  simp only [hnameText, htypeText, hname, hlower, halias, pure_bind, Bool.false_eq_true,
    if_false, hperiodGet, hsourcesGet, hperiodLookup, hframeGet, hsourceText,
    resolveExpression_of_referenceFree hperiod, hnoSources,
    (concreteColumn_eq htype).mpr ⟨hsupplied, hresolve⟩, hframe, List.head?_nil,
    Option.getD_none, List.length_nil]
  rw [pure_eq_pure, Option.some.injEq]
  rw [hspec]

/-- **The indicators are read as they were written.** -/
theorem parseIndicators_written {params params' : ResolvedParams}
    {timeframes : Option TimeframeDeclaration} {raw : Json} {indicators : List IndicatorSpec}
    (htimeframes : ∀ declared, timeframes = some declared → ParsedTimeframes declared)
    (h : parseIndicators env params timeframes raw = pure indicators)
    (hrereadable : ∀ item ∈ indicators,
      item.type ≠ "fallback" ∧ referenceFree item.period = true) :
    parseIndicators env params' timeframes (.list (indicators.map serializeIndicator)) =
      pure indicators := by
  rw [parseIndicators, addIndicator_eq]
  refine foldlM_appendFound_of fun before item after hsplit i => ?_
  obtain ⟨path, value, hitem⟩ := parseIndicators_eq h before item after hsplit
  obtain ⟨htype, hperiod⟩ := hrereadable item (by simp [hsplit])
  exact parseIndicator_written htimeframes hitem htype hperiod

/-! ## §5 Features -/

/-- A name that names itself is resolved to itself. -/
theorem resolveSource_written {path name : String} {aliases : OrderedDict String String}
    (h : NamesItself (aliases.get name)
      (name ∈ ohlcvFields ∨ env.catalog.supportsConcrete name = true) name) :
    resolveSource env path name aliases = pure name := by
  unfold resolveSource
  rcases h with h | ⟨h, hknown⟩
  · rw [h]
  · simp only [h, if_pos hknown]

/-- A feature that is no formula is read as it was written. -/
theorem parseFeature_written {params : ResolvedParams} {aliases : OrderedDict String String}
    {path : String} {used : List String} {feature : FeatureSpec}
    (h : ParsedFeature used feature) (htype : feature.type ≠ "formula")
    (hsource : NamesItself (aliases.get feature.source)
      (feature.source ∈ ohlcvFields ∨ env.catalog.supportsConcrete feature.source = true)
      feature.source) :
    parseFeature env params aliases path used (serializeFeature feature) =
      pure (some feature) := by
  obtain ⟨name, type, source, window, shift, rawExpr⟩ := feature
  obtain ⟨hname, hlower, hvalid, hsupported, hderived⟩ := h
  obtain ⟨hwindow, hintegral, hshift, hexpr⟩ := hderived htype
  dsimp only at *
  subst hexpr
  have hresolve : resolveExpression params (path ++ ".window") window = pure window := by
    refine resolveExpression_of_referenceFree ?_
    rcases hintegral with hint | rfl
    · cases window with
      | bool b => rfl
      | int n => rfl
      | _ => cases hint
    · rfl
  have hkept : (if window.isInt = true then window else .null) = window := by
    rcases hintegral with hint | rfl
    · exact if_pos hint
    · rfl
  obtain ⟨document, hdocument, hnameText, htypeText, hsourceText, hwindowGet, hshiftGet⟩ :
      ∃ document, serializeFeature
        { name := name, type := type, source := source, window := window, shift := shift } =
          .dict document ∧
      env.textOf document "name" "" = name ∧ env.textOf document "type" "" = type ∧
      env.textOf document "source" "close" = source ∧ Json.get document "window" = window ∧
      Json.getD document "shift" (.int 0) = .int shift :=
    ⟨_, rfl, rfl, rfl, rfl, rfl, rfl⟩
  rw [hdocument, parseFeature]
  simp only [hnameText, htypeText, hname, hlower, nameInvalid_eq.mpr hvalid, pure_bind,
    Bool.false_eq_true, if_false, if_neg (not_not.mpr hsupported), if_neg htype, parseDerived,
    hsourceText, resolveSource_written hsource, hwindowGet, hresolve, hshiftGet,
    resolveExpression, windowInvalid_eq.mpr hwindow, if_neg (not_lt.mpr hshift), hkept]

/-- **The features are read as they were written**, without formulas. -/
theorem parseFeatures_written {params params' : ResolvedParams}
    {indicators : List IndicatorSpec} {raw : Json} {features : List FeatureSpec}
    (h : parseFeatures env params indicators raw = pure features)
    (hrereadable : ∀ feature ∈ features, feature.type ≠ "formula" ∧
      NamesItself ((aliasColumns indicators).get feature.source)
        (feature.source ∈ ohlcvFields ∨ env.catalog.supportsConcrete feature.source = true)
        feature.source) :
    parseFeatures env params' indicators (.list (features.map serializeFeature)) =
      pure features := by
  rw [parseFeatures, addFeature_eq]
  refine foldlM_appendFound_of fun before feature after hsplit i => ?_
  obtain ⟨path, value, hfeature⟩ := parseFeatures_eq h before feature after hsplit
  obtain ⟨htype, hsource⟩ := hrereadable feature (by simp [hsplit])
  exact parseFeature_written (parseFeature_eq hfeature) htype hsource

/-! ## §6 Risk settings -/

theorem stopLossOf_written (type : StopLossType) :
    stopLossOf (lower (stopLossName type)) = some type := by
  cases type <;> decide +kernel

theorem takeProfitOf_written (type : TakeProfitType) :
    takeProfitOf (lower (takeProfitName type)) = some type := by
  cases type <;> decide +kernel

/-- An ATR column that names itself is resolved to itself. -/
theorem resolveAtrIndicator_written {isAtr : Bool} {path name : String}
    {aliases : OrderedDict String String}
    (h : isAtr = true → NamesItself (atrColumn env aliases name)
      (env.catalog.supportsConcrete name = true) name) :
    resolveAtrIndicator env isAtr path name aliases = pure name := by
  unfold resolveAtrIndicator
  cases isAtr with
  | false => rfl
  | true =>
      have hnamed := h rfl
      unfold atrColumn at hnamed
      simp only [Bool.not_true, Bool.false_eq_true, if_false]
      cases hget : aliases.get name with
      | some column =>
          rw [hget, Option.some_or] at hnamed
          rcases hnamed with hfound | ⟨hfound, -⟩
          · obtain rfl := Option.some.inj hfound
            rfl
          · cases hfound
      | none =>
          rw [hget, Option.none_or] at hnamed
          dsimp only
          rcases hnamed with hfound | ⟨hfound, hsupported⟩
          · rw [hfound]
          · simp only [hfound, if_pos hsupported]

theorem positiveFloat_written {path : String} {value : PyFloat}
    (h : value.lt (.fin 0) = false) : positiveFloat path (.float value) = pure value := by
  unfold positiveFloat
  simp only [Json.isNullOrEmptyStr, Json.toFloat, h, Bool.false_eq_true, if_false]

/-- A number that is not written is read as zero. -/
theorem riskNumber_absent {params : ResolvedParams} {section_ : List (String × Json)}
    {path key : String} (h : section_.lookup key = none) :
    riskNumber params section_ path key = pure (.fin 0) := by
  unfold riskNumber Json.getD
  rw [h]
  rfl

theorem riskNumber_written {params : ResolvedParams} {section_ : List (String × Json)}
    {path key : String} {value : PyFloat} (hlookup : section_.lookup key = some (.float value))
    (hvalue : value.lt (.fin 0) = false) :
    riskNumber params section_ path key = pure value := by
  unfold riskNumber Json.getD
  rw [hlookup]
  exact positiveFloat_written hvalue

/-- What is required of the settings does not look at what is not written. -/
theorem validateRequiredValues_written {risk : RiskSpec}
    (h : validateRequiredValues risk = pure ()) (hstop : risk.stopLossType ≠ .fixedPct)
    (htarget : risk.takeProfitType ≠ .fixedPct ∧ risk.takeProfitType ≠ .riskReward) :
    validateRequiredValues (writtenRisk risk) = pure () := by
  obtain ⟨_, hstopMultiplier, h⟩ := bind_eq_pure.mp h
  obtain ⟨_, -, h⟩ := bind_eq_pure.mp h
  obtain ⟨_, htargetMultiplier, -⟩ := bind_eq_pure.mp h
  unfold validateRequiredValues writtenRisk
  dsimp only
  rw [hstopMultiplier, pure_bind, requirePositive_eq.mpr (by simp [hstop]), pure_bind,
    htargetMultiplier, pure_bind, requirePositive_eq.mpr (by simp [htarget.1]), pure_bind]
  exact requirePositive_eq.mpr (by simp [htarget.2])

/-- **The risk settings are read back**, without percentages and ratios. -/
theorem parseRisk_written {params params' : ResolvedParams} {indicators : List IndicatorSpec}
    {raw : Json} {risk : Option RiskSpec} (h : parseRisk env params indicators raw = pure risk)
    (hrereadable : ∀ spec, risk = some spec →
      RereadableRisk env (aliasColumns indicators) spec) :
    parseRisk env params' indicators ((risk.map serializeRisk).getD .null) =
      pure (risk.map writtenRisk) := by
  cases risk with
  | none => rfl
  | some risk =>
      obtain ⟨hstop, htarget, hstopIndicator, htargetIndicator⟩ := hrereadable risk rfl
      obtain ⟨stop, target, hparsed⟩ := parseRisk_eq h
      have hstopMultiplier := riskNumber_eq hparsed.stopMultiplier
      have htargetMultiplier := riskNumber_eq hparsed.takeProfitMultiplier
      have hrequired := validateRequiredValues_written hparsed.required hstop htarget
      have htypes : validateTypes (lower (stopLossName risk.stopLossType))
          (lower (takeProfitName risk.takeProfitType)) =
            pure (risk.stopLossType, risk.takeProfitType) := by
        unfold validateTypes
        simp [stopLossOf_written, takeProfitOf_written]
      obtain ⟨entries, stop, target, hentries, hdict, hstopGet, htargetGet, hstopType, hstopName,
          hstopNumber, hstopPct, htargetType, htargetName, htargetNumber, htargetPct, hratio⟩ :
          ∃ entries stop target, serializeRisk risk = .dict entries ∧
          (Json.dict entries).isNullOrEmptyDict = false ∧
          riskSection entries "stop_loss" = pure (some stop) ∧
          riskSection entries "take_profit" = pure (some target) ∧
          env.textOf stop "type" "none" = stopLossName risk.stopLossType ∧
          env.textOf stop "indicator" "atr" = risk.stopIndicator ∧
          stop.lookup "multiplier" = some (.float risk.stopMultiplier) ∧
          stop.lookup "pct" = none ∧
          env.textOf target "type" "none" = takeProfitName risk.takeProfitType ∧
          env.textOf target "indicator" "atr" = risk.takeProfitIndicator ∧
          target.lookup "multiplier" = some (.float risk.takeProfitMultiplier) ∧
          target.lookup "pct" = none ∧ target.lookup "ratio" = none :=
        ⟨_, _, _, rfl, rfl, rfl, rfl, rfl, rfl, rfl, rfl, rfl, rfl, rfl, rfl, rfl⟩
      have hbuild : buildRiskSpec env params' (aliasColumns indicators) stop target =
          pure (writtenRisk risk) := by
        unfold buildRiskSpec
        rw [hstopType, htargetType, htypes, pure_bind]
        dsimp only
        rw [hstopName, resolveAtrIndicator_written fun hatr => hstopIndicator (by simpa using hatr),
          pure_bind, riskNumber_written hstopNumber hstopMultiplier, pure_bind,
          riskNumber_absent hstopPct, pure_bind, htargetName,
          resolveAtrIndicator_written fun hatr => htargetIndicator (by simpa using hatr),
          pure_bind, riskNumber_written htargetNumber htargetMultiplier, pure_bind,
          riskNumber_absent htargetPct, pure_bind, riskNumber_absent hratio]
        rfl
      rw [Option.map_some, Option.getD_some, hentries, parseRisk,
        if_neg (by simp [hdict])]
      rw [hstopGet, pure_bind, htargetGet, pure_bind]
      dsimp only
      rw [hbuild, pure_bind, hrequired, pure_bind]
      rfl

/-! ## §7 Sides -/

section Sides

variable {names : OperandNames} {params params' : ResolvedParams}

/-- A name that names itself is parsed to an operand that reads the same. -/
theorem parseNamed_written {path name : String}
    (hsources : ∀ column, (names.sourcesMap.get column).getD [] = [])
    (h : NamesItself (names.aliases.get name)
      (name ∈ names.features ∨ name ∈ ohlcvFields ∨ env.catalog.supportsConcrete name = true)
      name) :
    parseNamed env names path name =
      pure { kind := names.kindOf name, value := .str name, label := name } := by
  unfold parseNamed OperandNames.kindOf
  rcases h with h | ⟨h, hknown⟩
  · rw [h]
    simp [hsources]
  · rw [h]
    simp only [Option.isSome_none, Bool.false_eq_true, if_false]
    split_ifs with hfeature hfield hconcrete
    · rfl
    · rfl
    · rfl
    · exact absurd hknown (by simp [hfeature, hfield, hconcrete])

/-- The values of operands are literals or names. -/
theorem ParsedOperand.value_eq {operand : Operand}
    (h : ParsedOperand env names params operand) :
    ((operand.value.isNumber || operand.value.isList) = true ∧ operand.kind = .literal) ∨
      ∃ name, operand.value = .str name ∧ operand.kind.isColumn = true := by
  obtain ⟨path, raw, h⟩ := h
  obtain ⟨value, -, ⟨hliteral, rfl⟩ | ⟨name, -, hname⟩⟩ := parseOperand_eq h
  · exact .inl ⟨hliteral, rfl⟩
  · rcases parseNamed_eq hname with ⟨column, -, rfl⟩ | ⟨-, kind, hkind, -, rfl⟩
    · exact .inr ⟨column, rfl, rfl⟩
    · exact .inr ⟨name, rfl, hkind⟩

theorem parseOperand_written {path : String} {operand : Operand}
    (hsources : ∀ column, (names.sourcesMap.get column).getD [] = [])
    (h : ParsedOperand env names params operand) (hr : RereadableOperand env names operand) :
    parseOperand env names params' path operand.value = pure (operand.reread env names) := by
  obtain ⟨hresolved, hnamed⟩ := hr
  unfold parseOperand
  rw [resolveExpression_of_referenceFree hresolved, pure_bind]
  rcases h.value_eq with ⟨hliteral, -⟩ | ⟨name, hvalue, -⟩
  · rw [if_pos hliteral]
    unfold Operand.reread
    cases hvalue : operand.value with
    | str name => simp [hvalue, Json.isNumber, Json.isList] at hliteral
    | _ => rfl
  · unfold Operand.reread
    simp only [hvalue]
    exact parseNamed_written hsources (hnamed name hvalue)

/-- An operand that is read from the bar still is. -/
theorem isColumn_reread {operand : Operand} (h : ParsedOperand env names params operand) :
    (operand.reread env names).kind.isColumn = operand.kind.isColumn := by
  unfold Operand.reread
  rcases h.value_eq with ⟨hliteral, hkind⟩ | ⟨name, hvalue, hkind⟩
  · rw [hkind]
    cases hvalue : operand.value with
    | str name => simp [hvalue, Json.isNumber, Json.isList] at hliteral
    | _ => rfl
  · rw [hkind, hvalue]
    dsimp only
    unfold OperandNames.kindOf
    split_ifs <;> rfl

/-- The same values on every bar, read under another label. -/
theorem resolveOperand_reread {operand : Operand} (h : ParsedOperand env names params operand)
    (hsources : operand.sources = []) (bar : BarDict) :
    resolveOperand operand.evaluated bar =
      resolveOperand (operand.reread env names).evaluated bar := by
  unfold resolveOperand
  simp only [Operand.evaluated, isColumn_reread h, hsources]
  rfl

theorem stripped_operator (operator : ConditionOperator) :
    stripped operator.value = operator.value := by
  cases operator <;> decide +kernel

/-- A leaf is read under the new labels. -/
theorem parseCondition_written {condition : Condition}
    (hsources : ∀ column, (names.sourcesMap.get column).getD [] = [])
    (h : ParsedCondition env names params condition)
    (hr : ∀ operand ∈ condition.operands, RereadableOperand env names operand)
    {path : String} {raw : List (String × Json)}
    (hraw : serializeCondition condition = .dict raw) :
    parseCondition env names params' path raw = pure (condition.reread env names) := by
  have hoperands := h.operands
  obtain ⟨_, _, hparse⟩ := h
  obtain ⟨-, -, hright⟩ := parseCondition_eq hparse
  obtain ⟨left, operator, right⟩ := condition
  have hleft : ∀ path, parseOperand env names params' path left.value =
      pure (left.reread env names) := fun path =>
    parseOperand_written hsources (hoperands left (by simp [Condition.operands]))
      (hr left (by simp [Condition.operands]))
  obtain ⟨hoperatorText, hleftGet, hrightGet⟩ : env.textOf raw "operator" "" = operator.value ∧
      Json.get raw "left" = left.value ∧
      ∀ operand, right = some operand → Json.get raw "right" = operand.value := by
    obtain rfl := Json.dict.inj hraw
    refine ⟨rfl, rfl, ?_⟩
    rintro operand rfl
    rfl
  unfold parseCondition
  simp only [hoperatorText, stripped_operator, operatorOf_value, Option.getD_some,
    Option.isNone_some, Bool.false_eq_true, if_false, hleftGet, hleft, pure_bind]
  dsimp only at hright
  split_ifs at hright ⊢ with hbinary
  · obtain ⟨operand, rfl, -⟩ := hright
    rw [hrightGet operand rfl, parseOperand_written hsources
      (hoperands operand (by simp [Condition.operands]))
      (hr operand (by simp [Condition.operands])), pure_bind]
    rfl
  · rw [hright]
    rfl

theorem serializeCondition_eq (condition : Condition) :
    ∃ raw, serializeCondition condition = .dict raw ∧ raw.lookup "all" = none ∧
      raw.lookup "any" = none ∧ raw.lookup "not" = none := by
  obtain ⟨left, operator, right⟩ := condition
  cases right with
  | none => exact ⟨_, rfl, rfl, rfl, rfl⟩
  | some right => exact ⟨_, rfl, rfl, rfl, rfl⟩

mutual

/-- **A tree without `not` is read under the new labels.** -/
theorem parseGroup_written
    (hsources : ∀ column, (names.sourcesMap.get column).getD [] = []) :
    ∀ {group : ConditionGroup} {path : String}, group.negationFree = true →
      group.populated = true →
      (∀ condition ∈ group.conditions, ParsedCondition env names params condition ∧
        ∀ operand ∈ condition.operands, RereadableOperand env names operand) →
      parseGroup env names params' path group.document =
        pure (group.mapConditions (Condition.reread env names))
  | .all children, path, hfree, hpopulated, hconditions => by
      rw [ConditionGroup.populated, Bool.and_eq_true] at hpopulated
      have hchildren : parseChildren env names params' (path ++ "." ++ "all") "all"
          (.list (documents children)) = pure (mapGroups (Condition.reread env names) children) :=
        parseChildren_written hsources (by simpa using hpopulated.1) hfree hpopulated.2
          hconditions
      rw [ConditionGroup.document, parseGroup, childrenUnder_eq]
      simp only [List.lookup_cons_self, Option.map_some, hchildren, pure_bind]
      rfl
  | .any children, path, hfree, hpopulated, hconditions => by
      rw [ConditionGroup.populated, Bool.and_eq_true] at hpopulated
      have hchildren : parseChildren env names params' (path ++ "." ++ "any") "any"
          (.list (documents children)) = pure (mapGroups (Condition.reread env names) children) :=
        parseChildren_written hsources (by simpa using hpopulated.1) hfree hpopulated.2
          hconditions
      have hall : List.lookup "all" [("any", Json.list (documents children))] = none := rfl
      rw [ConditionGroup.document, parseGroup, childrenUnder_eq, childrenUnder_eq]
      simp only [hall, Option.map_none, List.lookup_cons_self, Option.map_some, hchildren,
        pure_bind]
      rfl
  | .not _, _, hfree, _, _ => by cases hfree
  | .condition condition, path, _, _, hconditions => by
      obtain ⟨raw, hraw, hall, hany, hnot⟩ := serializeCondition_eq condition
      obtain ⟨hparsed, hoperands⟩ := hconditions condition (List.mem_singleton.mpr rfl)
      rw [ConditionGroup.document, hraw, parseGroup, childrenUnder_eq, childrenUnder_eq,
        groupUnder_eq]
      simp only [hall, hany, hnot, Option.map_none,
        parseCondition_written hsources hparsed hoperands hraw, Checked.pure_bind]
      rfl

theorem parseChildren_written
    (hsources : ∀ column, (names.sourcesMap.get column).getD [] = []) :
    ∀ {children : List ConditionGroup} {path kind : String}, children ≠ [] →
      negationFreeGroups children = true → populatedGroups children = true →
      (∀ condition ∈ groupConditions children, ParsedCondition env names params condition ∧
        ∀ operand ∈ condition.operands, RereadableOperand env names operand) →
      parseChildren env names params' path kind (.list (documents children)) =
        pure (mapGroups (Condition.reread env names) children)
  | [], _, _, hne, _, _, _ => absurd rfl hne
  | child :: children, path, kind, _, hfree, hpopulated, hconditions => by
      rw [documents, parseChildren]
      exact parseGroups_written hsources hfree hpopulated hconditions

theorem parseGroups_written
    (hsources : ∀ column, (names.sourcesMap.get column).getD [] = []) :
    ∀ {children : List ConditionGroup} {path : String} {index : ℕ},
      negationFreeGroups children = true → populatedGroups children = true →
      (∀ condition ∈ groupConditions children, ParsedCondition env names params condition ∧
        ∀ operand ∈ condition.operands, RereadableOperand env names operand) →
      parseGroups env names params' path index (documents children) =
        pure (mapGroups (Condition.reread env names) children)
  | [], _, _, _, _, _ => rfl
  | child :: children, path, index, hfree, hpopulated, hconditions => by
      rw [negationFreeGroups, Bool.and_eq_true] at hfree
      rw [populatedGroups, Bool.and_eq_true] at hpopulated
      rw [documents, parseGroups,
        parseGroup_written hsources hfree.1 hpopulated.1
          fun condition hcondition => hconditions condition (List.mem_append_left _ hcondition),
        Checked.pure_bind, parseGroups_written hsources hfree.2 hpopulated.2
          fun condition hcondition => hconditions condition (List.mem_append_right _ hcondition),
        Checked.pure_bind]
      rfl

end

theorem document_isNull (group : ConditionGroup) : group.document.isNull = false := by
  cases group <;> rfl

/-- What the trees of a side need in order to be read back. -/
def RereadableTree (env : ParserEnvironment) (names : OperandNames) (params : ResolvedParams)
    (group : ConditionGroup) : Prop :=
  group.negationFree = true ∧ group.populated = true ∧
    ∀ condition ∈ group.conditions, ParsedCondition env names params condition ∧
      ∀ operand ∈ condition.operands, RereadableOperand env names operand

theorem parseSide_written
    (hsources : ∀ column, (names.sourcesMap.get column).getD [] = []) {side : String}
    {rules : SideRules} (hside : side = "long" ∨ side = "short")
    (h : ∀ group ∈ rules.trees, RereadableTree env names params group) :
    parseSide env names params' side rules.document =
      pure (some (rules.mapConditions (Condition.reread env names))) := by
  obtain ⟨entry, exit⟩ := rules
  have hgroup : ∀ group ∈ (SideRules.trees { entry := entry, exit := exit }), ∀ path,
      parseGroup env names params' path group.document =
        pure (group.mapConditions (Condition.reread env names)) := by
    intro group hmem path
    obtain ⟨hfree, hpopulated, hconditions⟩ := h group hmem
    exact parseGroup_written hsources hfree hpopulated hconditions
  obtain ⟨entries, hdocument, hentryGet, hexitGet⟩ : ∃ entries,
      SideRules.document { entry := entry, exit := exit } = .dict entries ∧
      extractCondition (Json.get entries "entry") = entry.document ∧
      extractCondition (Json.get entries "exit") =
        (exit.map ConditionGroup.document).getD .null := by
    cases exit with
    | none => exact ⟨_, rfl, rfl, rfl⟩
    | some exit => exact ⟨_, rfl, rfl, rfl⟩
  have hentry : parseEntry env names params' ("$.sides." ++ side) entries =
      pure (some (entry.mapConditions (Condition.reread env names))) := by
    unfold parseEntry
    simp only [hentryGet, document_isNull, Bool.false_eq_true, if_false,
      hgroup entry (by simp [SideRules.trees]), Checked.pure_bind]
  have hexit : parseExitGroup env names params' ("$.sides." ++ side) entries =
      pure (exit.map (ConditionGroup.mapConditions (Condition.reread env names))) := by
    unfold parseExitGroup
    rw [hexitGet]
    cases exit with
    | none => rfl
    | some exit =>
        simp only [Option.map_some, Option.getD_some, document_isNull, Bool.false_eq_true,
          if_false, hgroup exit (by simp [SideRules.trees]), Checked.pure_bind]
  rw [hdocument, parseSide]
  simp only [if_pos hside, hentry, hexit, Checked.pure_bind]
  rfl

/-- **The sides are read under the new labels.** -/
theorem parseSides_written
    (hsources : ∀ column, (names.sourcesMap.get column).getD [] = []) {sides : Sides}
    (hne : sides.items ≠ [])
    (h : ∀ side ∈ sides.items, (side.1 = "long" ∨ side.1 = "short") ∧
      ∀ group ∈ side.2.trees, RereadableTree env names params group) :
    parseSides env names params' (.dict (writtenSides sides)) =
      pure (sides.mapValues (SideRules.mapConditions (Condition.reread env names))) := by
  have hloop : (writtenSides sides).foldlM (addSide env names params') {} =
      pure (sides.mapValues (SideRules.mapConditions (Condition.reread env names))) :=
    foldlM_assign fun state side hside => by
      unfold addSide
      rw [parseSide_written hsources (h side hside).1 (h side hside).2]
      rfl
  unfold parseSides
  cases hwritten : writtenSides sides with
  | nil =>
      rw [writtenSides, List.map_eq_nil_iff] at hwritten
      exact absurd hwritten hne
  | cons side rest =>
      rw [hwritten] at hloop
      exact hloop

end Sides

/-! ## §8 The definition -/

/-- The trees of the parsed sides. -/
theorem parseSides_trees {names : OperandNames} {params : ResolvedParams} {raw : Json}
    {sides : Sides} (h : parseSides env names params raw = pure sides) :
    ∀ side ∈ sides.items, (side.1 = "long" ∨ side.1 = "short") ∧
      ∀ group ∈ side.2.trees, group.populated = true ∧
        ∀ condition ∈ group.conditions, ParsedCondition env names params condition := by
  have hpopulatedGroups : ∀ children : List ConditionGroup,
      (∀ child ∈ children, child.populated = true) → populatedGroups children = true := by
    intro children
    induction children with
    | nil => exact fun _ => rfl
    | cons child children ih =>
        intro hall
        rw [populatedGroups, hall child (by simp),
          ih fun other hother => hall other (by simp [hother])]
        rfl
  have hgroup : ∀ raw path group, parseGroup env names params path raw = pure group →
      group.populated = true ∧
        ∀ condition ∈ group.conditions, ParsedCondition env names params condition := by
    intro raw path group hparse
    refine ⟨?_, parsesConditions hparse⟩
    refine parseGroup_induction (motive := fun group => group.populated = true) ?_ ?_ ?_ ?_
      raw path group hparse
    · intro children hne hchildren
      rw [ConditionGroup.populated, hpopulatedGroups children hchildren]
      simpa using hne
    · intro children hne hchildren
      rw [ConditionGroup.populated, hpopulatedGroups children hchildren]
      simpa using hne
    · intro child hchild
      rw [ConditionGroup.populated]
      exact hpopulatedGroups [child] (by simpa using hchild)
    · exact fun _ _ => rfl
  intro side hside
  obtain ⟨spec, hspec⟩ := (parseSides_eq h).2 side hside
  obtain ⟨-, -, hname, -, -⟩ := parseSide_eq hspec
  obtain ⟨hentry, hexit⟩ := parseSide_trees hgroup hspec
  refine ⟨hname, fun group hmem => ?_⟩
  rcases List.mem_cons.mp hmem with rfl | hmem
  · exact hentry
  · exact hexit group (Option.mem_toList.mp hmem)

/-- An indicator that is no fallback has no sources. -/
theorem parseIndicators_sources {params : ResolvedParams}
    {timeframes : Option TimeframeDeclaration} {raw : Json} {indicators : List IndicatorSpec}
    (h : parseIndicators env params timeframes raw = pure indicators) :
    ∀ item ∈ indicators, item.type ≠ "fallback" → item.sources = [] := by
  refine parseIndicators_forall
    (motive := fun item => item.type ≠ "fallback" → item.sources = []) ?_ h
  intro path used raw item hitem htype
  obtain ⟨entries, found, column, -, hparsed⟩ := parseIndicator_eq hitem
  obtain rfl : found = [] := parseSources_eq htype hparsed.sources
  exact congrArg IndicatorSpec.sources hparsed.spec

theorem operandNames_sources {indicators : List IndicatorSpec} {features : List FeatureSpec}
    (h : ∀ item ∈ indicators, item.sources = []) (column : String) :
    ((operandNames indicators features).sourcesMap.get column).getD [] = [] := by
  have hnone : indicators.filter (fun item => !item.sources.isEmpty) = [] := by
    rw [List.filter_eq_nil_iff]
    intro item hitem
    simp [h item hitem]
  simp only [operandNames, hnone, List.map_nil]
  rfl

/-- The conditions of the trees are those of the definition. -/
theorem mem_conditions_of_tree {definition : StrategyDefinition} {group : ConditionGroup}
    (hgroup : group ∈ definition.trees) {condition : Condition}
    (hcondition : condition ∈ group.conditions) : condition ∈ definition.conditions := by
  obtain ⟨side, hside, hmem⟩ := List.mem_flatMap.mp hgroup
  refine List.mem_flatMap.mpr ⟨side, hside, ?_⟩
  rcases List.mem_cons.mp hmem with rfl | hmem
  · exact List.mem_append_left _ hcondition
  · rw [Option.mem_toList] at hmem
    exact List.mem_append_right _ (by simpa [Option.mem_def.mp hmem] using hcondition)

/-- **What is written is parsed to the reread definition.** -/
theorem parseDefinition_written {data overrides entries : List (String × Json)}
    {definition : StrategyDefinition} (h : Stages env data overrides definition)
    (hr : Rereadable env definition) (hw : Written env definition entries) :
    parseDefinition env entries [] = pure (definition.reread env) := by
  obtain ⟨-, hname, hnamed⟩ := validateHeader_eq.mp h.header
  have hheader : validateHeader env entries = pure definition.name := by
    refine validateHeader_eq.mpr ⟨hw.version, ?_, hnamed⟩
    rw [hw.name, hname, stripped_stripped]
  have htimeframes : ∀ declared, definition.timeframes = some declared →
      ParsedTimeframes declared := by
    intro declared hdeclared
    exact parseTimeframes_eq (hdeclared ▸ h.timeframes)
  have hsources : ∀ column, (definition.names.sourcesMap.get column).getD [] = [] :=
    operandNames_sources fun item hitem =>
      parseIndicators_sources h.indicators item hitem (hr.indicators item hitem).1
  have htrees := parseSides_trees h.sides
  have hoverrides : applyOverrides definition.parameters [] =
      pure (defaultParams definition.parameters) := rfl
  have hrereadable : ∀ side ∈ definition.sides.items, (side.1 = "long" ∨ side.1 = "short") ∧
      ∀ group ∈ side.2.trees,
        RereadableTree env definition.names definition.resolvedParams group := by
    refine fun side hside => ⟨(htrees side hside).1, fun group hgroup => ?_⟩
    have hmem : group ∈ definition.trees := List.mem_flatMap.mpr ⟨side, hside, hgroup⟩
    obtain ⟨hpopulated, hconditions⟩ := (htrees side hside).2 group hgroup
    refine ⟨hr.negations group hmem, hpopulated, fun condition hcondition =>
      ⟨hconditions condition hcondition, fun operand hoperand => hr.operands operand ?_⟩⟩
    exact List.mem_flatMap.mpr ⟨condition, mem_conditions_of_tree hmem hcondition, hoperand⟩
  have hsides : parseSides env definition.names (defaultParams definition.parameters)
      (.dict (writtenSides definition.sides)) = pure (definition.reread env).sides :=
    parseSides_written hsources (parseSides_eq h.sides).1 hrereadable
  unfold parseDefinition
  rw [hheader, Checked.pure_bind, hw.parameters,
    parseParameters_written (parseParameters_eq h.parameters), Checked.pure_bind, hoverrides,
    Checked.pure_bind, hw.timeframes, parseTimeframes_written fun declared hdeclared =>
      ⟨htimeframes declared hdeclared, hr.symbols declared hdeclared⟩, Checked.pure_bind,
    hw.indicators, parseIndicators_written htimeframes h.indicators hr.indicators,
    Checked.pure_bind, hw.features, parseFeatures_written h.features hr.features,
    Checked.pure_bind, hw.risk, parseRisk_written h.risk hr.risk, Checked.pure_bind,
    hw.sides (parseSides_eq h.sides).1]
  show (parseSides env definition.names (defaultParams definition.parameters)
    (.dict (writtenSides definition.sides)) >>= _) = _
  rw [hsides, Checked.pure_bind, hw.description, hw.metadata]
  rfl

end Finbar.Parser
