/-
Finbar.Parity.CausalFrameTheorems — when the frame serves every informative
timeframe from its own bars.

A column is called after the indicator and the interval, while the parser only
asks for distinct pairs of interval and symbol, and a flat list of bars is
always given the alias `h1`. So two timeframes of one interval can share a
column, and the bars of a timeframe that is not called `h1` can go nowhere.
`serves_own_bars_iff` says that nothing else goes wrong.

No `sorry`, no `axiom`.
-/
import Finbar.Parity.CausalFrame
import Mathlib.Data.List.Forall2

namespace Finbar.Parity

open Lib Lib.Python Lib.AsOf Lib.Run Finbar.Streaming Finbar.Enrichment
open Finbar.Parser (StrategyDefinition AcceptedStrategy IndicatorSpec ParserEnvironment
  ParsedTimeframes ohlcvFields)

/-! ## §1 Column names -/

/-- What follows the last separator determines what precedes it. -/
theorem append_separator_inj {α : Type} {a b s t : List α} {separator : α}
    (hs : separator ∉ s) (ht : separator ∉ t)
    (h : a ++ separator :: s = b ++ separator :: t) : a = b ∧ s = t := by
  rcases List.append_eq_append_iff.mp h with ⟨between, rfl, hrest⟩ | ⟨between, rfl, hrest⟩
  · cases between with
    | nil => exact ⟨(List.append_nil a).symm, (List.cons.inj hrest).2⟩
    | cons x between =>
        refine absurd ?_ hs
        rw [(List.cons.inj hrest).2]
        exact List.mem_append_right _ List.mem_cons_self
  · cases between with
    | nil => exact ⟨List.append_nil b, (List.cons.inj hrest).2.symm⟩
    | cons x between =>
        refine absurd ?_ ht
        rw [(List.cons.inj hrest).2]
        exact List.mem_append_right _ List.mem_cons_self

/-- No interval has an underscore. -/
theorem underscore_notMem_interval {interval : String} (h : interval ∈ Parser.intervals) :
    '_' ∉ interval.toList := by
  revert interval
  decide

/-- A suffixed column determines its indicator and its interval. -/
theorem suffixed_inj {name name' interval interval' : String}
    (hinterval : interval ∈ Parser.intervals) (hinterval' : interval' ∈ Parser.intervals)
    (h : name ++ ("_" ++ interval) = name' ++ ("_" ++ interval')) :
    name = name' ∧ interval = interval' := by
  have hlists := congrArg String.toList h
  simp only [String.toList_append] at hlists
  obtain ⟨hname, hsuffix⟩ := append_separator_inj (underscore_notMem_interval hinterval)
    (underscore_notMem_interval hinterval') hlists
  exact ⟨String.toList_injective hname, String.toList_injective hsuffix⟩

/-- No field of a bar is called like a suffixed column. -/
theorem suffixed_notMem_ohlcv (name interval : String) : name ++ ("_" ++ interval) ∉ ohlcv := by
  intro hmem
  have hplain : ∀ field ∈ ohlcv, '_' ∉ field.toList := by decide
  refine hplain _ hmem ?_
  simp

/-- The entries of a bar are its fields and what else it carries. -/
theorem mem_barItems {bar : StreamBar} {name : String}
    (h : name ∈ (barItems bar).map Prod.fst) :
    name ∈ ohlcv ∨ ∃ field ∈ bar.extra, field.1 = name := by
  unfold barItems at h
  rw [List.map_append, List.map_append, List.mem_append, List.mem_append] at h
  rcases h with (h | h) | h
  · exact .inl (List.mem_append_left ["timestamp"] h)
  · cases hts : bar.timestamp with
    | none =>
        rw [hts] at h
        cases h
    | some ts =>
        rw [hts] at h
        have htimestamp : "timestamp" ∈ ohlcv := by decide
        exact .inl (List.mem_singleton.mp h ▸ htimestamp)
  · obtain ⟨field, hfield, rfl⟩ := List.mem_map.mp h
    exact .inr ⟨field, hfield, rfl⟩

/-! ## §2 What the parser accepts -/

section Accepted

variable {penv : ParserEnvironment} {data : Json} {overrides : List (String × Json)}
  {accepted : AcceptedStrategy} {marketCalendar : String}

/-- The interval of a timeframe is found under its alias. -/
theorem intervalFor_of_mem {timeframes : Parser.TimeframeDeclaration}
    (h : ParsedTimeframes timeframes) {item : Parser.InformativeTimeframe}
    (hitem : item ∈ timeframes.informative) :
    timeframes.intervalFor item.aliasName = some item.interval := by
  obtain ⟨before, after, hsplit⟩ := List.append_of_mem hitem
  have hparsed := h.informative before item after hsplit
  have hbefore : before.find? (fun other => decide (other.aliasName = item.aliasName)) = none := by
    rw [List.find?_eq_none]
    intro other hother hsame
    exact hparsed.free (.inr (.inl (List.mem_map.mpr ⟨other, hother, of_decide_eq_true hsame⟩)))
  unfold Parser.TimeframeDeclaration.intervalFor
  rw [if_neg fun hprimary => hparsed.free (.inl hprimary), hsplit, List.find?_append, hbefore,
    Option.none_or, List.find?_cons_of_pos (by simp)]
  rfl

/-- The informative timeframes of an accepted definition. -/
structure Declares (accepted : AcceptedStrategy) (item : InformativeTimeframe) : Prop where
  known : item.interval ∈ Parser.intervals
  notPrimary : item.aliasName ≠ "primary"
  interval : (accepted.definition.timeframes.bind fun declared =>
    declared.intervalFor item.aliasName) = some item.interval

theorem declares_of_accepted (h : Parser.parse penv data overrides = .ok (.valid accepted)) :
    ∀ item ∈ (frameSettings accepted marketCalendar).informative, Declares accepted item := by
  intro item hitem
  obtain ⟨entries, -, hstages⟩ := Parser.stages_of_accepted h
  unfold EnricherSettings.informative frameSettings at hitem
  cases htimeframes : accepted.definition.timeframes with
  | none =>
      rw [htimeframes] at hitem
      cases hitem
  | some timeframes =>
      rw [htimeframes] at hitem
      obtain ⟨declared, hdeclared, rfl⟩ := List.mem_map.mp hitem
      have hparsed : ParsedTimeframes timeframes :=
        Parser.parseTimeframes_eq (htimeframes ▸ hstages.timeframes)
      obtain ⟨before, after, hsplit⟩ := List.append_of_mem hdeclared
      have hone := hparsed.informative before declared after hsplit
      refine ⟨hone.known.2, fun hprimary => hone.free (.inl hprimary), ?_⟩
      rw [htimeframes]
      exact intervalFor_of_mem hparsed hdeclared

/-- Timeframes of one alias are one. -/
theorem declared_unique {item other : InformativeTimeframe} (hitem : Declares accepted item)
    (hother : Declares accepted other) (h : item.aliasName = other.aliasName) : item = other := by
  have hinterval := hitem.interval
  rw [h, hother.interval] at hinterval
  cases item
  cases other
  cases h
  cases Option.some.inj hinterval
  rfl

/-- Where an accepted definition puts an indicator. -/
theorem placed_of_accepted (h : Parser.parse penv data overrides = .ok (.valid accepted)) :
    ∀ indicator ∈ accepted.definition.indicators,
      indicator.expectedColumn = Parser.expectedColumn indicator.concreteName
        indicator.timeframe accepted.definition.timeframes ∧
      (indicator.timeframe = "primary" ∨ (accepted.definition.timeframes.bind fun declared =>
        declared.intervalFor indicator.timeframe).isSome) := by
  obtain ⟨entries, -, hstages⟩ := Parser.stages_of_accepted h
  refine Parser.parseIndicators_forall (fun path used raw indicator hindicator => ?_)
    hstages.indicators
  obtain ⟨item, found, column, -, hparsed⟩ := Parser.parseIndicator_eq hindicator
  refine ⟨?_, (Parser.resolveTimeframe_eq.mp hparsed.timeframe).2⟩
  have hexpected := congrArg IndicatorSpec.expectedColumn hparsed.spec
  have hconcrete := congrArg IndicatorSpec.concreteName hparsed.spec
  rw [hexpected, hconcrete]

/-- A primary indicator keeps its name. -/
theorem primary_column (h : Parser.parse penv data overrides = .ok (.valid accepted))
    {indicator : IndicatorSpec} (hmem : indicator ∈ accepted.definition.indicators)
    (hprimary : indicator.timeframe = "primary") :
    indicator.columnName = indicator.concreteName := by
  have hexpected := (placed_of_accepted h indicator hmem).1
  rw [Parser.expectedColumn, if_pos hprimary] at hexpected
  rw [IndicatorSpec.columnName, hexpected, ite_self]

/-- An indicator of an informative timeframe has the suffix of its interval. -/
theorem informative_column (h : Parser.parse penv data overrides = .ok (.valid accepted))
    {indicator : IndicatorSpec} (hmem : indicator ∈ accepted.definition.indicators)
    {item : InformativeTimeframe} (hitem : Declares accepted item)
    (halias : indicator.timeframe = item.aliasName) :
    indicator.columnName = indicator.concreteName ++ ("_" ++ item.interval) := by
  have hexpected := (placed_of_accepted h indicator hmem).1
  have hnonempty : item.interval ≠ "" := fun hempty =>
    absurd (hempty ▸ hitem.known) (by decide)
  rw [halias, Parser.expectedColumn, if_neg hitem.notPrimary, hitem.interval] at hexpected
  simp only [if_neg hnonempty] at hexpected
  have hsuffixed : indicator.concreteName ++ "_" ++ item.interval ≠ "" := by
    simp [hnonempty]
  rw [IndicatorSpec.columnName, hexpected, if_neg hsuffixed, String.append_assoc]

/-- An indicator is primary or of a declared informative timeframe. -/
theorem timeframe_of_accepted (h : Parser.parse penv data overrides = .ok (.valid accepted))
    {indicator : IndicatorSpec} (hmem : indicator ∈ accepted.definition.indicators) :
    indicator.timeframe = "primary" ∨
      ∃ item ∈ (frameSettings accepted marketCalendar).informative,
        indicator.timeframe = item.aliasName := by
  by_cases hprimary : indicator.timeframe = "primary"
  · exact .inl hprimary
  · have hsome := (placed_of_accepted h indicator hmem).2.resolve_left hprimary
    obtain ⟨interval, hinterval⟩ := Option.isSome_iff_exists.mp hsome
    obtain ⟨timeframes, htimeframes, hfor⟩ := Option.bind_eq_some_iff.mp hinterval
    rw [Parser.TimeframeDeclaration.intervalFor, if_neg hprimary] at hfor
    obtain ⟨item, hfind, -⟩ := Option.map_eq_some_iff.mp hfor
    refine .inr ⟨⟨item.aliasName, item.interval⟩, ?_, ?_⟩
    · rw [EnricherSettings.informative, frameSettings, htimeframes]
      exact List.mem_map.mpr ⟨item, List.mem_of_find?_eq_some hfind, rfl⟩
    · have hsame := List.find?_some hfind
      exact (of_decide_eq_true hsame).symm

/-! ## §3 What the enricher is asked for -/

theorem mem_addColumn {columns : List String} {added column : String} :
    column ∈ Parser.addColumn columns added ↔ column ∈ columns ∨ column = added := by
  have h := @Parser.mem_foldl_addColumn [added] columns column
  rw [List.mem_singleton] at h
  exact h

/-- The indicators required of an informative timeframe are those declared on
it. -/
theorem mem_informativeRequired {indicators : List IndicatorSpec} {aliasName name : String} :
    name ∈ ((informativeRequiredIndicators indicators).get aliasName).getD [] ↔
      aliasName ≠ "primary" ∧ ∃ indicator ∈ indicators,
        indicator.timeframe = aliasName ∧ indicator.concreteName = name := by
  unfold informativeRequiredIndicators
  induction indicators using List.reverseRecOn with
  | nil =>
      constructor
      · intro h
        cases h
      · rintro ⟨-, indicator, hmem, -⟩
        cases hmem
  | append_singleton indicators last ih =>
      rw [List.foldl_append, List.foldl_cons, List.foldl_nil]
      by_cases hprimary : last.timeframe = "primary"
      · rw [if_pos hprimary, ih]
        refine and_congr_right fun hne => ?_
        constructor
        · rintro ⟨indicator, hmem, hindicator⟩
          exact ⟨indicator, List.mem_append_left _ hmem, hindicator⟩
        · rintro ⟨indicator, hmem, htimeframe, hname⟩
          rcases List.mem_append.mp hmem with hmem | hmem
          · exact ⟨indicator, hmem, htimeframe, hname⟩
          · obtain rfl := List.mem_singleton.mp hmem
            exact absurd (htimeframe.symm.trans hprimary) hne
      · rw [if_neg hprimary, OrderedDict.get_assign]
        by_cases hlast : last.timeframe = aliasName
        · rw [if_pos hlast, Option.getD_some, mem_addColumn, hlast, ih]
          have hne : aliasName ≠ "primary" := hlast ▸ hprimary
          simp [hne, or_and_right, exists_or, hlast, eq_comm]
        · rw [if_neg hlast, ih]
          simp [or_and_right, exists_or, hlast]

/-- The primary indicators are those declared as primary, and columns without
the suffix of an informative interval. -/
theorem mem_primaryRequired {definition : StrategyDefinition} {columns : List String}
    {column : String} (h : column ∈ Parser.primaryRequiredIndicators penv definition columns) :
    (∃ indicator ∈ definition.indicators,
        indicator.timeframe = "primary" ∧ indicator.concreteName = column) ∨
      Parser.routedColumn (Parser.informativeIntervals definition) column = false := by
  unfold Parser.primaryRequiredIndicators at h
  dsimp only at h
  induction columns using List.reverseRecOn with
  | nil =>
      refine .inl ?_
      rw [List.foldl_nil] at h
      generalize definition.indicators = indicators at h ⊢
      induction indicators using List.reverseRecOn with
      | nil => cases h
      | append_singleton indicators last ih =>
          rw [List.foldl_append, List.foldl_cons, List.foldl_nil] at h
          have hearlier (hmem : column ∈ indicators.foldl (fun required item =>
              if item.timeframe = "primary" then Parser.addColumn required item.concreteName
              else required) []) := ih hmem
          by_cases hprimary : last.timeframe = "primary"
          · rw [if_pos hprimary, mem_addColumn] at h
            rcases h with h | rfl
            · obtain ⟨indicator, hmem, hindicator⟩ := hearlier h
              exact ⟨indicator, List.mem_append_left _ hmem, hindicator⟩
            · exact ⟨last, by simp, hprimary, rfl⟩
          · rw [if_neg hprimary] at h
            obtain ⟨indicator, hmem, hindicator⟩ := hearlier h
            exact ⟨indicator, List.mem_append_left _ hmem, hindicator⟩
  | append_singleton columns last ih =>
      rw [List.foldl_append, List.foldl_cons, List.foldl_nil] at h
      split_ifs at h with hknown hrouted
      · exact ih h
      · exact ih h
      · rcases List.mem_append.mp h with h | h
        · exact ih h
        · obtain rfl := List.mem_singleton.mp h
          exact .inr (Bool.eq_false_iff.mpr hrouted)
      · exact ih h

theorem routed_of_suffixed {intervals : List String} {interval : String}
    (h : interval ∈ intervals) (name : String) :
    Parser.routedColumn intervals (name ++ ("_" ++ interval)) = true := by
  refine List.any_eq_true.mpr ⟨interval, h, ?_⟩
  rw [List.isSuffixOf_iff_suffix]
  exact ⟨name.toList, String.toList_append.symm⟩

theorem primaryRequired_of_validated {definition : StrategyDefinition}
    (h : Parser.validated penv definition = .ok (.valid accepted)) :
    accepted.primaryRequiredIndicators = Parser.primaryRequiredIndicators penv definition
      accepted.requiredColumns := by
  unfold Parser.validated at h
  dsimp only at h
  split at h
  · cases h
  · split at h
    · cases h
    · split at h
      · cases h
      · split at h
        · cases h
        · cases h
          rfl

/-- No required primary indicator is called like the column of an informative
one, unless it is declared so. -/
theorem column_notMem_primaryRequired
    (h : Parser.parse penv data overrides = .ok (.valid accepted))
    {item : InformativeTimeframe}
    (hitem : item ∈ (frameSettings accepted marketCalendar).informative) {name : String}
    (hdeclared : ∀ indicator ∈ accepted.definition.indicators,
      indicator.timeframe = "primary" → indicator.concreteName ≠ name ++ ("_" ++ item.interval)) :
    name ++ ("_" ++ item.interval) ∉ accepted.primaryRequiredIndicators := by
  obtain ⟨entries, -, -, hvalidated⟩ := Parser.parse_eq_valid penv h
  rw [primaryRequired_of_validated hvalidated]
  intro hmem
  rcases mem_primaryRequired hmem with ⟨indicator, hindicator, hprimary, hname⟩ | hrouted
  · exact hdeclared indicator hindicator hprimary hname
  · have hinterval : item.interval ∈ Parser.informativeIntervals accepted.definition := by
      rw [EnricherSettings.informative, frameSettings] at hitem
      unfold Parser.informativeIntervals
      cases htimeframes : accepted.definition.timeframes with
      | none =>
          rw [htimeframes] at hitem
          cases hitem
      | some timeframes =>
          rw [htimeframes] at hitem
          obtain ⟨declared, hfound, rfl⟩ := List.mem_map.mp hitem
          exact List.mem_map.mpr ⟨declared, hfound, rfl⟩
    rw [routed_of_suffixed hinterval] at hrouted
    cases hrouted

/-! ## §4 The tracks of the frame -/

/-- The bars under an alias are its own, as far as they reach the enricher. -/
theorem entriesFor_of_reaches {informativeBars : InformativeBars} {aliasName : String}
    (h : informativeBars.Reaches aliasName) :
    entriesFor (normaliseInformative informativeBars).items aliasName
      = informativeBars.ownBars aliasName := by
  cases informativeBars with
  | absent => rfl
  | flat bars =>
      obtain rfl := h bars rfl
      rfl
  | byAlias bars => rfl

/-- Bars that do not reach the enricher are under no declared alias. -/
theorem notMem_of_not_reaches {informativeBars : InformativeBars} {aliasName : String}
    (h : ¬ informativeBars.Reaches aliasName) :
    aliasName ∉ (normaliseInformative informativeBars).items.map Prod.fst := by
  cases informativeBars with
  | absent => exact fun hmem => nomatch hmem
  | flat bars =>
      intro hmem
      have halias : aliasName = "h1" := List.mem_singleton.mp hmem
      exact h fun _ _ => halias
  | byAlias bars => exact absurd (fun _ hflat => nomatch hflat) h

theorem entriesFor_subset {informativeBars : InformativeBars} {aliasName : String} :
    entriesFor (normaliseInformative informativeBars).items aliasName
      ⊆ informativeBars.ownBars aliasName := by
  by_cases h : informativeBars.Reaches aliasName
  · rw [entriesFor_of_reaches h]
    exact List.Subset.refl _
  · rw [entriesFor_of_not_mem (notMem_of_not_reaches h)]
    exact List.nil_subset _

variable {env : Environment} {settings : EnricherSettings} {item : InformativeTimeframe}
  {track : Track} {informativeBars : InformativeBars}

/-- No bars, no rows. -/
theorem enrichInfo_nil {aliasName : String} {rows : List (Timestamp × Row)}
    (h : enrichInfo env settings aliasName [] = .ok rows) : rows = [] := by
  obtain ⟨engine, -, hrows⟩ := bind_eq_ok.mp h
  exact (Except.ok.inj hrows).symm

/-- The track of a timeframe shows the as-of row of its own bars, if they
reach the enricher. -/
theorem visible_of_reaches
    (htrack : Serving env settings (normaliseInformative informativeBars).items item track)
    (hreaches : informativeBars.Reaches item.aliasName) {t : Timestamp} {own : Option Row}
    (hown : asOfRow env settings item (informativeBars.ownBars item.aliasName) t = .ok own) :
    track.visible t = own := by
  obtain ⟨offset, rows, hoffset, hentries, hrows⟩ := htrack.entries
  obtain ⟨ownRows, hownRows, hown⟩ := bind_eq_ok.mp hown
  obtain ⟨offset', hoffset', hpure⟩ := bind_eq_ok.mp hown
  obtain rfl := Except.ok.inj (hoffset.symm.trans hoffset')
  obtain rfl := Except.ok.inj hpure
  have hsame : rows = ownRows := by
    rw [← entriesFor_of_reaches hreaches] at hownRows
    rcases hrows with ⟨hmissing, rfl⟩ | hrows
    · rw [entriesFor_of_not_mem hmissing] at hownRows
      exact (enrichInfo_nil hownRows).symm
    · exact Except.ok.inj (hrows.symm.trans hownRows)
  rw [Track.visible, hentries, hsame]

/-- Otherwise it shows nothing. -/
theorem visible_of_not_reaches
    (htrack : Serving env settings (normaliseInformative informativeBars).items item track)
    (hreaches : ¬ informativeBars.Reaches item.aliasName) (t : Timestamp) :
    track.visible t = none := by
  obtain ⟨offset, rows, -, hentries, hrows⟩ := htrack.entries
  have hnil : rows = [] := by
    rcases hrows with ⟨-, rfl⟩ | hrows
    · rfl
    · rw [entriesFor_of_not_mem (notMem_of_not_reaches hreaches)] at hrows
      exact enrichInfo_nil hrows
  rw [Track.visible, hentries, hnil]
  rfl

/-- The visible row of a track is the row of one of the bars. -/
theorem visible_covers
    (htrack : Serving env settings (normaliseInformative informativeBars).items item track)
    {t : Timestamp} {infoRow : Row} (hvisible : track.visible t = some infoRow) :
    ∃ bar ∈ informativeBars.ownBars item.aliasName,
      Covers (settings.indicatorsOf item.aliasName) bar infoRow := by
  obtain ⟨offset, rows, -, hentries, hrows⟩ := htrack.entries
  rw [Track.visible, hentries] at hvisible
  obtain ⟨entry, hentry, rfl⟩ := Option.map_eq_some_iff.mp hvisible
  have hmem : entry ∈ available offset rows :=
    (List.mem_filter.mp (List.mem_of_getLast? hentry)).1
  obtain ⟨row, hrow, rfl⟩ := List.mem_map.mp hmem
  rcases hrows with ⟨-, rfl⟩ | hrows
  · cases hrow
  · obtain ⟨bar, hbar, hcovers⟩ := enrichInfo_covers hrows row hrow
    exact ⟨bar, entriesFor_subset hbar, hcovers⟩

/-! ## §5 The columns of the frame -/

/-- Only its own track writes the column of an indicator. -/
theorem writesAt_own (haccepted : Parser.parse penv data overrides = .ok (.valid accepted))
    {primaryBars : List StreamBar}
    (hraw : RawBars accepted.definition primaryBars informativeBars)
    (hapart : KeptApart accepted.definition (frameSettings accepted marketCalendar).informative)
    (hitem : item ∈ (frameSettings accepted marketCalendar).informative)
    {indicator : IndicatorSpec} (hindicator : indicator ∈ accepted.definition.indicators)
    (halias : indicator.timeframe = item.aliasName) {other : InformativeTimeframe}
    (hother : other ∈ (frameSettings accepted marketCalendar).informative)
    (htrack : Serving env (frameSettings accepted marketCalendar)
      (normaliseInformative informativeBars).items other track) {t : Timestamp}
    (hwrites : track.WritesAt t (indicator.concreteName ++ ("_" ++ item.interval))) :
    other = item ∧ indicator.concreteName ∉ ohlcv := by
  obtain ⟨infoRow, hvisible, key, value, hkey, hvalue, hcolumn⟩ := hwrites
  have hdeclared := declares_of_accepted haccepted item hitem
  have hdeclared' := declares_of_accepted haccepted other hother
  rw [htrack.suffix] at hcolumn
  obtain ⟨rfl, hinterval⟩ := suffixed_inj hdeclared'.known hdeclared.known hcolumn
  refine ⟨declared_unique hdeclared' hdeclared ?_, hkey⟩
  obtain ⟨bar, hbar, hcovers⟩ := visible_covers htrack hvisible
  rcases hcovers.only _ _ hvalue with hfield | hname
  · rcases mem_barItems hfield with hohlcv | ⟨field, hextra, hname⟩
    · exact absurd hohlcv hkey
    · exact absurd hname (hraw.informative _ bar hbar field hextra indicator hindicator)
  · obtain ⟨-, same, hsame, htimeframe, hconcrete⟩ := mem_informativeRequired.mp hname
    exact hapart.intervals same hsame indicator hindicator other hother item hitem htimeframe
      halias hconcrete hinterval

/-- The bar's own row does not have the column of an informative indicator. -/
theorem own_get_none (haccepted : Parser.parse penv data overrides = .ok (.valid accepted))
    {primaryBars : List StreamBar}
    (hraw : RawBars accepted.definition primaryBars informativeBars)
    (hapart : KeptApart accepted.definition (frameSettings accepted marketCalendar).informative)
    (hitem : item ∈ (frameSettings accepted marketCalendar).informative)
    {indicator : IndicatorSpec} (hindicator : indicator ∈ accepted.definition.indicators)
    (halias : indicator.timeframe = item.aliasName) {bar : StreamBar}
    (hbar : bar ∈ primaryBars) {row : Row}
    (hcovers : Covers accepted.primaryRequiredIndicators bar row) :
    row.get (indicator.concreteName ++ ("_" ++ item.interval)) = none := by
  have hdeclared := declares_of_accepted haccepted item hitem
  rw [Option.eq_none_iff_forall_not_mem]
  intro value hvalue
  rcases hcovers.only _ value hvalue with hfield | hrequired
  · rcases mem_barItems hfield with hohlcv | ⟨field, hextra, hname⟩
    · exact suffixed_notMem_ohlcv _ _ hohlcv
    · refine hraw.primary bar hbar field hextra indicator hindicator ?_
      rw [hname, informative_column haccepted hindicator hdeclared halias]
  · refine column_notMem_primaryRequired haccepted hitem ?_ hrequired
    intro primary hprimary htimeframe
    rw [← String.append_assoc]
    exact hapart.primary primary hprimary indicator hindicator item hitem htimeframe halias

/-- An indicator whose bars do not reach the enricher, or that is called like a
field of a bar, has no column. -/
theorem get_of_not_delivered
    (haccepted : Parser.parse penv data overrides = .ok (.valid accepted))
    {primaryBars : List StreamBar}
    (hraw : RawBars accepted.definition primaryBars informativeBars)
    (hapart : KeptApart accepted.definition (frameSettings accepted marketCalendar).informative)
    {enricher : Enricher} (hprepared : Prepared env (frameSettings accepted marketCalendar)
      (normaliseInformative informativeBars).items enricher)
    (hitem : item ∈ (frameSettings accepted marketCalendar).informative)
    {indicator : IndicatorSpec} (hindicator : indicator ∈ accepted.definition.indicators)
    (halias : indicator.timeframe = item.aliasName)
    (hlost : ¬ (indicator.concreteName ∉ ohlcv ∧ informativeBars.Reaches item.aliasName))
    {bar : StreamBar} (hbar : bar ∈ primaryBars) {row : Row}
    (hmerges : Merges env (frameSettings accepted marketCalendar) (tracks enricher.info) bar
      row) :
    row.get indicator.columnName = none := by
  obtain ⟨t, own, -, hcovers, rfl⟩ := hmerges
  rw [informative_column haccepted hindicator (declares_of_accepted haccepted item hitem) halias,
    get_mergeTracks_of_not_writes]
  · exact own_get_none haccepted hraw hapart hitem hindicator halias hbar hcovers
  · intro track htrack hwrites
    obtain ⟨other, hother, hserving⟩ := hprepared.serving track htrack
    obtain ⟨rfl, hname⟩ :=
      writesAt_own haccepted hraw hapart hitem hindicator halias hother hserving hwrites
    obtain ⟨infoRow, hvisible, -⟩ := hwrites
    rw [visible_of_not_reaches hserving fun hreaches => hlost ⟨hname, hreaches⟩] at hvisible
    cases hvisible

/-- An indicator whose bars reach the enricher has its as-of values. -/
theorem holdsAsOf_of_reaches
    (haccepted : Parser.parse penv data overrides = .ok (.valid accepted))
    {primaryBars : List StreamBar}
    (hraw : RawBars accepted.definition primaryBars informativeBars)
    (hapart : KeptApart accepted.definition (frameSettings accepted marketCalendar).informative)
    {enricher : Enricher} (hprepared : Prepared env (frameSettings accepted marketCalendar)
      (normaliseInformative informativeBars).items enricher)
    (hitem : item ∈ (frameSettings accepted marketCalendar).informative)
    {indicator : IndicatorSpec} (hindicator : indicator ∈ accepted.definition.indicators)
    (halias : indicator.timeframe = item.aliasName) (hname : indicator.concreteName ∉ ohlcv)
    (hreaches : informativeBars.Reaches item.aliasName) {bar : StreamBar}
    (hbar : bar ∈ primaryBars) {row : Row}
    (hmerges : Merges env (frameSettings accepted marketCalendar) (tracks enricher.info) bar
      row) :
    HoldsAsOf env (frameSettings accepted marketCalendar) item
      (informativeBars.ownBars item.aliasName) indicator bar row := by
  have hdeclared := declares_of_accepted haccepted item hitem
  obtain ⟨t, own, ht, hcovers, rfl⟩ := hmerges
  intro t' asOf ht' hasOf
  obtain rfl := Except.ok.inj (ht.symm.trans ht')
  obtain ⟨track, htrack, htrackAlias⟩ := hprepared.declared item hitem
  obtain ⟨same, hsame, hserving⟩ := hprepared.serving track htrack
  obtain rfl : same = item := declared_unique (declares_of_accepted haccepted same hsame)
    hdeclared (hserving.aliasName.symm.trans htrackAlias)
  have hwriter : ∀ other ∈ tracks enricher.info,
      other.WritesAt t (indicator.concreteName ++ ("_" ++ same.interval)) →
        Serving env (frameSettings accepted marketCalendar)
          (normaliseInformative informativeBars).items same other := by
    intro other hother hwrites
    obtain ⟨declared, hmem, hserves⟩ := hprepared.serving other hother
    obtain ⟨rfl, -⟩ :=
      writesAt_own haccepted hraw hapart hitem hindicator halias hmem hserves hwrites
    exact hserves
  have hvisible := visible_of_reaches hserving hreaches hasOf
  have hnodup : ((tracks enricher.info).map Track.aliasName).Nodup := by
    rw [tracks, List.map_map]
    exact enricher.info.nodup
  rw [informative_column haccepted hindicator hdeclared halias]
  cases asOf with
  | none =>
      rw [get_mergeTracks_of_not_writes]
      · exact own_get_none haccepted hraw hapart hitem hindicator halias hbar hcovers
      · intro other hother hwrites
        have hnone := visible_of_reaches (hwriter other hother hwrites) hreaches hasOf
        obtain ⟨infoRow, hsome, -⟩ := hwrites
        rw [hnone] at hsome
        cases hsome
  | some infoRow =>
      obtain ⟨infoBar, -, hinfo⟩ := visible_covers hserving hvisible
      obtain ⟨value, hvalue⟩ := hinfo.requested indicator.concreteName
        (mem_informativeRequired.mpr ⟨hdeclared.notPrimary, indicator, hindicator, halias, rfl⟩)
      rw [Option.bind_some, hvalue, ← hserving.suffix]
      refine get_mergeTracks_of_writes hnodup htrack (fun other hother hne hwrites => hne ?_)
        hvisible hname hvalue own
      rw [hserving.suffix] at hwrites
      exact (hwriter other hother hwrites).aliasName.trans htrackAlias.symm

/-- Columns that are kept apart differ. -/
theorem apart_of_keptApart
    (haccepted : Parser.parse penv data overrides = .ok (.valid accepted))
    (hapart : KeptApart accepted.definition (frameSettings accepted marketCalendar).informative) :
    ∀ a ∈ accepted.definition.indicators, ∀ b ∈ accepted.definition.indicators,
      a.timeframe ≠ b.timeframe → a.columnName ≠ b.columnName := by
  have hprimary : ∀ a ∈ accepted.definition.indicators, ∀ b ∈ accepted.definition.indicators,
      a.timeframe = "primary" → ∀ item ∈ (frameSettings accepted marketCalendar).informative,
        b.timeframe = item.aliasName → a.columnName ≠ b.columnName := by
    intro a ha b hb hframe item hitem halias
    rw [primary_column haccepted ha hframe,
      informative_column haccepted hb (declares_of_accepted haccepted item hitem) halias,
      ← String.append_assoc]
    exact hapart.primary a ha b hb item hitem hframe halias
  intro a ha b hb hne hcolumn
  rcases timeframe_of_accepted haccepted ha with haFrame | ⟨item, hitem, haFrame⟩
  · rcases timeframe_of_accepted haccepted hb with hbFrame | ⟨other, hother, hbFrame⟩
    · exact hne (haFrame.trans hbFrame.symm)
    · exact hprimary a ha b hb haFrame other hother hbFrame hcolumn
  · rcases timeframe_of_accepted haccepted hb with hbFrame | ⟨other, hother, hbFrame⟩
    · exact hprimary b hb a ha hbFrame item hitem haFrame hcolumn.symm
    · have hdeclared := declares_of_accepted haccepted item hitem
      have hdeclared' := declares_of_accepted haccepted other hother
      rw [informative_column haccepted ha hdeclared haFrame,
        informative_column haccepted hb hdeclared' hbFrame] at hcolumn
      obtain ⟨hname, hinterval⟩ := suffixed_inj hdeclared.known hdeclared'.known hcolumn
      refine hne ?_
      rw [haFrame, hbFrame]
      exact hapart.intervals a ha b hb item hitem other hother haFrame hbFrame hname hinterval

/-- Columns that differ are kept apart. -/
theorem keptApart_of_apart
    (haccepted : Parser.parse penv data overrides = .ok (.valid accepted))
    (hcolumns : ∀ a ∈ accepted.definition.indicators, ∀ b ∈ accepted.definition.indicators,
      a.timeframe ≠ b.timeframe → a.columnName ≠ b.columnName) :
    KeptApart accepted.definition (frameSettings accepted marketCalendar).informative := by
  constructor
  · intro a ha b hb item hitem other hother haFrame hbFrame hname hinterval
    by_contra hne
    refine hcolumns a ha b hb (by rwa [haFrame, hbFrame]) ?_
    rw [informative_column haccepted ha (declares_of_accepted haccepted item hitem) haFrame,
      informative_column haccepted hb (declares_of_accepted haccepted other hother) hbFrame,
      hname, hinterval]
  · intro a ha b hb item hitem haFrame hbFrame hname
    have hdeclared := declares_of_accepted haccepted item hitem
    refine hcolumns a ha b hb ?_ ?_
    · rw [haFrame, hbFrame]
      exact hdeclared.notPrimary.symm
    · rw [primary_column haccepted ha haFrame,
        informative_column haccepted hb hdeclared hbFrame, hname, String.append_assoc]

/-- An element of the first list is related to one of the second in both
ways. -/
theorem exists_of_forall₂ {α β : Type} {R S : α → β → Prop} {as : List α} {bs : List β}
    (hR : List.Forall₂ R as bs) (hS : List.Forall₂ S as bs) {a : α} (ha : a ∈ as) :
    ∃ b, R a b ∧ S a b := by
  induction hR with
  | nil => cases ha
  | cons hhead _ ih =>
      cases hS with
      | cons hhead' htail' =>
          rcases List.mem_cons.mp ha with rfl | ha
          · exact ⟨_, hhead, hhead'⟩
          · exact ih htail' ha

/-- An as-of row of a timeframe has its indicators. -/
theorem asOfRow_get (haccepted : Parser.parse penv data overrides = .ok (.valid accepted))
    (hitem : item ∈ (frameSettings accepted marketCalendar).informative)
    {indicator : IndicatorSpec} (hindicator : indicator ∈ accepted.definition.indicators)
    (halias : indicator.timeframe = item.aliasName) {bars : List StreamBar} {t : Timestamp}
    {infoRow : Row}
    (h : asOfRow env (frameSettings accepted marketCalendar) item bars t = .ok (some infoRow)) :
    ∃ value, infoRow.get indicator.concreteName = some value := by
  obtain ⟨rows, hrows, h⟩ := bind_eq_ok.mp h
  obtain ⟨offset, -, hpure⟩ := bind_eq_ok.mp h
  obtain ⟨entry, hentry, rfl⟩ := Option.map_eq_some_iff.mp (Except.ok.inj hpure)
  have hmem := (List.mem_filter.mp (List.mem_of_getLast? hentry)).1
  obtain ⟨row, hrow, rfl⟩ := List.mem_map.mp hmem
  obtain ⟨bar, -, hcovers⟩ := enrichInfo_covers hrows row hrow
  refine hcovers.requested _ (mem_informativeRequired.mpr ⟨?_, indicator, hindicator, halias, rfl⟩)
  exact (declares_of_accepted haccepted item hitem).notPrimary

/-- **The frame serves every informative timeframe from its own bars** exactly
when no two timeframes share a column and the bars of every timeframe that has
something to show reach the enricher. -/
theorem serves_own_bars_iff
    (haccepted : Parser.parse penv data overrides = .ok (.valid accepted))
    {primaryBars : List StreamBar} {rows : List Row}
    (hraw : RawBars accepted.definition primaryBars informativeBars)
    (hordered : InOrder env primaryBars)
    (hrows : buildCausalFrame env accepted marketCalendar primaryBars informativeBars =
      .ok rows) :
    ServesOwnBars env accepted.definition (frameSettings accepted marketCalendar) primaryBars
        informativeBars rows ↔
      KeptApart accepted.definition (frameSettings accepted marketCalendar).informative ∧
        Delivered env accepted.definition (frameSettings accepted marketCalendar) primaryBars
          informativeBars := by
  obtain ⟨enricher, hprepared, hrun⟩ := causalEnrichBars_prepared hrows
  have hmerges : List.Forall₂ (fun bar row => bar ∈ primaryBars ∧
      Merges env (frameSettings accepted marketCalendar) (tracks enricher.info) bar row)
      primaryBars rows :=
    (List.forall₂_and_left _ _).mpr ⟨fun _ hbar => hbar,
      primaryRows_merges hprepared.engine hordered (fun _ _ t _ => hprepared.fresh t) hrun⟩
  constructor
  · intro hserves
    have hapart : KeptApart accepted.definition
        (frameSettings accepted marketCalendar).informative :=
      keptApart_of_apart haccepted hserves.apart
    refine ⟨hapart, fun item hitem indicator hindicator halias => ?_⟩
    refine or_iff_not_imp_left.mpr fun hlost bar hbar t ht infoRow hown => ?_
    have hholds := hserves.asOf item hitem indicator hindicator halias
    obtain ⟨row, hheld, -, hmerged⟩ := exists_of_forall₂ hholds hmerges hbar
    have hnone := get_of_not_delivered haccepted hraw hapart hprepared hitem hindicator halias
      hlost hbar hmerged
    obtain ⟨value, hvalue⟩ := asOfRow_get haccepted hitem hindicator halias hown
    rw [hheld t _ ht hown, Option.bind_some, hvalue] at hnone
    cases hnone
  · rintro ⟨hapart, hdelivered⟩
    refine ⟨apart_of_keptApart haccepted hapart, fun item hitem indicator hindicator halias => ?_⟩
    refine hmerges.imp fun bar row ⟨hbar, hmerged⟩ => ?_
    by_cases hreached : indicator.concreteName ∉ ohlcv ∧ informativeBars.Reaches item.aliasName
    · exact holdsAsOf_of_reaches haccepted hraw hapart hprepared hitem hindicator halias
        hreached.1 hreached.2 hbar hmerged
    · have hnever := (hdelivered item hitem indicator hindicator halias).resolve_left hreached
      intro t own ht hown
      cases own with
      | none =>
          exact get_of_not_delivered haccepted hraw hapart hprepared hitem hindicator halias
            hreached hbar hmerged
      | some infoRow => exact absurd hown (hnever bar hbar t ht infoRow)

end Accepted

/-! ## §6 Two hourly timeframes -/

/-- A catalog of the two-bar average, which answers as the catalog of the source
does. -/
def averageCatalog : Parser.IndicatorCapabilityProvider where
  resolve type period :=
    match type, period with
    | "sma", .int 2 => some "sma_2"
    | _, _ => none
  requiresPeriod type := decide (type = "sma")
  acceptsPeriod type := decide (type = "sma")
  supportsConcrete name := decide (name = "sma_2")

def averageEnvironment : ParserEnvironment where
  catalog := averageCatalog
  strOf _ := "1.0"

/-- An informative timeframe of hourly bars. -/
def hourly (aliasName symbol : String) : Json :=
  .dict [("alias", .str aliasName), ("interval", .str "1h"), ("symbol", .str symbol)]

/-- The two-bar average of a timeframe. -/
def averageOf (name timeframe : String) : Json :=
  .dict [("name", .str name), ("type", .str "sma"), ("period", .int 2),
    ("timeframe", .str timeframe)]

/-- Enter long above the hourly average. -/
def aboveAverage (informative indicators : List Json) : Json :=
  .dict [("schema_version", .str "2.0"), ("name", .str "above average"),
    ("timeframes", .dict [("primary", .str "5min"), ("informative", .list informative)]),
    ("indicators", .list indicators),
    ("sides", .dict [("long", .dict [("entry", .dict [("condition", .dict
      [("left", .str "close"), ("operator", .str ">"), ("right", .str "btc_average")])])])])]

/-- Two timeframes of one interval, accepted since their symbols differ. -/
def twoSymbols : Json :=
  aboveAverage [hourly "btc" "BTC", hourly "eth" "ETH"]
    [averageOf "btc_average" "btc", averageOf "eth_average" "eth"]

/-- A bar at a time in seconds that trades at one price. -/
def priced (seconds : ℚ) (price : ℚ) : StreamBar where
  openPrice := price
  high := price
  low := price
  close := price
  volume := 10
  timestamp := some (.ofRat seconds)

/-- Two hours of the two symbols: one at 100, one at 10. -/
def twoSymbolBars : InformativeBars :=
  .byAlias (OrderedDict.assignAll {}
    [("btc", [priced 0 100, priced 3600 100]), ("eth", [priced 0 10, priced 3600 10])])

/-- A single timeframe, called `h1`. -/
def oneSymbol : Json :=
  aboveAverage [hourly "h1" "BTC"] [averageOf "btc_average" "h1"]

/-- The number that a row has in a column. -/
def numberIn (column : String) (row : Row) : Option ℚ :=
  match row.get column with
  | some (.num (.fin q)) => some q
  | _ => none

/-- The frame, and what a timeframe has at its bar. -/
def frameAndOwn (accepted : AcceptedStrategy) (informativeBars : InformativeBars)
    (item : InformativeTimeframe) : Except PyError (List Row × Option Row) := do
  let rows ← buildCausalFrame secondsEnvironment accepted "" [priced 7200 100] informativeBars
  let own ← asOfRow secondsEnvironment (frameSettings accepted "") item
    (informativeBars.ownBars item.aliasName) 7200000000000
  return (rows, own)

/-- Bars that carry nothing else are raw. -/
theorem rawBars_of_extra {definition : StrategyDefinition} {primaryBars : List StreamBar}
    {informativeBars : InformativeBars} (hprimary : ∀ bar ∈ primaryBars, bar.extra = [])
    (hinformative : ∀ aliasName, ∀ bar ∈ informativeBars.ownBars aliasName, bar.extra = []) :
    RawBars definition primaryBars informativeBars := by
  constructor
  · intro bar hbar field hfield
    rw [hprimary bar hbar] at hfield
    cases hfield
  · intro aliasName bar hbar field hfield
    rw [hinformative aliasName bar hbar] at hfield
    cases hfield

/-- A list of bars for a timeframe called `h1`. -/
theorem serves_own_bars_hourly :
    ∃ accepted rows, Parser.parse averageEnvironment oneSymbol [] = .ok (.valid accepted) ∧
      buildCausalFrame secondsEnvironment accepted "" [priced 7200 100]
        (.flat [priced 0 100, priced 3600 100]) = .ok rows ∧
      ServesOwnBars secondsEnvironment accepted.definition (frameSettings accepted "")
        [priced 7200 100] (.flat [priced 0 100, priced 3600 100]) rows := by
  obtain ⟨accepted, haccepted, hrun, hapart, hnames⟩ : ∃ accepted,
      Parser.parse averageEnvironment oneSymbol [] = .ok (.valid accepted) ∧
      (buildCausalFrame secondsEnvironment accepted "" [priced 7200 100]
        (.flat [priced 0 100, priced 3600 100])).toBool = true ∧
      KeptApart accepted.definition (frameSettings accepted "").informative ∧
      ∀ item ∈ (frameSettings accepted "").informative,
        item.aliasName = "h1" ∧ ∀ indicator ∈ accepted.definition.indicators,
          indicator.concreteName ∉ ohlcv := by
    refine ⟨_, rfl, ?_, ⟨?_, ?_⟩, ?_⟩
    · decide +kernel
    · decide +kernel
    · decide +kernel
    · decide +kernel
  cases hrows : buildCausalFrame secondsEnvironment accepted "" [priced 7200 100]
      (.flat [priced 0 100, priced 3600 100]) with
  | error e =>
      rw [hrows] at hrun
      cases hrun
  | ok rows =>
      have hplain : ∀ bar ∈ [priced 0 100, priced 3600 100], bar.extra = [] := by decide
      have hraw : RawBars accepted.definition [priced 7200 100]
          (.flat [priced 0 100, priced 3600 100]) :=
        rawBars_of_extra (by decide) fun _ => hplain
      refine ⟨accepted, rows, haccepted, hrows, (serves_own_bars_iff haccepted hraw
        (List.pairwise_singleton _ _) hrows).mpr ⟨hapart, ?_⟩⟩
      intro item hitem indicator hindicator halias
      refine .inl ⟨(hnames item hitem).2 indicator hindicator, fun _ _ => (hnames item hitem).1⟩

/-- **The column of two symbols**: both have hourly bars and the same
indicator, so the frame has the average of the second symbol where that of the
first is expected. -/
theorem two_symbols_share_column :
    ∃ accepted rows own, Parser.parse averageEnvironment twoSymbols [] = .ok (.valid accepted) ∧
      buildCausalFrame secondsEnvironment accepted "" [priced 7200 100] twoSymbolBars
        = .ok rows ∧
      asOfRow secondsEnvironment (frameSettings accepted "") ⟨"btc", "1h"⟩
        (twoSymbolBars.ownBars "btc") 7200000000000 = .ok own ∧
      rows.map (numberIn "sma_2_1h") = [some 10] ∧
      own.bind (numberIn "sma_2") = some 100 ∧
      ¬ ServesOwnBars secondsEnvironment accepted.definition (frameSettings accepted "")
        [priced 7200 100] twoSymbolBars rows := by
  obtain ⟨accepted, haccepted, hshared, hrun⟩ : ∃ accepted,
      Parser.parse averageEnvironment twoSymbols [] = .ok (.valid accepted) ∧
      (∃ a ∈ accepted.definition.indicators, ∃ b ∈ accepted.definition.indicators,
        a.timeframe ≠ b.timeframe ∧ a.columnName = b.columnName) ∧
      Ensures (frameAndOwn accepted twoSymbolBars ⟨"btc", "1h"⟩) fun result =>
        result.1.map (numberIn "sma_2_1h") = [some 10] ∧
          result.2.bind (numberIn "sma_2") = some 100 := by
    refine ⟨_, rfl, ?_, Ensures.of_run ?_⟩
    · decide +kernel
    · decide +kernel
  obtain ⟨⟨rows, own⟩, hrun, hcolumn, hvalue⟩ := hrun
  obtain ⟨rows', hrows, hrun⟩ := bind_eq_ok.mp hrun
  obtain ⟨own', hown, hpure⟩ := bind_eq_ok.mp hrun
  obtain ⟨rfl, rfl⟩ := Prod.mk.inj (Except.ok.inj hpure)
  refine ⟨accepted, rows', own', haccepted, hrows, hown, hcolumn, hvalue, fun hserves => ?_⟩
  obtain ⟨a, ha, b, hb, hne, hsame⟩ := hshared
  exact hserves.apart a ha b hb hne hsame

end Finbar.Parity
