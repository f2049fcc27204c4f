/-
Finbar.Enrichment.TrackTheorems — what the rows of an enriched frame hold.

Once the cursors are seeded, an informative alias contributes to the primary
rows through three things only: its suffix, the names of its columns and its
rows with the times from which they are available (`Track`). A primary row is
the bar's own row with the visible row of each track merged into it, in the
order of the tracks, so a column is the one of the last track that writes it.

No `sorry`, no `axiom`.
-/
import Finbar.Enrichment.SeedingTheorems

namespace Finbar.Enrichment

open Lib Lib.Python Lib.AsOf Lib.Run Finbar.Streaming

/-! ## §1 The columns of a row -/

/-- The row of a bar has the requested columns, and no others than those and
the entries of the bar. -/
structure Covers (indicators : List String) (bar : StreamBar) (row : Row) : Prop where
  requested : ∀ name ∈ indicators, ∃ value, row.get name = some value
  only : ∀ name value, row.get name = some value →
    name ∈ (barItems bar).map Prod.fst ∨ name ∈ indicators

theorem get_assignAll_empty_of_not_mem {items : List (String × PyValue)} {name : String}
    (h : name ∉ items.map Prod.fst) :
    (OrderedDict.assignAll {} items : OrderedDict String PyValue).get name = none :=
  OrderedDict.get_assignAll_of_not_mem h {}

/-- The requested columns are the given values and the requested names. -/
theorem mem_withRequestedColumns {values : List (String × PyValue)} {names : List String}
    (hvalues : ∀ value ∈ values, value.1 ∈ names) {name : String} :
    name ∈ (withRequestedColumns values names).keys ↔ name ∈ names := by
  rw [OrderedDict.mem_keys]
  constructor
  · rintro ⟨value, hvalue⟩
    by_contra hname
    have hlater : name ∉ values.map Prod.fst := fun hmem => by
      obtain ⟨entry, hentry, rfl⟩ := List.mem_map.mp hmem
      exact hname (hvalues entry hentry)
    rw [withRequestedColumns, OrderedDict.get_assignAll_of_not_mem hlater,
      get_assignAll_empty_of_not_mem (by simpa using hname)] at hvalue
    cases hvalue
  · intro hname
    have hfirst : name ∈ (OrderedDict.assignAll {} (names.map fun name => (name, nan)) :
        OrderedDict String PyValue).keys := OrderedDict.mem_keys.mpr
      (OrderedDict.get_assignAll_of_mem_keys (by simpa using hname) {})
    by_cases hlater : name ∈ values.map Prod.fst
    · exact OrderedDict.get_assignAll_of_mem_keys hlater _
    · rw [withRequestedColumns, OrderedDict.get_assignAll_of_not_mem hlater]
      exact OrderedDict.mem_keys.mp hfirst

theorem covers_buildRow {values : List (String × PyValue)} {indicators : List String}
    (hvalues : ∀ value ∈ values, value.1 ∈ indicators) (bar : StreamBar) :
    Covers indicators bar (buildRow bar (withRequestedColumns values indicators)) := by
  constructor
  · intro name hname
    exact OrderedDict.get_assignAll_of_mem_keys ((mem_withRequestedColumns hvalues).mpr hname) _
  · intro name value hvalue
    by_contra hname
    rw [not_or] at hname
    have hlater : name ∉ (withRequestedColumns values indicators).items.map Prod.fst :=
      fun hmem => hname.2 ((mem_withRequestedColumns hvalues).mp hmem)
    rw [buildRow, OrderedDict.get_assignAll_of_not_mem hlater,
      get_assignAll_empty_of_not_mem hname.1] at hvalue
    cases hvalue

/-- An update returns the snapshot that the engine keeps. -/
theorem update_latest {rt : Runtime} {engine engine' : Engine} {bar : StreamBar}
    {latest : LatestBar} (h : engine.update rt bar = (engine', .ok latest)) :
    engine'.latest = latest := by
  unfold Engine.update at h
  simp only at h
  split at h
  · cases h
  · split at h
    · cases h
    · split at h
      · cases h
      · cases h
        rfl

variable {env : Environment} {settings : EnricherSettings}

/-- The row that an engine of these indicators makes of a bar. -/
theorem enrichBar_covers {engine engine' : Engine} {indicators : List String}
    {bar : StreamBar} {row : Row} {isReady : Bool} (hengine : engine.indicators = indicators)
    (h : enrichBar env engine indicators bar = .ok (engine', row, isReady)) :
    engine'.indicators = indicators ∧ Covers indicators bar row := by
  unfold enrichBar at h
  cases hupdate : engine.update env.runtime bar with
  | mk updated result =>
      rw [hupdate] at h
      cases result with
      | error e => cases h
      | ok latest =>
          cases h
          have hfed := update_fed hupdate
          refine ⟨hfed.indicators.trans hengine, covers_buildRow (fun value hvalue => ?_) bar⟩
          rw [← update_latest hupdate, hfed.latest, if_neg (List.cons_ne_nil bar []),
            Engine.snapshot, hfed.indicators, hengine] at hvalue
          obtain ⟨name, hname, hread⟩ := List.mem_filterMap.mp hvalue
          obtain ⟨read, -, rfl⟩ := Option.map_eq_some_iff.mp hread
          exact hname

/-- Every row of an alias is the row of one of its bars. -/
theorem enrichRows_covers {engine : Engine} {indicators : List String} {bars : List StreamBar}
    {rows : List (Timestamp × Row)} (hengine : engine.indicators = indicators)
    (h : enrichRows env indicators engine bars = .ok rows) :
    ∀ entry ∈ rows, ∃ bar ∈ bars, Covers indicators bar entry.2 := by
  induction bars generalizing engine rows with
  | nil =>
      obtain rfl := Except.ok.inj h
      exact fun _ hentry => nomatch hentry
  | cons bar bars ih =>
      obtain ⟨engine', row, isReady, openTs, rows', hrow, -, hrest, rfl⟩ := enrichRows_cons h
      obtain ⟨hengine', hcovers⟩ := enrichBar_covers hengine hrow
      intro entry hentry
      rcases List.mem_cons.mp hentry with rfl | hentry
      · exact ⟨bar, List.mem_cons_self, hcovers⟩
      · obtain ⟨later, hlater, hcovers⟩ := ih hengine' hrest entry hentry
        exact ⟨later, List.mem_cons_of_mem bar hlater, hcovers⟩

theorem newEngine_indicators {windowResolver : Option (String → Except PyError (Option ℕ))}
    {indicators : List String} {engine : Engine}
    (h : newEngine env windowResolver indicators = .ok engine) :
    engine.indicators = indicators :=
  (create_created h).indicators

/-- The rows of an alias have its columns. -/
theorem enrichInfo_covers {aliasName : String} {bars : List StreamBar}
    {rows : List (Timestamp × Row)} (h : enrichInfo env settings aliasName bars = .ok rows) :
    ∀ entry ∈ rows, ∃ bar ∈ bars, Covers (settings.indicatorsOf aliasName) bar entry.2 := by
  obtain ⟨engine, hengine, hrows⟩ := bind_eq_ok.mp h
  exact enrichRows_covers (newEngine_indicators hengine) hrows

/-! ## §2 Tracks -/

/-- What an informative alias contributes to the primary rows. -/
structure Track where
  aliasName : String
  suffix : String
  /-- Its rows, with the timestamps from which they are available. -/
  entries : List (Timestamp × Row)

/-- The track of the state of an alias. -/
def trackOf (entry : String × InfoState) : Track where
  aliasName := entry.1
  suffix := entry.2.suffix
  entries := entry.2.cursor.entries

/-- The tracks of an enricher, in the order in which they are merged. -/
def tracks (info : OrderedDict String InfoState) : List Track :=
  info.items.map trackOf

/-- The last row available at `t`. -/
def Track.visible (track : Track) (t : Timestamp) : Option Row :=
  (asOf track.entries t).map Prod.snd

/-- A row with what is visible at `t` merged into it. -/
def mergeTracks (tracks : List Track) (t : Timestamp) (row : Row) : Row :=
  tracks.foldl (fun merged track => attach merged (track.visible t) track.suffix) row

/-- No cursor has passed a row that is not visible at `t`. -/
def AllBehind (t : Timestamp) (items : List (String × InfoState)) : Prop :=
  ∀ entry ∈ items, entry.2.cursor.Behind t

/-- Looking up every alias merges the tracks, and keeps them. -/
theorem foldl_mergeVisible {t : Timestamp} {items : List (String × InfoState)}
    (hitems : AllBehind t items) (acc : List (String × InfoState) × Row)
    (hacc : AllBehind t acc.1) :
    (items.foldl (mergeVisible t) acc).2 = mergeTracks (items.map trackOf) t acc.2 ∧
      (items.foldl (mergeVisible t) acc).1.map trackOf
        = acc.1.map trackOf ++ items.map trackOf ∧
      AllBehind t (items.foldl (mergeVisible t) acc).1 := by
  induction items generalizing acc with
  | nil => exact ⟨rfl, (List.append_nil _).symm, hacc⟩
  | cons entry items ih =>
      obtain ⟨hanswer, hbehind, -, -⟩ :=
        AsOfInformativeCursor.latestVisibleAt_spec (hitems entry List.mem_cons_self)
      have hmerged : (mergeVisible t acc entry).2
          = attach acc.2 ((trackOf entry).visible t) entry.2.suffix := by
        rw [Track.visible, trackOf, ← hanswer]
        rfl
      have htrack : (mergeVisible t acc entry).1.map trackOf
          = acc.1.map trackOf ++ [trackOf entry] := List.map_append
      have hkept : AllBehind t (mergeVisible t acc entry).1 := by
        intro kept hkeptMem
        rcases List.mem_append.mp hkeptMem with hmem | hmem
        · exact hacc kept hmem
        · obtain rfl := List.mem_singleton.mp hmem
          exact hbehind
      obtain ⟨hrow, htracks, hall⟩ :=
        ih (fun other hother => hitems other (List.mem_cons_of_mem entry hother)) _ hkept
      refine ⟨?_, ?_, hall⟩
      · rw [List.foldl_cons, hrow, hmerged]
        rfl
      · rw [List.foldl_cons, htracks, htrack, List.append_assoc]
        rfl

/-- A primary bar merges the tracks into its own row. -/
theorem updatePrimary_tracks {enricher enricher' : Enricher} {bar : StreamBar}
    {enriched : CausalEnrichedBar} {t : Timestamp} (ht : barOpenTs env bar = .ok t)
    (hengine : enricher.primaryEngine.indicators = settings.primaryIndicators)
    (hbehind : AllBehind t enricher.info.items)
    (h : enricher.updatePrimary env settings bar = .ok (enricher', enriched)) :
    (∃ row, Covers settings.primaryIndicators bar row ∧
        enriched.values = mergeTracks (tracks enricher.info) t row) ∧
      enricher'.primaryEngine.indicators = settings.primaryIndicators ∧
      tracks enricher'.info = tracks enricher.info ∧ AllBehind t enricher'.info.items := by
  obtain ⟨engine, row, isReady, t', hrow, ht', rfl, rfl⟩ := updatePrimary_eq_ok h
  obtain rfl : t = t' := Except.ok.inj (ht.symm.trans ht')
  obtain ⟨hengine', hcovers⟩ := enrichBar_covers hengine hrow
  obtain ⟨hmerged, htracks, hall⟩ := foldl_mergeVisible hbehind ([], row) fun _ h => nomatch h
  exact ⟨⟨row, hcovers, hmerged⟩, hengine', htracks, hall⟩

/-- How a row of the frame comes from its bar. -/
def Merges (env : Environment) (settings : EnricherSettings) (merged : List Track)
    (bar : StreamBar) (row : Row) : Prop :=
  ∃ t own, barOpenTs env bar = .ok t ∧ Covers settings.primaryIndicators bar own ∧
    row = mergeTracks merged t own

/-- The opens of the bars do not decrease. -/
def InOrder (env : Environment) (bars : List StreamBar) : Prop :=
  bars.Pairwise fun earlier later => ∀ t t', barOpenTs env earlier = .ok t →
    barOpenTs env later = .ok t' → t ≤ t'

/-- **Every row of a run** is the row of its bar with the tracks merged. -/
theorem primaryRows_merges {bars : List StreamBar} {enricher : Enricher} {rows : List Row}
    (hengine : enricher.primaryEngine.indicators = settings.primaryIndicators)
    (hordered : InOrder env bars)
    (hbehind : ∀ bar ∈ bars, ∀ t, barOpenTs env bar = .ok t →
      AllBehind t enricher.info.items)
    (h : primaryRows env settings enricher bars = .ok rows) :
    List.Forall₂ (Merges env settings (tracks enricher.info)) bars rows := by
  induction bars generalizing enricher rows with
  | nil =>
      obtain rfl := Except.ok.inj h
      exact .nil
  | cons bar bars ih =>
      obtain ⟨hfirst, hrest⟩ := List.pairwise_cons.mp hordered
      unfold primaryRows at h
      obtain ⟨⟨enricher', enriched⟩, hupdate, h⟩ := bind_eq_ok.mp h
      obtain ⟨rows', hrows, hpure⟩ := bind_eq_ok.mp h
      obtain rfl := Except.ok.inj hpure
      obtain ⟨t, ht⟩ : ∃ t, barOpenTs env bar = .ok t := by
        obtain ⟨_, -, hparse⟩ := bind_eq_ok.mp hupdate
        obtain ⟨t, ht, -⟩ := bind_eq_ok.mp hparse
        exact ⟨t, ht⟩
      obtain ⟨⟨own, hcovers, hvalues⟩, hengine', htracks, hall⟩ :=
        updatePrimary_tracks ht hengine (hbehind bar List.mem_cons_self t ht) hupdate
      refine .cons ⟨t, own, ht, hcovers, hvalues⟩ ?_
      rw [← htracks]
      refine ih hengine' hrest (fun later hlater t' ht' => ?_) hrows
      exact fun entry hentry => (hall entry hentry).mono (hfirst later hlater t t' ht ht')

/-! ## §3 Who writes a column -/

/-- Merging the row assigns the column. -/
def Writes (infoRow : Row) (suffix column : String) : Prop :=
  ∃ key value, key ∉ ohlcv ∧ infoRow.get key = some value ∧ key ++ suffix = column

theorem get_mergeInformative_of_not_writes {infoRow : Row} {suffix column : String}
    (h : ¬ Writes infoRow suffix column) (merged : Row) :
    (mergeInformative merged infoRow suffix).get column = merged.get column := by
  rw [mergeInformative_eq]
  refine OrderedDict.get_assignAll_of_not_mem (fun hmem => h ?_) merged
  obtain ⟨written, hwritten, rfl⟩ := List.mem_map.mp hmem
  obtain ⟨⟨key, value⟩, hentry, rfl⟩ := List.mem_map.mp hwritten
  obtain ⟨hentry, hkey⟩ := List.mem_filter.mp hentry
  exact ⟨key, value, of_decide_eq_true hkey, OrderedDict.get_of_mem hentry, rfl⟩

/-- The visible row of the track writes the column at `t`. -/
def Track.WritesAt (track : Track) (t : Timestamp) (column : String) : Prop :=
  ∃ infoRow, track.visible t = some infoRow ∧ Writes infoRow track.suffix column

/-- A column that no track writes is the one of the bar's own row. -/
theorem get_mergeTracks_of_not_writes {merged : List Track} {t : Timestamp} {column : String}
    (h : ∀ track ∈ merged, ¬ track.WritesAt t column) (row : Row) :
    (mergeTracks merged t row).get column = row.get column := by
  induction merged generalizing row with
  | nil => rfl
  | cons track merged ih =>
      have hrest := ih (fun other hother => h other (List.mem_cons_of_mem track hother))
        (attach row (track.visible t) track.suffix)
      refine hrest.trans ?_
      cases hvisible : track.visible t with
      | none => rfl
      | some infoRow =>
          exact get_mergeInformative_of_not_writes
            (fun hwrites => h track List.mem_cons_self ⟨infoRow, hvisible, hwrites⟩) row

/-- A column that one track alone writes has the value of its visible row. -/
theorem get_mergeTracks_of_writes {merged : List Track} {track : Track} {t : Timestamp}
    {infoRow : Row} {key : String} {value : PyValue}
    (hnodup : (merged.map Track.aliasName).Nodup) (htrack : track ∈ merged)
    (hothers : ∀ other ∈ merged, other.aliasName ≠ track.aliasName →
      ¬ other.WritesAt t (key ++ track.suffix))
    (hvisible : track.visible t = some infoRow) (hkey : key ∉ ohlcv)
    (hvalue : infoRow.get key = some value) (row : Row) :
    (mergeTracks merged t row).get (key ++ track.suffix) = some value := by
  obtain ⟨before, after, rfl⟩ := List.append_of_mem htrack
  have hafter : ∀ other ∈ after, other.aliasName ≠ track.aliasName := by
    rw [List.map_append, List.map_cons] at hnodup
    have hhead := (List.nodup_cons.mp (List.nodup_append.mp hnodup).2.1).1
    exact fun other hother hsame => hhead (List.mem_map.mpr ⟨other, hother, hsame⟩)
  have hsplit : mergeTracks (before ++ track :: after) t row
      = mergeTracks after t (attach (mergeTracks before t row) (track.visible t)
        track.suffix) := by
    rw [mergeTracks, List.foldl_append]
    rfl
  rw [hsplit, get_mergeTracks_of_not_writes fun other hother =>
      hothers other (by simp [hother]) (hafter other hother), hvisible]
  exact get_mergeInformative hkey hvalue

/-! ## §4 The seeded enricher -/

/-- The track of a declared timeframe: its rows are those of the bars given
under its alias. -/
structure Serving (env : Environment) (settings : EnricherSettings)
    (items : List (String × List StreamBar)) (item : InformativeTimeframe) (track : Track) :
    Prop where
  aliasName : track.aliasName = item.aliasName
  suffix : track.suffix = "_" ++ item.interval
  entries : ∃ offset rows, intervalOffset item.interval = .ok offset ∧
    track.entries = available offset rows ∧
    (item.aliasName ∉ items.map Prod.fst ∧ rows = [] ∨
      enrichInfo env settings item.aliasName (entriesFor items item.aliasName) = .ok rows)

/-- The enricher before the first primary bar. -/
structure Prepared (env : Environment) (settings : EnricherSettings)
    (items : List (String × List StreamBar)) (enricher : Enricher) : Prop where
  engine : enricher.primaryEngine.indicators = settings.primaryIndicators
  fresh : ∀ t, AllBehind t enricher.info.items
  declared : ∀ item ∈ settings.informative, ∃ track ∈ tracks enricher.info,
    track.aliasName = item.aliasName
  serving : ∀ track ∈ tracks enricher.info, ∃ item ∈ settings.informative,
    Serving env settings items item track

/-- A seeded enricher is prepared. -/
theorem SeededWith.prepared {items : List (String × List StreamBar)} {s p : Enricher}
    (h : SeededWith env settings items s p) : Prepared env settings items p := by
  obtain ⟨hengine, hfrom, hdeclared⟩ := create_spec h.created
  have horigin : ∀ entry ∈ p.info.items, ∃ item ∈ settings.informative, ∃ sInfo rows,
      item.aliasName = entry.1 ∧ newInfoState env settings item = .ok sInfo ∧
      Filled rows sInfo entry.2 ∧ (entry.1 ∉ items.map Prod.fst ∧ rows = [] ∨
        enrichInfo env settings entry.1 (entriesFor items entry.1) = .ok rows) := by
    intro entry hentry
    have hget : p.info.get entry.1 = some entry.2 := OrderedDict.get_of_mem hentry
    have hkey : entry.1 ∈ s.info.keys := by
      rw [← h.keys]
      exact OrderedDict.mem_keys.mpr ⟨_, hget⟩
    obtain ⟨sInfo, hsInfo⟩ := OrderedDict.mem_keys.mp hkey
    obtain ⟨item, hitem, halias, hnew⟩ := hfrom _ _ hsInfo
    obtain ⟨rows, hfilled, hrows⟩ := h.filled _ _ _ hsInfo hget
    exact ⟨item, hitem, sInfo, rows, halias, hnew, hfilled, hrows⟩
  refine ⟨?_, fun t entry hentry => ?_, fun item hitem => ?_, fun track htrack => ?_⟩
  · rw [h.engine]
    exact newEngine_indicators hengine
  · obtain ⟨item, -, sInfo, rows, -, hnew, hfill, -⟩ := horigin entry hentry
    obtain ⟨engine, offset, -, -, rfl⟩ := newInfoState_eq_ok hnew
    have hzero : entry.2.cursor.visible = 0 := hfill.visible
    intro e he
    rw [hzero, List.take_zero] at he
    cases he
  · have hkey : item.aliasName ∈ p.info.keys := by
      rw [h.keys]
      exact hdeclared _ ⟨item, hitem, rfl⟩
    obtain ⟨state, hstate⟩ := OrderedDict.mem_keys.mp hkey
    exact ⟨_, List.mem_map.mpr ⟨_, OrderedDict.mem_of_get hstate, rfl⟩, rfl⟩
  · obtain ⟨entry, hentry, rfl⟩ := List.mem_map.mp htrack
    obtain ⟨item, hitem, sInfo, rows, halias, hnew, hfill, hrows⟩ := horigin entry hentry
    obtain ⟨engine, offset, -, hoffset, rfl⟩ := newInfoState_eq_ok hnew
    refine ⟨item, hitem, halias.symm, hfill.suffix, offset, rows, hoffset, hfill.entries, ?_⟩
    rw [halias]
    exact hrows

/-- **What `causal_enrich_bars` does**, in its default mode: it prepares an
enricher and updates it with the primary bars. -/
theorem causalEnrichBars_prepared {primaryBars : List StreamBar}
    {informativeBars : OrderedDict String (List StreamBar)} {rows : List Row}
    (h : causalEnrichBars env settings true primaryBars informativeBars = .ok rows) :
    ∃ p, Prepared env settings informativeBars.items p ∧
      primaryRows env settings p primaryBars = .ok rows := by
  obtain ⟨s, p, hseeded, hrows⟩ := causalEnrichBars_seeded h
  exact ⟨p, hseeded.prepared, hrows⟩

end Finbar.Enrichment
