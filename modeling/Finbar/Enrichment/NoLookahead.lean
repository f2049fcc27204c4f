/-
Finbar.Enrichment.NoLookahead — the rows of the causal frame do not depend on later bars.

Two histories that have the same primary bars up to some time, and on every timeframe the
same informative bars that are complete by then, give the same rows for those primary
bars, whatever comes after in either of them: primary bars, informative bars that have
opened and are not complete, and whole aliases of which no bar is complete
(`causalEnrichBars_no_lookahead`). This is for the default mode, which computes every
informative row before the first primary bar.

No `sorry`, no `axiom`.
-/
import Finbar.Enrichment.TrackTheorems

namespace Finbar.Enrichment

open Lib Lib.Python Lib.AsOf Lib.Run Finbar.Streaming

variable {env : Environment} {settings : EnricherSettings}

/-! ## §1 Bars that are complete -/

/-- The bar is complete at `t`: it is available by then. -/
def completeBy (env : Environment) (offset : ℤ) (t : Timestamp) (bar : StreamBar) : Bool :=
  match barOpenTs env bar with
  | .ok openTs => decide (openTs + offset ≤ t)
  | .error _ => false

/-- The rows that are available at `t` are those of the bars that are complete. -/
theorem enrichRows_completeBy {indicators : List String} {engine : Engine}
    {bars : List StreamBar} {rows : List (Timestamp × Row)} {offset : ℤ} {t : Timestamp}
    (h : enrichRows env indicators engine bars = .ok rows)
    (hsorted : Sorted (available offset rows)) :
    enrichRows env indicators engine (bars.filter (completeBy env offset t)) =
      .ok (rows.filter fun row => decide (row.1 + offset ≤ t)) := by
  induction bars generalizing engine rows with
  | nil =>
      obtain rfl := Except.ok.inj h
      rfl
  | cons bar bars ih =>
      obtain ⟨engine', row, isReady, openTs, rows', hrow, hopen, hrest, rfl⟩ := enrichRows_cons h
      obtain ⟨hfirst, hlater⟩ := List.pairwise_cons.mp hsorted
      have hcomplete : completeBy env offset t bar = decide (openTs + offset ≤ t) := by
        unfold completeBy
        rw [hopen]
      by_cases hdue : openTs + offset ≤ t
      · rw [List.filter_cons_of_pos (hcomplete.trans (decide_eq_true hdue)),
          List.filter_cons_of_pos (by simpa using hdue)]
        unfold enrichRows
        simp only [hrow, hopen, ih hrest hlater, bind, Except.bind]
        rfl
      · -- the rows are sorted, so nothing after this bar is complete either
        have hrows : rows'.filter (fun row => decide (row.1 + offset ≤ t)) = [] := by
          refine List.filter_eq_nil_iff.mpr fun e he hle => hdue ?_
          exact (hfirst _ (List.mem_map.mpr ⟨e, he, rfl⟩)).trans (of_decide_eq_true hle)
        have hnone := ih hrest hlater
        rw [hrows] at hnone
        have hbars : bars.filter (completeBy env offset t) = [] := by
          by_contra hsome
          obtain ⟨later, bars', hcons⟩ := List.exists_cons_of_ne_nil hsome
          rw [hcons] at hnone
          obtain ⟨_, _, _, _, _, _, _, _, hnil⟩ := enrichRows_cons hnone
          cases hnil
        rw [List.filter_cons_of_neg (by rw [hcomplete]; simpa using hdue),
          List.filter_cons_of_neg (by simpa using hdue), hbars, hrows]
        rfl

/-! ## §2 Enrichers that agree up to a time -/

/-- The two tracks merge the same columns until `t`. -/
def SameUntil (t : Timestamp) (track track' : Track) : Prop :=
  track.suffix = track'.suffix ∧ ∀ t' ≤ t, track.visible t' = track'.visible t'

/-- The two enrichers give the same rows until `t`. -/
structure AgreeUntil (t : Timestamp) (p p' : Enricher) : Prop where
  engine : p.primaryEngine = p'.primaryEngine
  tracks : List.Forall₂ (SameUntil t) (tracks p.info) (tracks p'.info)

theorem mergeTracks_congr {t t' : Timestamp} (ht : t' ≤ t) {merged merged' : List Track}
    (h : List.Forall₂ (SameUntil t) merged merged') (row : Row) :
    mergeTracks merged t' row = mergeTracks merged' t' row := by
  induction h generalizing row with
  | nil => rfl
  | cons hsame _ ih =>
      unfold mergeTracks
      rw [List.foldl_cons, List.foldl_cons, hsame.1, hsame.2 t' ht]
      exact ih _

/-- A primary bar gets the same row from both. -/
theorem updatePrimary_agree {t t' : Timestamp} {p q p' q' : Enricher} {bar : StreamBar}
    {enriched enriched' : CausalEnrichedBar} (h : AgreeUntil t p p')
    (hopen : barOpenTs env bar = .ok t') (ht : t' ≤ t) (hbehind : AllBehind t' p.info.items)
    (hbehind' : AllBehind t' p'.info.items)
    (hupdate : p.updatePrimary env settings bar = .ok (q, enriched))
    (hupdate' : p'.updatePrimary env settings bar = .ok (q', enriched')) :
    enriched.values = enriched'.values ∧ AgreeUntil t q q' ∧ AllBehind t' q.info.items ∧
      AllBehind t' q'.info.items := by
  obtain ⟨engine, row, isReady, opened, hrow, hparse, rfl, rfl⟩ := updatePrimary_eq_ok hupdate
  obtain ⟨engine', row', isReady', opened', hrow', hparse', rfl, rfl⟩ :=
    updatePrimary_eq_ok hupdate'
  obtain rfl : t' = opened := Except.ok.inj (hopen.symm.trans hparse)
  obtain rfl : t' = opened' := Except.ok.inj (hopen.symm.trans hparse')
  rw [← h.engine, hrow] at hrow'
  obtain ⟨rfl, hpair⟩ := Prod.mk.inj (Except.ok.inj hrow')
  obtain ⟨rfl, rfl⟩ := Prod.mk.inj hpair
  obtain ⟨hmerged, htracks, hall⟩ := foldl_mergeVisible hbehind ([], row) fun _ h => nomatch h
  obtain ⟨hmerged', htracks', hall'⟩ :=
    foldl_mergeVisible hbehind' ([], row) fun _ h => nomatch h
  refine ⟨?_, ⟨rfl, ?_⟩, hall, hall'⟩
  · refine hmerged.trans (Eq.trans ?_ hmerged'.symm)
    exact mergeTracks_congr ht h.tracks row
  · show List.Forall₂ (SameUntil t) (List.map trackOf _) (List.map trackOf _)
    rw [mergeAllVisible, mergeAllVisible, htracks, htracks']
    exact h.tracks

/-- **The rows of the bars until `t`** are the same, whatever follows them. -/
theorem primaryRows_agree {t : Timestamp} {bars later later' : List StreamBar}
    {p p' : Enricher} {rows rows' : List Row} (hordered : InOrder env bars)
    (hbars : ∀ bar ∈ bars, ∀ t', barOpenTs env bar = .ok t' → t' ≤ t)
    (hbehind : ∀ bar ∈ bars, ∀ t', barOpenTs env bar = .ok t' → AllBehind t' p.info.items)
    (hbehind' : ∀ bar ∈ bars, ∀ t', barOpenTs env bar = .ok t' → AllBehind t' p'.info.items)
    (h : AgreeUntil t p p') (hrows : primaryRows env settings p (bars ++ later) = .ok rows)
    (hrows' : primaryRows env settings p' (bars ++ later') = .ok rows') :
    rows.take bars.length = rows'.take bars.length := by
  induction bars generalizing p p' rows rows' with
  | nil => rfl
  | cons bar bars ih =>
      obtain ⟨hfirst, hrest⟩ := List.pairwise_cons.mp hordered
      rw [List.cons_append] at hrows hrows'
      unfold primaryRows at hrows hrows'
      obtain ⟨⟨q, enriched⟩, hupdate, hrows⟩ := bind_eq_ok.mp hrows
      obtain ⟨⟨q', enriched'⟩, hupdate', hrows'⟩ := bind_eq_ok.mp hrows'
      obtain ⟨tail, htail, hpure⟩ := bind_eq_ok.mp hrows
      obtain ⟨tail', htail', hpure'⟩ := bind_eq_ok.mp hrows'
      obtain rfl := Except.ok.inj hpure
      obtain rfl := Except.ok.inj hpure'
      obtain ⟨_, _, _, t', -, hopen, -, -⟩ := updatePrimary_eq_ok hupdate
      obtain ⟨hvalues, hagree, hall, hall'⟩ := updatePrimary_agree h hopen
        (hbars bar List.mem_cons_self t' hopen) (hbehind bar List.mem_cons_self t' hopen)
        (hbehind' bar List.mem_cons_self t' hopen) hupdate hupdate'
      rw [List.length_cons, List.take_succ_cons, List.take_succ_cons, hvalues]
      refine congrArg _ (ih hrest (fun other hother => hbars other (List.mem_cons_of_mem bar hother))
        ?_ ?_ hagree htail htail')
      · intro other hother t'' hopen''
        have hle := hfirst other hother t' t'' hopen hopen''
        exact fun entry hentry => (hall entry hentry).mono hle
      · intro other hother t'' hopen''
        have hle := hfirst other hother t' t'' hopen hopen''
        exact fun entry hentry => (hall' entry hentry).mono hle

/-! ## §3 The seeded enricher -/

/-- The same informative bars are complete at `t`. -/
def SameComplete (env : Environment) (settings : EnricherSettings) (t : Timestamp)
    (items items' : List (String × List StreamBar)) : Prop :=
  ∀ item ∈ settings.informative, ∀ offset, intervalOffset item.interval = .ok offset →
    (entriesFor items item.aliasName).filter (completeBy env offset t) =
      (entriesFor items' item.aliasName).filter (completeBy env offset t)

/-- The rows of an alias that are available at `t`, from the bars that are complete. -/
theorem available_of_filled {item : InformativeTimeframe} {bars : List StreamBar}
    {s p : InfoState} {rows : List (Timestamp × Row)} {offset : ℤ} {engine : Engine}
    {t : Timestamp}
    (hnew : newEngine env none (settings.indicatorsOf item.aliasName) = .ok engine)
    (hfilled : Filled rows s p) (hempty : s.cursor.entries = [])
    (hoffset : s.cursor.offset = offset)
    (hrows : bars = [] ∧ rows = [] ∨ enrichInfo env settings item.aliasName bars = .ok rows) :
    ∃ due, enrichRows env (settings.indicatorsOf item.aliasName) engine
        (bars.filter (completeBy env offset t)) = .ok due ∧
      p.cursor.entries.filter (upTo t) = available offset due := by
  have hentries : p.cursor.entries = available offset rows := by
    rw [hfilled.entries, hempty, hoffset, List.nil_append]
  have hsorted : Sorted (available offset rows) := hentries ▸ p.cursor.sorted
  refine ⟨rows.filter fun row => decide (row.1 + offset ≤ t), ?_, ?_⟩
  · rcases hrows with ⟨rfl, rfl⟩ | hrows
    · rfl
    · obtain ⟨engine', hengine', hrows⟩ := bind_eq_ok.mp hrows
      obtain rfl := Except.ok.inj (hnew.symm.trans hengine')
      exact enrichRows_completeBy hrows hsorted
  · rw [hentries, available, List.filter_map]
    rfl

/-- Two seeded states of one new state agree on what is available at `t`. -/
theorem filter_entries_congr {item : InformativeTimeframe} {s p p' : InfoState}
    {bars bars' : List StreamBar} {rows rows' : List (Timestamp × Row)} {t : Timestamp}
    (hnew : newInfoState env settings item = .ok s) (hfilled : Filled rows s p)
    (hfilled' : Filled rows' s p')
    (hrows : bars = [] ∧ rows = [] ∨ enrichInfo env settings item.aliasName bars = .ok rows)
    (hrows' : bars' = [] ∧ rows' = [] ∨
      enrichInfo env settings item.aliasName bars' = .ok rows')
    (hsame : ∀ offset, intervalOffset item.interval = .ok offset →
      bars.filter (completeBy env offset t) = bars'.filter (completeBy env offset t)) :
    p.cursor.entries.filter (upTo t) = p'.cursor.entries.filter (upTo t) := by
  obtain ⟨started, offset, -, hoffset, rfl⟩ := newInfoState_eq_ok hnew
  by_cases hboth : rows = [] ∧ rows' = []
  · rw [hfilled.entries, hfilled'.entries, hboth.1, hboth.2]
  · obtain ⟨engine, hengine⟩ : ∃ engine,
        newEngine env none (settings.indicatorsOf item.aliasName) = .ok engine := by
      rcases hrows with ⟨-, rfl⟩ | hrows
      · rcases hrows' with ⟨-, rfl⟩ | hrows'
        · exact absurd ⟨rfl, rfl⟩ hboth
        · obtain ⟨engine, hengine, -⟩ := bind_eq_ok.mp hrows'
          exact ⟨engine, hengine⟩
      · obtain ⟨engine, hengine, -⟩ := bind_eq_ok.mp hrows
        exact ⟨engine, hengine⟩
    obtain ⟨due, hdue, hentries⟩ :=
      available_of_filled (t := t) hengine hfilled rfl rfl hrows
    obtain ⟨due', hdue', hentries'⟩ :=
      available_of_filled (t := t) hengine hfilled' rfl rfl hrows'
    rw [hsame offset hoffset, hdue'] at hdue
    obtain rfl := Except.ok.inj hdue
    rw [hentries, hentries']

/-- What is visible until `t` is among what is available at `t`. -/
theorem asOf_congr {entries entries' : List (Timestamp × Row)} {t t' : Timestamp} (ht : t' ≤ t)
    (h : entries.filter (upTo t) = entries'.filter (upTo t)) :
    asOf entries t' = asOf entries' t' := by
  have hearlier : ∀ es : List (Timestamp × Row),
      es.filter (upTo t') = (es.filter (upTo t)).filter (upTo t') := by
    intro es
    rw [List.filter_filter]
    refine List.filter_congr fun e _ => ?_
    rw [Bool.eq_iff_iff, Bool.and_eq_true, upTo_eq_true, upTo_eq_true]
    exact ⟨fun hle => ⟨hle, hle.trans ht⟩, And.left⟩
  unfold asOf
  rw [hearlier entries, hearlier entries', h]

/-- The two enrichers agree until `t`. -/
theorem agreeUntil_of_sameComplete {items items' : List (String × List StreamBar)}
    {s p p' : Enricher} {t : Timestamp} (h : SeededWith env settings items s p)
    (h' : SeededWith env settings items' s p')
    (hsame : SameComplete env settings t items items') : AgreeUntil t p p' := by
  obtain ⟨-, hfrom, -⟩ := create_spec h.created
  refine ⟨h.engine.trans h'.engine.symm, ?_⟩
  unfold tracks
  rw [List.forall₂_map_left_iff, List.forall₂_map_right_iff]
  have hkeys : p.info.keys = p'.info.keys := h.keys.trans h'.keys.symm
  refine (OrderedDict.forall₂_items (R := fun aliasName pInfo pInfo' =>
    SameUntil t (trackOf (aliasName, pInfo)) (trackOf (aliasName, pInfo'))) hkeys ?_).imp
    fun entry entry' hentry => ?_
  · intro aliasName pInfo pInfo' hp hp'
    obtain ⟨sInfo, hs⟩ : ∃ sInfo, s.info.get aliasName = some sInfo := by
      rw [← OrderedDict.mem_keys, ← h.keys, OrderedDict.mem_keys]
      exact ⟨pInfo, hp⟩
    obtain ⟨item, hitem, rfl, hnew⟩ := hfrom aliasName sInfo hs
    obtain ⟨rows, hfilled, hrows⟩ := h.filled _ sInfo pInfo hs hp
    obtain ⟨rows', hfilled', hrows'⟩ := h'.filled _ sInfo pInfo' hs hp'
    refine ⟨hfilled.suffix.trans hfilled'.suffix.symm, fun t' ht => ?_⟩
    exact congrArg (Option.map Prod.snd) (asOf_congr ht (filter_entries_congr hnew hfilled
      hfilled' (hrows.imp_left (And.imp_left entriesFor_of_not_mem))
      (hrows'.imp_left (And.imp_left entriesFor_of_not_mem)) (hsame item hitem)))
  · obtain ⟨name, info⟩ := entry
    obtain ⟨name', info'⟩ := entry'
    obtain ⟨rfl, hsame⟩ := hentry
    exact hsame

/-- A seeded enricher has passed no row. -/
theorem SeededWith.behind {items : List (String × List StreamBar)} {s p : Enricher}
    (h : SeededWith env settings items s p) (t : Timestamp) : AllBehind t p.info.items := by
  obtain ⟨-, hfrom, -⟩ := create_spec h.created
  intro entry hentry
  have hp : p.info.get entry.1 = some entry.2 := OrderedDict.get_of_mem hentry
  obtain ⟨sInfo, hs⟩ : ∃ sInfo, s.info.get entry.1 = some sInfo := by
    rw [← OrderedDict.mem_keys, ← h.keys, OrderedDict.mem_keys]
    exact ⟨_, hp⟩
  obtain ⟨item, -, -, hnew⟩ := hfrom _ sInfo hs
  obtain ⟨rows, hfilled, -⟩ := h.filled _ sInfo _ hs hp
  obtain ⟨engine, offset, -, -, rfl⟩ := newInfoState_eq_ok hnew
  have hzero : entry.2.cursor.visible = 0 := hfilled.visible
  intro e he
  rw [hzero, List.take_zero] at he
  cases he

/-! ## §4 No look-ahead -/

/-- **No look-ahead.** Two histories with the same primary bars until `t` and the same
informative bars complete at `t` have the same rows for those primary bars, whatever else
they hold. -/
theorem causalEnrichBars_no_lookahead {t : Timestamp} {bars later later' : List StreamBar}
    {informativeBars informativeBars' : OrderedDict String (List StreamBar)}
    {rows rows' : List Row} (hordered : InOrder env bars)
    (hbars : ∀ bar ∈ bars, ∀ t', barOpenTs env bar = .ok t' → t' ≤ t)
    (hsame : SameComplete env settings t informativeBars.items informativeBars'.items)
    (h : causalEnrichBars env settings true (bars ++ later) informativeBars = .ok rows)
    (h' : causalEnrichBars env settings true (bars ++ later') informativeBars' = .ok rows') :
    rows.take bars.length = rows'.take bars.length := by
  obtain ⟨s, p, hseeded, hrows⟩ := causalEnrichBars_seeded h
  obtain ⟨s', p', hseeded', hrows'⟩ := causalEnrichBars_seeded h'
  obtain rfl := Except.ok.inj (hseeded.created.symm.trans hseeded'.created)
  exact primaryRows_agree hordered hbars (fun _ _ t' _ => hseeded.behind t')
    (fun _ _ t' _ => hseeded'.behind t') (agreeUntil_of_sameComplete hseeded hseeded' hsame)
    hrows hrows'

/-- A bar three days in: a second history has one more primary bar, and a daily bar that opens
with the first one. -/
theorem causalEnrichBars_no_lookahead_flag :
    ∃ rows rows', causalEnrichBars secondsEnvironment dailySettings true
        ([flagBar 259200 []] ++ []) (OrderedDict.assign {} "daily" flagBars) = .ok rows ∧
      causalEnrichBars secondsEnvironment dailySettings true
        ([flagBar 259200 []] ++ [flagBar 262800 []])
        (OrderedDict.assign {} "daily" (flagBars ++ [flagBar 259200 []])) = .ok rows' ∧
      rows.take 1 = rows'.take 1 := by
  obtain ⟨rows, hrows, -⟩ : Ensures (causalEnrichBars secondsEnvironment dailySettings true
      ([flagBar 259200 []] ++ []) (OrderedDict.assign {} "daily" flagBars)) fun _ => True :=
    Ensures.of_run (by decide +kernel)
  obtain ⟨rows', hrows', -⟩ : Ensures (causalEnrichBars secondsEnvironment dailySettings true
      ([flagBar 259200 []] ++ [flagBar 262800 []])
      (OrderedDict.assign {} "daily" (flagBars ++ [flagBar 259200 []]))) fun _ => True :=
    Ensures.of_run (by decide +kernel)
  refine ⟨rows, rows', hrows, hrows',
    causalEnrichBars_no_lookahead (t := 259200000000000) ?_ ?_ ?_ hrows hrows'⟩
  · exact List.pairwise_singleton _ _
  · intro bar hbar t' hopen
    obtain rfl := List.mem_singleton.mp hbar
    have hparse : barOpenTs secondsEnvironment (flagBar 259200 []) = .ok 259200000000000 := by
      decide +kernel
    exact (Except.ok.inj (hopen.symm.trans hparse)).le
  · intro item hitem offset hoffset
    obtain rfl := List.mem_singleton.mp hitem
    have hday : intervalOffset "1d" = .ok day := by decide +kernel
    obtain rfl := Except.ok.inj (hoffset.symm.trans hday)
    show flagBars.filter _ = (flagBars ++ [flagBar 259200 []]).filter _
    rw [List.filter_append]
    have hopen : completeBy secondsEnvironment day 259200000000000 (flagBar 259200 []) = false := by
      decide +kernel
    rw [List.filter_cons_of_neg (by rw [hopen]; exact Bool.false_ne_true), List.filter_nil,
      List.append_nil]

end Finbar.Enrichment
