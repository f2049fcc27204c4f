/-
Finbar.Enrichment.AheadTheorems — an enricher that is ahead of another.

The parallel mode has appended rows that the sequential one has yet to feed
(`Seeded`, and `Ahead` for all aliases). Between two primary bars they open
later than every primary bar so far, so no lookup reaches them: as long as the
aliases whose bars fall due are declared and have the engine of the worker,
both enrichers return the same rows (`sequentialRows_ahead`).

No `sorry`, no `axiom`.
-/
import Finbar.Enrichment.DueTheorems
import Finbar.Enrichment.SeedingTheorems

namespace Finbar.Enrichment

open Lib Lib.Python Lib.AsOf Lib.Run Finbar.Streaming

variable {env : Environment} {settings : EnricherSettings}

/-! ## §1 One alias -/

/-- The parallel state `p` of an alias holds the rows of the sequential
state `s` and then those of the bars still to be fed. Where the alias is
live, they are the rows that the sequential engine would give. -/
structure Seeded (env : Environment) (settings : EnricherSettings) (aliasName : String)
    (live : Prop) (bars : List StreamBar) (s p : InfoState) : Prop where
  rows : ∃ rows, bars.mapM (barOpenTs env) = .ok (rows.map Prod.fst) ∧
    p.cursor.entries = s.cursor.entries ++ available s.cursor.offset rows ∧
    (live → enrichRows env (settings.indicatorsOf aliasName) s.engine bars = .ok rows)
  offset : p.cursor.offset = s.cursor.offset
  nonneg : 0 ≤ s.cursor.offset
  visible : p.cursor.visible = s.cursor.visible
  suffix : p.suffix = s.suffix

theorem mapM_barOpenTs_cons {bar : StreamBar} {bars : List StreamBar}
    {rows : List (Timestamp × Row)}
    (h : (bar :: bars).mapM (barOpenTs env) = .ok (rows.map Prod.fst)) :
    ∃ openTs row rows', barOpenTs env bar = .ok openTs ∧
      bars.mapM (barOpenTs env) = .ok (rows'.map Prod.fst) ∧ rows = (openTs, row) :: rows' := by
  rw [List.mapM_cons] at h
  obtain ⟨openTs, hopen, h⟩ := bind_eq_ok.mp h
  obtain ⟨opens, hopens, hpure⟩ := bind_eq_ok.mp h
  cases rows with
  | nil => cases hpure
  | cons row rows =>
      obtain ⟨rfl, rfl⟩ := List.cons.inj (Except.ok.inj hpure)
      exact ⟨row.1, row.2, rows, hopen, hopens, rfl⟩

/-- Ingesting the next bar of a live alias appends its row, which the
parallel cursor has already. -/
theorem ingest_seeded {aliasName : String} {live : Prop} {bar : StreamBar}
    {bars : List StreamBar} {s p : InfoState} (hlive : live)
    (h : Seeded env settings aliasName live (bar :: bars) s p) :
    ∃ s', s.ingest env (settings.indicatorsOf aliasName) bar = .ok s' ∧
      Seeded env settings aliasName live bars s' p := by
  obtain ⟨rows, hopens, hentries, hrows⟩ := h.rows
  obtain ⟨engine, row, isReady, openTs, rows', hrow, hopen, hrest, rfl⟩ :=
    enrichRows_cons (hrows hlive)
  obtain ⟨_, _, _, -, hopens', hcons⟩ := mapM_barOpenTs_cons hopens
  obtain rfl := (List.cons.inj hcons).2
  have hsplit : p.cursor.entries = s.cursor.entries
      ++ (openTs + s.cursor.offset, row) :: available s.cursor.offset rows' := hentries
  have hsorted := p.cursor.sorted
  rw [hsplit] at hsorted
  have haccepts : s.cursor.Accepts (openTs + s.cursor.offset) := fun last hlast =>
    (List.pairwise_append.mp hsorted).2.2 last (List.mem_of_getLast? hlast) _
      List.mem_cons_self
  obtain ⟨cursor, hcursor, hentries', hoffset, hvisible, -⟩ :=
    AsOfInformativeCursor.append_spec haccepts row
  refine ⟨{ s with engine := engine, cursor := cursor }, ?_,
    ⟨rows', hopens', ?_, fun _ => hrest⟩, ?_, ?_, ?_, h.suffix⟩
  · unfold InfoState.ingest
    simp only [hrow, hopen, hcursor, bind, Except.bind]
    rfl
  · show _ = cursor.entries ++ available cursor.offset rows'
    rw [hentries', hoffset, hsplit, List.append_assoc]
    rfl
  · exact h.offset.trans hoffset.symm
  · show 0 ≤ cursor.offset
    rw [hoffset]
    exact h.nonneg
  · exact h.visible.trans hvisible.symm

/-- What is still to be fed is not available yet. -/
theorem Seeded.later {aliasName : String} {live : Prop} {bars : List StreamBar}
    {s p : InfoState} {t : Timestamp} (h : Seeded env settings aliasName live bars s p)
    (hleft : leftAt env t bars = bars) :
    ∃ rows, p.cursor.entries = s.cursor.entries ++ available s.cursor.offset rows ∧
      ∀ e ∈ available s.cursor.offset rows, t < e.1 := by
  obtain ⟨rows, hopens, hentries, -⟩ := h.rows
  refine ⟨rows, hentries, ?_⟩
  cases bars with
  | nil =>
      obtain rfl : rows = [] := List.map_eq_nil_iff.mp (Except.ok.inj hopens).symm
      exact fun e he => nomatch he
  | cons bar bars =>
      obtain ⟨openTs, row, rows', hopen, -, rfl⟩ := mapM_barOpenTs_cons hopens
      have hnotDue : opensBy env t bar = false := by
        by_contra hdue
        have hdrop := List.dropWhile_cons_of_pos (p := opensBy env t) (l := bars)
          (Bool.eq_true_of_not_eq_false hdue)
        have hlength := List.length_dropWhile_le (opensBy env t) bars
        unfold leftAt at hleft
        rw [← hdrop, hleft] at hlength
        exact absurd hlength (Nat.not_succ_le_self _)
      have hopensLater : t < openTs := by
        rw [opensBy_of_open hopen] at hnotDue
        exact not_le.mp (of_decide_eq_false hnotDue)
      have hsorted := p.cursor.sorted
      rw [hentries] at hsorted
      have hrowsSorted := (List.pairwise_append.mp hsorted).2.1
      have hfirst : t < openTs + s.cursor.offset :=
        hopensLater.trans_le (Int.le_add_of_nonneg_right h.nonneg)
      intro e he
      rcases List.mem_cons.mp he with rfl | he
      · exact hfirst
      · exact hfirst.trans_le ((List.pairwise_cons.mp hrowsSorted).1 e he)

/-- **A lookup finds the same row in both modes**, and the states stay
related. -/
theorem latestVisibleAt_seeded {aliasName : String} {live : Prop} {bars : List StreamBar}
    {s p : InfoState} {t : Timestamp} (h : Seeded env settings aliasName live bars s p)
    (hleft : leftAt env t bars = bars) :
    (s.cursor.latestVisibleAt t).2 = (p.cursor.latestVisibleAt t).2 ∧
      Seeded env settings aliasName live bars
        { s with cursor := (s.cursor.latestVisibleAt t).1 }
        { p with cursor := (p.cursor.latestVisibleAt t).1 } := by
  obtain ⟨rows, hentries, hlater⟩ := h.later hleft
  have hadvanced : p.cursor.advanced t = s.cursor.advanced t := by
    unfold AsOfInformativeCursor.advanced
    rw [h.visible, hentries, List.drop_append_of_le_length s.cursor.visible_le,
      seen_append_later hlater]
  refine ⟨?_, ⟨h.rows, h.offset, h.nonneg, hadvanced, h.suffix⟩⟩
  have hbound := s.cursor.advanced_le t
  have hs : (s.cursor.latestVisibleAt t).2 = if s.cursor.advanced t = 0 then none
      else (s.cursor.entries[s.cursor.advanced t - 1]?).map Prod.snd := rfl
  have hp : (p.cursor.latestVisibleAt t).2 = if p.cursor.advanced t = 0 then none
      else (p.cursor.entries[p.cursor.advanced t - 1]?).map Prod.snd := rfl
  rw [hs, hp, hadvanced, hentries]
  split
  · rfl
  · rw [List.getElem?_append_left (by omega)]

/-! ## §2 The enrichers between two primary bars -/

/-- The parallel enricher `p` is the sequential one ahead by the bars still
to be fed. -/
structure Ahead (env : Environment) (settings : EnricherSettings) (live : String → Prop)
    (left : String → List StreamBar) (s p : Enricher) : Prop where
  primary : p.primaryEngine = s.primaryEngine
  keys : s.info.keys = p.info.keys
  seeded : ∀ aliasName sInfo pInfo, s.info.get aliasName = some sInfo →
    p.info.get aliasName = some pInfo →
    Seeded env settings aliasName (live aliasName) (left aliasName) sInfo pInfo

/-- No bar of the list is due at `t`. -/
def Dormant (env : Environment) (t : Timestamp) (bars : List StreamBar) : Prop :=
  ∀ bar ∈ bars.head?, ∃ openTs, barOpenTs env bar = .ok openTs ∧ t < openTs

theorem Dormant.leftAt_eq {t : Timestamp} {bars : List StreamBar} (h : Dormant env t bars) :
    leftAt env t bars = bars := by
  cases bars with
  | nil => rfl
  | cons bar bars =>
      obtain ⟨openTs, hopen, hlater⟩ := h bar rfl
      refine List.dropWhile_cons_of_neg ?_
      unfold opensBy
      rw [hopen]
      simpa using hlater

/-- An alias without due bars is left alone, declared or not. -/
theorem feedDue_dormant {t : Timestamp} {bars : List StreamBar} (h : Dormant env t bars)
    (aliasName : String) (enricher : Enricher) :
    feedDue env settings t aliasName enricher bars = .ok (enricher, bars) := by
  cases bars with
  | nil => rfl
  | cons bar bars =>
      obtain ⟨openTs, hopen, hlater⟩ := h bar rfl
      unfold feedDue
      simp only [hopen, bind, Except.bind]
      rw [if_neg (not_le.mpr hlater)]
      rfl

/-- Feeding the due bars of a live alias. -/
theorem feedDue_ahead {t : Timestamp} {aliasName : String} {live : Prop}
    {bars : List StreamBar} {enricher : Enricher} {s p : InfoState} (hlive : live)
    (hget : enricher.info.get aliasName = some s)
    (h : Seeded env settings aliasName live bars s p) :
    ∃ enricher' s', feedDue env settings t aliasName enricher bars
        = .ok (enricher', leftAt env t bars) ∧
      enricher'.primaryEngine = enricher.primaryEngine ∧
      enricher'.info.keys = enricher.info.keys ∧
      enricher'.info.get aliasName = some s' ∧
      (∀ other, aliasName ≠ other → enricher'.info.get other = enricher.info.get other) ∧
      Seeded env settings aliasName live (leftAt env t bars) s' p := by
  induction bars generalizing enricher s with
  | nil => exact ⟨enricher, s, rfl, rfl, rfl, hget, fun _ _ => rfl, h⟩
  | cons bar bars ih =>
      obtain ⟨rows, hopens, -⟩ := h.rows
      obtain ⟨openTs, -, -, hopen, -⟩ := mapM_barOpenTs_cons hopens
      by_cases hdue : openTs ≤ t
      · obtain ⟨s', hs', hseeded⟩ := ingest_seeded hlive h
        have hupdate : enricher.updateInformative env settings aliasName bar
            = .ok { enricher with info := enricher.info.assign aliasName s' } := by
          unfold Enricher.updateInformative
          rw [hget]
          simp only [hs', bind, Except.bind]
          rfl
        have hget' : (enricher.info.assign aliasName s').get aliasName = some s' :=
          OrderedDict.get_assign_self _ _ _
        obtain ⟨enricher', s'', hfeed, hprimary, hkeys, hfound, hothers, hseeded'⟩ :=
          @ih { enricher with info := enricher.info.assign aliasName s' } _ hget' hseeded
        have hleft : leftAt env t (bar :: bars) = leftAt env t bars := by
          refine List.dropWhile_cons_of_pos ?_
          rw [opensBy_of_open hopen]
          exact decide_eq_true hdue
        refine ⟨enricher', s'', ?_, hprimary, ?_, hfound, fun other hother => ?_, ?_⟩
        · unfold feedDue
          simp only [hopen, hupdate, hfeed, hleft, bind, Except.bind]
          exact if_pos hdue
        · rw [hkeys]
          exact OrderedDict.keys_assign_of_get hget s'
        · rw [hothers other hother]
          exact OrderedDict.get_assign_of_ne _ hother s'
        · rw [hleft]
          exact hseeded'
      · have hdormant : Dormant env t (bar :: bars) := by
          intro b hb
          obtain rfl := Option.some.inj hb
          exact ⟨openTs, hopen, not_le.mp hdue⟩
        rw [hdormant.leftAt_eq]
        exact ⟨enricher, s, feedDue_dormant hdormant aliasName enricher, rfl, rfl, hget,
          fun _ _ => rfl, h⟩

/-- What is left of the listed aliases at `t`. -/
def leftAfter (env : Environment) (t : Timestamp) (aliases : List String)
    (left : String → List StreamBar) : String → List StreamBar :=
  fun aliasName =>
    if aliasName ∈ aliases then leftAt env t (left aliasName) else left aliasName

theorem leftAfter_of_mem {t : Timestamp} {aliases : List String} {aliasName : String}
    (h : aliasName ∈ aliases) (left : String → List StreamBar) :
    leftAfter env t aliases left aliasName = leftAt env t (left aliasName) :=
  if_pos h

theorem leftAfter_of_not_mem {t : Timestamp} {aliases : List String} {aliasName : String}
    (h : aliasName ∉ aliases) (left : String → List StreamBar) :
    leftAfter env t aliases left aliasName = left aliasName :=
  if_neg h

/-- One alias first, and then the others. -/
theorem leftAfter_cons {t : Timestamp} {aliases : List String} {aliasName : String}
    (h : aliasName ∉ aliases) (left : String → List StreamBar) :
    leftAfter env t aliases (leftAfter env t [aliasName] left)
      = leftAfter env t (aliasName :: aliases) left := by
  funext other
  by_cases hother : other = aliasName
  · subst hother
    rw [leftAfter_of_not_mem h, leftAfter_of_mem (List.mem_singleton.mpr rfl),
      leftAfter_of_mem List.mem_cons_self]
  · have hnot : other ∉ [aliasName] := fun hmem => hother (List.mem_singleton.mp hmem)
    by_cases hmem : other ∈ aliases
    · rw [leftAfter_of_mem hmem, leftAfter_of_not_mem hnot,
        leftAfter_of_mem (List.mem_cons_of_mem aliasName hmem)]
    · rw [leftAfter_of_not_mem hmem, leftAfter_of_not_mem hnot, leftAfter_of_not_mem]
      exact fun hcons => (List.mem_cons.mp hcons).elim hother hmem

/-- Feeding the due bars of one alias keeps the parallel enricher ahead. -/
theorem Ahead.feedDue {t : Timestamp} {live : String → Prop} {left : String → List StreamBar}
    {s p : Enricher} (h : Ahead env settings live left s p) (aliasName : String)
    (hdormant : aliasName ∉ p.info.keys ∨ ¬ live aliasName → Dormant env t (left aliasName)) :
    ∃ s', Enrichment.feedDue env settings t aliasName s (left aliasName)
        = .ok (s', leftAt env t (left aliasName)) ∧
      Ahead env settings live (leftAfter env t [aliasName] left) s' p := by
  by_cases hquiet : aliasName ∉ p.info.keys ∨ ¬ live aliasName
  · have hnone := hdormant hquiet
    refine ⟨s, ?_, h.primary, h.keys, fun other sInfo pInfo hs hp => ?_⟩
    · rw [hnone.leftAt_eq]
      exact feedDue_dormant hnone aliasName s
    · by_cases hother : other = aliasName
      · subst hother
        rw [leftAfter_of_mem (List.mem_singleton.mpr rfl), hnone.leftAt_eq]
        exact h.seeded other sInfo pInfo hs hp
      · rw [leftAfter_of_not_mem fun hmem => hother (List.mem_singleton.mp hmem)]
        exact h.seeded other sInfo pInfo hs hp
  · rw [not_or, not_not, not_not] at hquiet
    obtain ⟨pInfo, hp⟩ := OrderedDict.mem_keys.mp hquiet.1
    obtain ⟨sInfo, hget⟩ := OrderedDict.mem_keys.mp (h.keys ▸ hquiet.1)
    obtain ⟨s', sInfo', hfeed, hprimary, hkeys, hfound, hothers, hseeded⟩ :=
      feedDue_ahead (t := t) hquiet.2 hget (h.seeded aliasName sInfo pInfo hget hp)
    refine ⟨s', hfeed, h.primary.trans hprimary.symm, hkeys.trans h.keys,
      fun other oInfo qInfo hs hq => ?_⟩
    by_cases hother : aliasName = other
    · subst hother
      obtain rfl := Option.some.inj (hfound.symm.trans hs)
      obtain rfl := Option.some.inj (hp.symm.trans hq)
      rw [leftAfter_of_mem (List.mem_singleton.mpr rfl)]
      exact hseeded
    · rw [hothers other hother] at hs
      rw [leftAfter_of_not_mem fun hmem => hother (List.mem_singleton.mp hmem).symm]
      exact h.seeded other oInfo qInfo hs hq

/-- **Feeding what is due** keeps the parallel enricher ahead. -/
theorem feedAllDue_ahead {t : Timestamp} {live : String → Prop}
    {left : String → List StreamBar} {s p : Enricher}
    (pending : List (String × List StreamBar)) (hnodup : (pending.map Prod.fst).Nodup)
    (hleft : ∀ entry ∈ pending, left entry.1 = entry.2)
    (hdormant : ∀ entry ∈ pending, entry.1 ∉ p.info.keys ∨ ¬ live entry.1 →
      Dormant env t entry.2)
    (h : Ahead env settings live left s p) :
    ∃ s', feedAllDue env settings t s pending
        = .ok (s', pending.map fun entry => (entry.1, leftAt env t entry.2)) ∧
      Ahead env settings live (leftAfter env t (pending.map Prod.fst) left) s' p := by
  induction pending generalizing left s with
  | nil => exact ⟨s, rfl, h⟩
  | cons entry pending ih =>
      obtain ⟨aliasName, bars⟩ := entry
      rw [List.map_cons, List.nodup_cons] at hnodup
      obtain rfl : left aliasName = bars := hleft _ List.mem_cons_self
      -- First this alias: afterwards only its own list has changed.
      obtain ⟨s₁, hfeed, hahead⟩ := h.feedDue aliasName (hdormant _ List.mem_cons_self)
      have hdormant₁ : ∀ entry ∈ pending, entry.1 ∉ p.info.keys ∨ ¬ live entry.1 →
          Dormant env t entry.2 := fun entry hentry => hdormant entry (List.mem_cons_of_mem _ hentry)
      have hleft₁ : ∀ entry ∈ pending, leftAfter env t [aliasName] left entry.1 = entry.2 := by
        intro entry hentry
        have hne : entry.1 ∉ [aliasName] := by
          rw [List.mem_singleton]
          intro heq
          exact hnodup.1 (List.mem_map.mpr ⟨entry, hentry, heq⟩)
        rw [leftAfter_of_not_mem hne]
        exact hleft entry (List.mem_cons_of_mem _ hentry)
      obtain ⟨s₂, hrest, hahead₂⟩ := ih hnodup.2 hleft₁ hdormant₁ hahead
      refine ⟨s₂, ?_, ?_⟩
      · unfold feedAllDue
        simp only [hfeed, hrest, bind, Except.bind, List.map_cons]
        rfl
      · rw [List.map_cons, ← leftAfter_cons hnodup.1]
        exact hahead₂

/-- Entries of the two enrichers, aliases included. -/
def SeededEntry (env : Environment) (settings : EnricherSettings) (live : String → Prop)
    (left : String → List StreamBar) (e e' : String × InfoState) : Prop :=
  e.1 = e'.1 ∧ Seeded env settings e.1 (live e.1) (left e.1) e.2 e'.2

theorem mergeVisible_seeded {t : Timestamp} {live : String → Prop}
    {left : String → List StreamBar}
    (hleft : ∀ aliasName, leftAt env t (left aliasName) = left aliasName)
    {items items' : List (String × InfoState)}
    (h : List.Forall₂ (SeededEntry env settings live left) items items')
    {acc acc' : List (String × InfoState)}
    (hacc : List.Forall₂ (SeededEntry env settings live left) acc acc') (row : Row) :
    List.Forall₂ (SeededEntry env settings live left)
        (items.foldl (mergeVisible t) (acc, row)).1
        (items'.foldl (mergeVisible t) (acc', row)).1 ∧
      (items.foldl (mergeVisible t) (acc, row)).2
        = (items'.foldl (mergeVisible t) (acc', row)).2 := by
  induction h generalizing acc acc' row with
  | nil => exact ⟨hacc, rfl⟩
  | @cons e e' items items' hentry _ ih =>
      obtain ⟨hvisible, hseeded⟩ := latestVisibleAt_seeded hentry.2 (hleft e.1)
      have hmerged : (mergeVisible t (acc, row) e).2 = (mergeVisible t (acc', row) e').2 := by
        unfold mergeVisible
        simp only [hvisible, hentry.2.suffix]
      have hacc' : List.Forall₂ (SeededEntry env settings live left)
          (mergeVisible t (acc, row) e).1 (mergeVisible t (acc', row) e').1 :=
        List.rel_append hacc (.cons ⟨hentry.1, hseeded⟩ .nil)
      have hstep := ih hacc' (mergeVisible t (acc, row) e).2
      rw [List.foldl_cons, List.foldl_cons]
      generalize mergeVisible t (acc, row) e = next at hmerged hstep ⊢
      generalize mergeVisible t (acc', row) e' = next' at hmerged hstep ⊢
      obtain ⟨nextAcc, nextRow⟩ := next
      obtain ⟨nextAcc', nextRow'⟩ := next'
      obtain rfl : nextRow = nextRow' := hmerged
      exact hstep

/-- **A primary bar** gives the same enriched bar, or the same error, in
both modes. -/
theorem updatePrimary_ahead {t : Timestamp} {live : String → Prop}
    {left : String → List StreamBar} {s p : Enricher} {bar : StreamBar}
    (hopen : barOpenTs env bar = .ok t)
    (hleft : ∀ aliasName, leftAt env t (left aliasName) = left aliasName)
    (h : Ahead env settings live left s p) :
    Alike (s.updatePrimary env settings bar) (p.updatePrimary env settings bar) fun r r' =>
      r.2 = r'.2 ∧ r'.1.info.keys = p.info.keys ∧ Ahead env settings live left r.1 r'.1 := by
  unfold Enricher.updatePrimary
  rw [h.primary, hopen]
  cases hrow : enrichBar env s.primaryEngine settings.primaryIndicators bar with
  | error e => exact .raises rfl rfl
  | ok result =>
      obtain ⟨engine, row, isReady⟩ := result
      have hitems : List.Forall₂ (SeededEntry env settings live left) s.info.items p.info.items :=
        OrderedDict.forall₂_items h.keys h.seeded
      obtain ⟨hinfo, hmerged⟩ := mergeVisible_seeded hleft hitems .nil row
      refine .returns rfl rfl ⟨?_, mergeVisible_keys t p.info.items ([], row), ?_⟩
      · simp only [hmerged]
      · obtain ⟨hkeys, hseeded⟩ := OrderedDict.get_of_forall₂
          (d := (mergeAllVisible s.info t row).1)
          (R := fun aliasName sInfo pInfo =>
            Seeded env settings aliasName (live aliasName) (left aliasName) sInfo pInfo)
          (show List.Forall₂ _ _ (mergeAllVisible p.info t row).1.items from hinfo)
        exact ⟨rfl, hkeys, hseeded⟩

/-! ## §3 The loops over the primary bars -/

/-- What a primary bar raises by itself: its row, and then its timestamp.
Otherwise it leaves the primary engine. -/
def primaryStep (env : Environment) (settings : EnricherSettings) (engine : Engine)
    (bar : StreamBar) : Except PyError Engine := do
  let (engine, _, _) ← enrichBar env engine settings.primaryIndicators bar
  let _ ← barOpenTs env bar
  return engine

/-- The primary bars before `bar` raise nothing by themselves, and leave the
engine. -/
def Comes (env : Environment) (settings : EnricherSettings) (start : Engine)
    (bars : List StreamBar) (engine : Engine) (bar : StreamBar) : Prop :=
  ∃ before after, bars = before ++ bar :: after ∧
    before.foldlM (primaryStep env settings) start = .ok engine

theorem comes_head (engine : Engine) (bar : StreamBar) (bars : List StreamBar) :
    Comes env settings engine (bar :: bars) engine bar :=
  ⟨[], bars, rfl, rfl⟩

theorem Comes.cons {start next engine : Engine} {bar bar' : StreamBar}
    {bars : List StreamBar} (hstep : primaryStep env settings start bar = .ok next)
    (h : Comes env settings next bars engine bar') :
    Comes env settings start (bar :: bars) engine bar' := by
  obtain ⟨before, after, rfl, hbefore⟩ := h
  refine ⟨bar :: before, after, rfl, ?_⟩
  rw [List.foldlM_cons, hstep]
  exact hbefore

theorem updatePrimary_step {p p' : Enricher} {bar : StreamBar}
    {enriched : CausalEnrichedBar}
    (h : p.updatePrimary env settings bar = .ok (p', enriched)) :
    primaryStep env settings p.primaryEngine bar = .ok p'.primaryEngine := by
  obtain ⟨engine, row, isReady, t, hrow, hopen, rfl, -⟩ := updatePrimary_eq_ok h
  simp only [primaryStep, hrow, hopen, bind, Except.bind]
  rfl

/-- A bar without a timestamp that fails in one way only. -/
theorem updatePrimary_timestamp {p : Enricher} {bar : StreamBar} {e : PyError}
    (hopen : barOpenTs env bar = .error e)
    (hone : ∀ e', enrichBar env p.primaryEngine settings.primaryIndicators bar = .error e' →
      e = e') :
    p.updatePrimary env settings bar = .error e := by
  unfold Enricher.updatePrimary
  cases hrow : enrichBar env p.primaryEngine settings.primaryIndicators bar with
  | error e' =>
      rw [hone e' hrow]
      rfl
  | ok result => simp only [hopen, bind, Except.bind]

/-- **The loops over the primary bars** give the same rows, or the same
error. -/
theorem sequentialRows_ahead {live : String → Prop} {left : String → List StreamBar}
    {s p : Enricher} {pending : List (String × List StreamBar)} (bars : List StreamBar)
    (hnodup : (pending.map Prod.fst).Nodup)
    (hleft : ∀ entry ∈ pending, left entry.1 = entry.2)
    (hothers : ∀ aliasName, aliasName ∉ pending.map Prod.fst → left aliasName = [])
    (hdormant : ∀ entry ∈ pending, entry.1 ∉ p.info.keys ∨ ¬ live entry.1 →
      ∀ engine bar t, Comes env settings p.primaryEngine bars engine bar →
        barOpenTs env bar = .ok t → Dormant env t entry.2)
    (hone : ∀ engine bar e e', Comes env settings p.primaryEngine bars engine bar →
      barOpenTs env bar = .error e →
      enrichBar env engine settings.primaryIndicators bar = .error e' → e = e')
    (h : Ahead env settings live left s p) :
    sequentialRows env settings s pending bars = primaryRows env settings p bars := by
  induction bars generalizing left s p pending with
  | nil => rfl
  | cons bar bars ih =>
      have hhere := @comes_head env settings p.primaryEngine bar bars
      unfold sequentialRows primaryRows
      cases hopen : barOpenTs env bar with
      | error e =>
          rw [updatePrimary_timestamp hopen fun e' => hone _ bar e e' hhere hopen]
          rfl
      | ok t =>
          obtain ⟨s₁, hfeed, hahead⟩ := feedAllDue_ahead (t := t) pending hnodup hleft
            (fun entry hentry hquiet => hdormant entry hentry hquiet _ bar t hhere hopen) h
          have hidem : ∀ aliasName, leftAt env t
                (leftAfter env t (pending.map Prod.fst) left aliasName)
              = leftAfter env t (pending.map Prod.fst) left aliasName := by
            intro aliasName
            unfold leftAfter
            split
            · exact leftAt_idem t _
            · rw [hothers aliasName ‹_›]
              rfl
          simp only [hfeed, bind, Except.bind]
          cases updatePrimary_ahead hopen hidem hahead with
          | raises hs hp => rw [hs, hp]
          | @returns r r' hs hp hprops =>
              obtain ⟨s', enriched⟩ := r
              obtain ⟨p', enriched'⟩ := r'
              obtain ⟨rfl, hkeys, hahead'⟩ : enriched = enriched' ∧ _ := hprops
              have hstep := updatePrimary_step hp
              rw [hs, hp]
              simp only
              have hsame : (pending.map fun entry => (entry.1, leftAt env t entry.2)).map
                  Prod.fst = pending.map Prod.fst := by
                rw [List.map_map]
                rfl
              rw [ih (by rw [hsame]; exact hnodup) ?_ ?_ ?_ ?_ hahead']
              · intro entry' hentry'
                obtain ⟨entry, hentry, rfl⟩ := List.mem_map.mp hentry'
                rw [leftAfter_of_mem (List.mem_map.mpr ⟨entry, hentry, rfl⟩),
                  hleft entry hentry]
              · intro aliasName hnot
                rw [hsame] at hnot
                rw [leftAfter_of_not_mem hnot]
                exact hothers aliasName hnot
              · intro entry' hentry' hquiet engine bar' t' hcomes ht'
                obtain ⟨entry, hentry, rfl⟩ := List.mem_map.mp hentry'
                rw [hkeys] at hquiet
                have hdormant' := hdormant entry hentry hquiet
                show Dormant env t' (leftAt env t entry.2)
                rw [(hdormant' _ bar t hhere hopen).leftAt_eq]
                exact hdormant' engine bar' t' (hcomes.cons hstep) ht'
              · exact fun engine bar' e e' hcomes => hone engine bar' e e' (hcomes.cons hstep)

end Finbar.Enrichment
