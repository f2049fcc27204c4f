/-
Finbar.Enrichment.SeedingTheorems — the enricher as it is created, and what
seeding its cursors does.

Each informative state is that of a declared timeframe. Seeding appends the
rows of an alias to its cursor, and returns exactly when they are in order.
Computing and seeding all rows up front raises the first fault of the aliases,
the constructor and the order of the bars (`seedUpFront_error_iff`).

No `sorry`, no `axiom`.
-/
import Finbar.Enrichment.MergeTheorems

namespace Finbar.Enrichment

open Lib Lib.Python Lib.AsOf Lib.Run Finbar.Streaming

variable {env : Environment} {settings : EnricherSettings}

/-! ## §1 The enricher as it is created -/

/-- Each state comes from a declared timeframe, and each declared timeframe
has a state. -/
theorem foldlM_addInfoState {items : List InformativeTimeframe}
    {info info' : OrderedDict String InfoState}
    (h : items.foldlM (addInfoState env settings) info = .ok info') :
    (∀ aliasName state, info'.get aliasName = some state →
      info.get aliasName = some state ∨
        ∃ item ∈ items, item.aliasName = aliasName ∧
          newInfoState env settings item = .ok state) ∧
    (∀ aliasName, aliasName ∈ info.keys ∨ (∃ item ∈ items, item.aliasName = aliasName) →
      aliasName ∈ info'.keys) := by
  induction items generalizing info with
  | nil =>
      obtain rfl := Except.ok.inj h
      refine ⟨fun _ _ hget => .inl hget, fun aliasName hmem => hmem.elim id ?_⟩
      rintro ⟨item, hitem, -⟩
      cases hitem
  | cons item items ih =>
      rw [List.foldlM_cons] at h
      obtain ⟨added, hadded, hrest⟩ := bind_eq_ok.mp h
      obtain ⟨state, hstate, hpure⟩ := bind_eq_ok.mp hadded
      obtain rfl := Except.ok.inj hpure
      obtain ⟨hfrom, hdeclared⟩ := ih hrest
      refine ⟨fun aliasName found hget => ?_, fun aliasName hmem => hdeclared aliasName ?_⟩
      · rcases hfrom aliasName found hget with hearlier | ⟨later, hlater, hmade⟩
        · rw [OrderedDict.get_assign] at hearlier
          split at hearlier
          · rename_i heq
            obtain rfl := Option.some.inj hearlier
            exact .inr ⟨item, List.mem_cons_self, heq, hstate⟩
          · exact .inl hearlier
        · exact .inr ⟨later, List.mem_cons_of_mem item hlater, hmade⟩
      · rw [OrderedDict.mem_keys, OrderedDict.get_assign]
        by_cases heq : item.aliasName = aliasName
        · exact .inl ⟨state, if_pos heq⟩
        · rcases hmem with hmem | ⟨later, hlater, hname⟩
          · rw [if_neg heq, ← OrderedDict.mem_keys]
            exact .inl hmem
          · rcases List.mem_cons.mp hlater with rfl | hlater
            · exact absurd hname heq
            · exact .inr ⟨later, hlater, hname⟩

/-- The alias is one of `definition.timeframes.informative`. -/
def Declared (settings : EnricherSettings) (aliasName : String) : Prop :=
  ∃ item ∈ settings.informative, item.aliasName = aliasName

theorem create_spec {enricher : Enricher} (h : Enricher.create env settings = .ok enricher) :
    newEngine env (primaryResolver settings) settings.primaryIndicators
        = .ok enricher.primaryEngine ∧
      (∀ aliasName state, enricher.info.get aliasName = some state →
        ∃ item ∈ settings.informative, item.aliasName = aliasName ∧
          newInfoState env settings item = .ok state) ∧
      ∀ aliasName, Declared settings aliasName → aliasName ∈ enricher.info.keys := by
  unfold Enricher.create at h
  obtain ⟨primaryEngine, hprimary, h⟩ := bind_eq_ok.mp h
  obtain ⟨info, hinfo, hpure⟩ := bind_eq_ok.mp h
  obtain rfl := Except.ok.inj hpure
  obtain ⟨hfrom, hdeclared⟩ := foldlM_addInfoState hinfo
  refine ⟨hprimary, fun aliasName state hget => ?_, fun aliasName h => hdeclared _ (.inr h)⟩
  exact (hfrom aliasName state hget).resolve_left fun hempty => nomatch hempty

/-- A new state has an empty cursor. -/
theorem newInfoState_spec {item : InformativeTimeframe} {state : InfoState}
    (h : newInfoState env settings item = .ok state) :
    newEngine env (windowResolverFor item.interval settings.marketCalendar)
        (settings.indicatorsOf item.aliasName) = .ok state.engine ∧
      0 ≤ state.cursor.offset ∧ state.cursor.entries = [] := by
  obtain ⟨engine, offset, hengine, hoffset, rfl⟩ := newInfoState_eq_ok h
  exact ⟨hengine, intervalOffset_nonneg hoffset, rfl⟩

/-! ## §2 Seeding -/

/-- What a dictionary of lists, given by its entries, has for an alias. -/
def entriesFor {α : Type} (items : List (String × List α)) (aliasName : String) : List α :=
  ((items.find? fun entry => decide (entry.1 = aliasName)).map Prod.snd).getD []

theorem entriesFor_cons_self {α : Type} (aliasName : String) (values : List α)
    (items : List (String × List α)) :
    entriesFor ((aliasName, values) :: items) aliasName = values := by
  simp [entriesFor]

theorem entriesFor_cons_of_ne {α : Type} {aliasName other : String} (h : aliasName ≠ other)
    (values : List α) (items : List (String × List α)) :
    entriesFor ((aliasName, values) :: items) other = entriesFor items other := by
  simp [entriesFor, h]

theorem entriesFor_of_not_mem {α : Type} {items : List (String × List α)}
    {aliasName : String} (h : aliasName ∉ items.map Prod.fst) :
    entriesFor items aliasName = [] := by
  induction items with
  | nil => rfl
  | cons entry items ih =>
      rw [List.map_cons, List.mem_cons, not_or] at h
      rw [entriesFor_cons_of_ne (Ne.symm h.1)]
      exact ih h.2

theorem entriesFor_of_mem {informativeBars : OrderedDict String (List StreamBar)}
    {entry : String × List StreamBar} (hentry : entry ∈ informativeBars.items) :
    entriesFor informativeBars.items entry.1 = entry.2 := by
  unfold entriesFor
  have hget := OrderedDict.get_of_mem (d := informativeBars) hentry
  unfold OrderedDict.get at hget
  rw [hget]
  rfl

/-- Rows that keep the list sorted are all appended. -/
theorem appendAll_spec {cursor : AsOfInformativeCursor Row} {rows : List (Timestamp × Row)}
    (h : Sorted (cursor.entries ++ available cursor.offset rows)) :
    ∃ cursor', AsOfInformativeCursor.appendAll cursor rows = .ok cursor' ∧
      cursor'.entries = cursor.entries ++ available cursor.offset rows ∧
      cursor'.offset = cursor.offset ∧ cursor'.visible = cursor.visible := by
  induction rows generalizing cursor with
  | nil => exact ⟨cursor, rfl, (List.append_nil _).symm, rfl, rfl⟩
  | cons row rows ih =>
      obtain ⟨openTs, row⟩ := row
      have hassoc : cursor.entries ++ available cursor.offset ((openTs, row) :: rows)
          = cursor.entries ++ [(openTs + cursor.offset, row)]
            ++ available cursor.offset rows := by
        rw [List.append_assoc]
        rfl
      have haccepts : cursor.Accepts (openTs + cursor.offset) := fun last hlast =>
        (List.pairwise_append.mp h).2.2 last (List.mem_of_getLast? hlast) _
          List.mem_cons_self
      obtain ⟨next, hnext, hentries, hoffset, hvisible, -⟩ :=
        AsOfInformativeCursor.append_spec haccepts row
      rw [hassoc, ← hentries, ← hoffset] at h
      obtain ⟨cursor', hrest, hentries', hoffset', hvisible'⟩ := ih h
      refine ⟨cursor', ?_, ?_, hoffset'.trans hoffset, hvisible'.trans hvisible⟩
      · unfold AsOfInformativeCursor.appendAll
        rw [List.foldlM_cons, hnext]
        exact hrest
      · rw [hentries', hentries, hoffset, hassoc]

/-- The state `p` is `s` with the rows in its cursor. -/
structure Filled (rows : List (Timestamp × Row)) (s p : InfoState) : Prop where
  entries : p.cursor.entries = s.cursor.entries ++ available s.cursor.offset rows
  offset : p.cursor.offset = s.cursor.offset
  visible : p.cursor.visible = s.cursor.visible
  suffix : p.suffix = s.suffix

theorem Filled.refl (s : InfoState) : Filled [] s s :=
  ⟨(List.append_nil _).symm, rfl, rfl, rfl⟩

/-- **Seeding the cursors** of an enricher. -/
theorem foldlM_seedCursor {s : Enricher} (enriched : List (String × List (Timestamp × Row)))
    (hnodup : (enriched.map Prod.fst).Nodup)
    (hsorted : ∀ entry ∈ enriched, ∀ state, s.info.get entry.1 = some state →
      Sorted (state.cursor.entries ++ available state.cursor.offset entry.2)) :
    ∃ p, enriched.foldlM seedCursor s = .ok p ∧ p.primaryEngine = s.primaryEngine ∧
      p.info.keys = s.info.keys ∧
      ∀ aliasName sInfo pInfo, s.info.get aliasName = some sInfo →
        p.info.get aliasName = some pInfo →
        Filled (entriesFor enriched aliasName) sInfo pInfo := by
  induction enriched generalizing s with
  | nil =>
      refine ⟨s, rfl, rfl, rfl, fun aliasName sInfo pInfo hs hp => ?_⟩
      obtain rfl := Option.some.inj (hs.symm.trans hp)
      exact Filled.refl sInfo
  | cons entry enriched ih =>
      obtain ⟨aliasName, rows⟩ := entry
      rw [List.map_cons, List.nodup_cons] at hnodup
      rw [List.foldlM_cons]
      cases hget : s.info.get aliasName with
      | none =>
          have hskip : seedCursor s (aliasName, rows) = .ok s := by
            unfold seedCursor
            simp only [hget]
          obtain ⟨p, hrest, hprimary, hkeys, hfilled⟩ := ih hnodup.2
            fun entry hentry => hsorted entry (List.mem_cons_of_mem _ hentry)
          refine ⟨p, by rw [hskip]; exact hrest, hprimary, hkeys,
            fun other sInfo pInfo hs hp => ?_⟩
          have hne : aliasName ≠ other := by
            rintro rfl
            rw [hget] at hs
            cases hs
          rw [entriesFor_cons_of_ne hne]
          exact hfilled other sInfo pInfo hs hp
      | some state =>
          obtain ⟨cursor, hcursor, hentries, hoffset, hvisible⟩ :=
            appendAll_spec (hsorted _ List.mem_cons_self state hget)
          have hseed : seedCursor s (aliasName, rows)
              = .ok { s with
                info := s.info.assign aliasName { state with cursor := cursor } } := by
            unfold seedCursor
            simp only [hget, hcursor, bind, Except.bind]
            rfl
          obtain ⟨p, hrest, hprimary, hkeys, hfilled⟩ := ih
            (s := { s with info := s.info.assign aliasName { state with cursor := cursor } })
            hnodup.2 fun entry hentry found hfound => by
              have hne : aliasName ≠ entry.1 := by
                rintro rfl
                exact hnodup.1 (List.mem_map.mpr ⟨entry, hentry, rfl⟩)
              rw [OrderedDict.get_assign_of_ne _ hne] at hfound
              exact hsorted entry (List.mem_cons_of_mem _ hentry) found hfound
          refine ⟨p, by rw [hseed]; exact hrest, hprimary,
            hkeys.trans (OrderedDict.keys_assign_of_get hget _),
            fun other sInfo pInfo hs hp => ?_⟩
          by_cases hother : aliasName = other
          · subst hother
            obtain rfl := Option.some.inj (hget.symm.trans hs)
            have hlater := hfilled aliasName _ pInfo (OrderedDict.get_assign_self _ _ _) hp
            rw [entriesFor_of_not_mem hnodup.1] at hlater
            rw [entriesFor_cons_self]
            refine ⟨?_, hlater.offset.trans hoffset, hlater.visible.trans hvisible,
              hlater.suffix⟩
            rw [hlater.entries]
            exact (List.append_nil _).trans hentries
          · rw [entriesFor_cons_of_ne hother]
            refine hfilled other sInfo pInfo ?_ hp
            exact (OrderedDict.get_assign_of_ne _ hother _).trans hs

/-- Appending returns only when the rows are in order. -/
theorem appendAll_sorted {cursor cursor' : AsOfInformativeCursor Row}
    {rows : List (Timestamp × Row)}
    (h : AsOfInformativeCursor.appendAll cursor rows = .ok cursor') :
    Sorted (cursor.entries ++ available cursor.offset rows) := by
  induction rows generalizing cursor with
  | nil =>
      rw [available, List.map_nil, List.append_nil]
      exact cursor.sorted
  | cons row rows ih =>
      unfold AsOfInformativeCursor.appendAll at h
      rw [List.foldlM_cons] at h
      obtain ⟨next, hnext, hrest⟩ := bind_eq_ok.mp h
      have haccepts : cursor.Accepts (row.1 + cursor.offset) := by
        by_contra hrefused
        rw [AsOfInformativeCursor.append, dif_neg hrefused] at hnext
        cases hnext
      obtain ⟨next', hnext', hentries, hoffset, -⟩ :=
        AsOfInformativeCursor.append_spec haccepts row.2
      obtain rfl := Except.ok.inj (hnext'.symm.trans hnext)
      have hsorted := ih hrest
      rw [hentries, hoffset, List.append_assoc] at hsorted
      exact hsorted

/-- Seeding returns only when the rows of every alias are in order. -/
theorem foldlM_seedCursor_sorted {s p : Enricher}
    {enriched : List (String × List (Timestamp × Row))}
    (hnodup : (enriched.map Prod.fst).Nodup) (h : enriched.foldlM seedCursor s = .ok p) :
    ∀ entry ∈ enriched, ∀ state, s.info.get entry.1 = some state →
      Sorted (state.cursor.entries ++ available state.cursor.offset entry.2) := by
  induction enriched generalizing s with
  | nil => exact fun _ hentry => nomatch hentry
  | cons head enriched ih =>
      rw [List.map_cons, List.nodup_cons] at hnodup
      rw [List.foldlM_cons] at h
      obtain ⟨next, hnext, hrest⟩ := bind_eq_ok.mp h
      intro entry hentry state hstate
      rcases List.mem_cons.mp hentry with rfl | hentry
      · unfold seedCursor at hnext
        rw [hstate] at hnext
        obtain ⟨cursor, hcursor, -⟩ := bind_eq_ok.mp hnext
        exact appendAll_sorted hcursor
      · have hne : head.1 ≠ entry.1 := fun hsame =>
          hnodup.1 (List.mem_map.mpr ⟨entry, hentry, hsame.symm⟩)
        refine ih hnodup.2 hrest entry hentry state ?_
        unfold seedCursor at hnext
        cases hhead : s.info.get head.1 with
        | none =>
            rw [hhead] at hnext
            obtain rfl := Except.ok.inj hnext
            exact hstate
        | some old =>
            rw [hhead] at hnext
            obtain ⟨cursor, -, hpure⟩ := bind_eq_ok.mp hnext
            obtain rfl := Except.ok.inj hpure
            exact (OrderedDict.get_assign_of_ne _ hne _).trans hstate

/-- What the workers returned, by alias. -/
theorem entriesFor_enrichInfo {items : List (String × List StreamBar)}
    {enriched : List (String × List (Timestamp × Row))}
    (h : (items.mapM fun entry => do
      let rows ← enrichInfo env settings entry.1 entry.2
      return (entry.1, rows)) = .ok enriched) :
    enriched.map Prod.fst = items.map Prod.fst ∧
      ∀ aliasName ∈ items.map Prod.fst, enrichInfo env settings aliasName
        (entriesFor items aliasName) = .ok (entriesFor enriched aliasName) := by
  induction items generalizing enriched with
  | nil =>
      obtain rfl := Except.ok.inj h
      exact ⟨rfl, fun _ hmem => nomatch hmem⟩
  | cons entry items ih =>
      obtain ⟨aliasName, bars⟩ := entry
      rw [List.mapM_cons] at h
      obtain ⟨first, hfirst, h⟩ := bind_eq_ok.mp h
      obtain ⟨rest, hrest, hpure⟩ := bind_eq_ok.mp h
      obtain ⟨rows, hrows, hpair⟩ := bind_eq_ok.mp hfirst
      obtain rfl := Except.ok.inj hpair
      obtain rfl := Except.ok.inj hpure
      obtain ⟨hkeys, hcomputed⟩ := ih hrest
      refine ⟨by rw [List.map_cons, List.map_cons, hkeys], fun other hother => ?_⟩
      by_cases hsame : aliasName = other
      · subst hsame
        rw [entriesFor_cons_self, entriesFor_cons_self]
        exact hrows
      · rw [entriesFor_cons_of_ne hsame, entriesFor_cons_of_ne hsame]
        exact hcomputed other ((List.mem_cons.mp hother).resolve_left (Ne.symm hsame))

/-! ## §3 The parallel mode before its first primary bar -/

/-- What the parallel mode does before its first primary bar: the rows of every alias, and a
new enricher seeded with them. -/
def seedUpFront (env : Environment) (settings : EnricherSettings)
    (items : List (String × List StreamBar)) : Except PyError Enricher := do
  let infoEnriched ← items.mapM fun entry => do
    let rows ← enrichInfo env settings entry.1 entry.2
    return (entry.1, rows)
  let enricher ← Enricher.create env settings
  infoEnriched.foldlM seedCursor enricher

theorem enrichInParallel_eq {primaryBars : List StreamBar}
    {informativeBars : OrderedDict String (List StreamBar)} :
    enrichInParallel env settings primaryBars informativeBars
      = seedUpFront env settings informativeBars.items >>= fun enricher =>
          primaryRows env settings enricher primaryBars := by
  unfold enrichInParallel seedUpFront
  simp only [bind_assoc]

/-- The enricher of the parallel mode before the first primary bar: a new one, with the rows
of every alias in its cursor. -/
structure SeededWith (env : Environment) (settings : EnricherSettings)
    (items : List (String × List StreamBar)) (s p : Enricher) : Prop where
  created : Enricher.create env settings = .ok s
  engine : p.primaryEngine = s.primaryEngine
  keys : p.info.keys = s.info.keys
  filled : ∀ aliasName sInfo pInfo, s.info.get aliasName = some sInfo →
    p.info.get aliasName = some pInfo → ∃ rows, Filled rows sInfo pInfo ∧
      (aliasName ∉ items.map Prod.fst ∧ rows = [] ∨
        enrichInfo env settings aliasName (entriesFor items aliasName) = .ok rows)

theorem seedUpFront_spec {items : List (String × List StreamBar)} {p : Enricher}
    (hnodup : (items.map Prod.fst).Nodup) (h : seedUpFront env settings items = .ok p) :
    ∃ s, SeededWith env settings items s p := by
  obtain ⟨enriched, henriched, h⟩ := bind_eq_ok.mp h
  obtain ⟨s, hcreate, hseed⟩ := bind_eq_ok.mp h
  obtain ⟨hkeys, hcomputed⟩ := entriesFor_enrichInfo henriched
  have hnodup' : (enriched.map Prod.fst).Nodup := hkeys ▸ hnodup
  obtain ⟨p', hseed', hprimary, hinfo, hfilled⟩ :=
    foldlM_seedCursor enriched hnodup' (foldlM_seedCursor_sorted hnodup' hseed)
  obtain rfl := Except.ok.inj (hseed'.symm.trans hseed)
  refine ⟨s, hcreate, hprimary, hinfo, fun aliasName sInfo pInfo hs hp => ?_⟩
  refine ⟨_, hfilled aliasName sInfo pInfo hs hp, ?_⟩
  by_cases hgiven : aliasName ∈ items.map Prod.fst
  · exact .inr (hcomputed aliasName hgiven)
  · exact .inl ⟨hgiven, entriesFor_of_not_mem (hkeys ▸ hgiven)⟩

/-! ## §4 The first fault up front -/

theorem opens_of_enrichRows {indicators : List String} {engine : Engine}
    {bars : List StreamBar} {rows : List (Timestamp × Row)}
    (h : enrichRows env indicators engine bars = .ok rows) :
    bars.mapM (barOpenTs env) = .ok (rows.map Prod.fst) := by
  induction bars generalizing engine rows with
  | nil =>
      obtain rfl := Except.ok.inj h
      rfl
  | cons bar bars ih =>
      obtain ⟨engine', row, isReady, openTs, rows', -, hopen, hrest, rfl⟩ := enrichRows_cons h
      rw [List.mapM_cons, hopen, ih hrest]
      rfl

/-- What `append` raises. -/
def appendError : PyError :=
  .valueError
    { template :=
        "AsOfInformativeCursor requires monotonically increasing availability timestamps." }

theorem appendAll_error {cursor : AsOfInformativeCursor Row} {rows : List (Timestamp × Row)}
    {e : PyError} (h : AsOfInformativeCursor.appendAll cursor rows = .error e) :
    e = appendError := by
  obtain ⟨before, row, after, reached, -, -, hraises⟩ := foldlM_eq_error_iff.mp h
  unfold AsOfInformativeCursor.append at hraises
  split at hraises
  · cases hraises
  · cases hraises
    rfl

theorem foldlM_seedCursor_error {s : Enricher}
    {enriched : List (String × List (Timestamp × Row))} {e : PyError}
    (h : enriched.foldlM seedCursor s = .error e) : e = appendError := by
  obtain ⟨before, entry, after, reached, -, -, hraises⟩ := foldlM_eq_error_iff.mp h
  unfold seedCursor at hraises
  cases hget : reached.info.get entry.1 with
  | none =>
      rw [hget] at hraises
      cases hraises
  | some state =>
      rw [hget] at hraises
      cases happend : state.cursor.appendAll entry.2 with
      | error e' =>
          simp only [happend, bind, Except.bind, Except.error.injEq] at hraises
          exact hraises ▸ appendAll_error happend
      | ok cursor =>
          simp only [happend, bind, Except.bind] at hraises
          cases hraises

/-- The bars do not stand in the order in which they open. -/
def OutOfOrder (env : Environment) (bars : List StreamBar) : Prop :=
  ∃ opens, bars.mapM (barOpenTs env) = .ok opens ∧ ¬ opens.Pairwise (· ≤ ·)

theorem sorted_available_iff {offset : ℤ} {rows : List (Timestamp × Row)} :
    Sorted (available offset rows) ↔ (rows.map Prod.fst).Pairwise (· ≤ ·) := by
  unfold Sorted available
  rw [List.pairwise_map, List.pairwise_map]
  simp

/-- `e` is the first fault when rows are computed up front: that of the first alias whose bars
fail; else the constructor's; else that of a declared alias whose bars are out of order. -/
inductive FirstFrontFault (env : Environment) (settings : EnricherSettings)
    (items : List (String × List StreamBar)) : PyError → Prop
  | bars {before after : List (String × List StreamBar)} {entry : String × List StreamBar}
      {e : PyError} (hsplit : items = before ++ entry :: after)
      (hbefore : ∀ other ∈ before, ∃ rows, enrichInfo env settings other.1 other.2 = .ok rows)
      (hraises : enrichInfo env settings entry.1 entry.2 = .error e) :
      FirstFrontFault env settings items e
  | constructor {e : PyError}
      (hrows : ∀ entry ∈ items, ∃ rows, enrichInfo env settings entry.1 entry.2 = .ok rows)
      (hraises : Enricher.create env settings = .error e) : FirstFrontFault env settings items e
  | order {s : Enricher} {entry : String × List StreamBar}
      (hrows : ∀ entry ∈ items, ∃ rows, enrichInfo env settings entry.1 entry.2 = .ok rows)
      (hcreate : Enricher.create env settings = .ok s) (hentry : entry ∈ items)
      (hdeclared : Declared settings entry.1) (horder : OutOfOrder env entry.2) :
      FirstFrontFault env settings items appendError

/-- Seeding returns exactly when the bars of every declared alias are in order. -/
theorem foldlM_seedCursor_returns_iff {s : Enricher} (hcreate : Enricher.create env settings = .ok s)
    {items : List (String × List StreamBar)} {enriched : List (String × List (Timestamp × Row))}
    (hnodup : (enriched.map Prod.fst).Nodup)
    (henriched : ∀ result, result ∈ enriched ↔ ∃ entry ∈ items,
      ∃ rows, enrichInfo env settings entry.1 entry.2 = .ok rows ∧ (entry.1, rows) = result)
    (hrows : ∀ entry ∈ items, ∃ rows, enrichInfo env settings entry.1 entry.2 = .ok rows) :
    (∃ p, enriched.foldlM seedCursor s = .ok p) ↔
      ¬ ∃ entry ∈ items, Declared settings entry.1 ∧ OutOfOrder env entry.2 := by
  obtain ⟨-, hfrom, hdeclared⟩ := create_spec hcreate
  have hsorted : ∀ {entry : String × List StreamBar} {rows : List (Timestamp × Row)}
      {state : InfoState}, enrichInfo env settings entry.1 entry.2 = .ok rows →
      s.info.get entry.1 = some state →
      (Sorted (state.cursor.entries ++ available state.cursor.offset rows) ↔
        ¬ OutOfOrder env entry.2) := by
    intro entry rows state hentry hget
    obtain ⟨item, -, -, hnew⟩ := hfrom entry.1 state hget
    obtain ⟨-, -, hempty⟩ := newInfoState_spec hnew
    obtain ⟨engine, -, hengine⟩ := bind_eq_ok.mp hentry
    have hopens := opens_of_enrichRows hengine
    rw [hempty, List.nil_append, sorted_available_iff, OutOfOrder]
    constructor
    · rintro hpairwise ⟨opens, hopens', hnot⟩
      rw [hopens] at hopens'
      cases hopens'
      exact hnot hpairwise
    · intro hnot
      by_contra hpairwise
      exact hnot ⟨_, hopens, hpairwise⟩
  constructor
  · rintro ⟨p, hp⟩ ⟨entry, hentry, hdeclares, horder⟩
    obtain ⟨rows, hresult⟩ := hrows entry hentry
    obtain ⟨state, hget⟩ := OrderedDict.mem_keys.mp (hdeclared entry.1 hdeclares)
    refine (hsorted hresult hget).mp ?_ horder
    exact foldlM_seedCursor_sorted hnodup hp (entry.1, rows)
      ((henriched _).mpr ⟨entry, hentry, rows, hresult, rfl⟩) state hget
  · intro hordered
    obtain ⟨p, hp, -⟩ := foldlM_seedCursor enriched hnodup fun result hresult state hget => by
      obtain ⟨entry, hentry, rows, hrows', rfl⟩ := (henriched result).mp hresult
      refine (hsorted hrows' hget).mpr fun horder => hordered ⟨entry, hentry, ?_, horder⟩
      obtain ⟨item, hitem, hname, -⟩ := hfrom entry.1 state hget
      exact ⟨item, hitem, hname⟩
    exact ⟨p, hp⟩

/-- What a worker returns of an alias. -/
theorem worker_alike (entry : String × List StreamBar) :
    Alike (do
        let rows ← enrichInfo env settings entry.1 entry.2
        return (entry.1, rows))
      (enrichInfo env settings entry.1 entry.2) fun result rows => result = (entry.1, rows) := by
  cases hrows : enrichInfo env settings entry.1 entry.2 with
  | error e => exact .raises rfl rfl
  | ok rows => exact .returns rfl rfl rfl

/-- Where the bars of no alias fail, the constructor does or some bars are out of order. -/
theorem firstFrontFault_iff_of_rows {items : List (String × List StreamBar)} {e : PyError}
    (hrows : ∀ entry ∈ items, ∃ rows, enrichInfo env settings entry.1 entry.2 = .ok rows) :
    FirstFrontFault env settings items e ↔ Enricher.create env settings = .error e ∨
      (∃ s, Enricher.create env settings = .ok s) ∧
        (∃ entry ∈ items, Declared settings entry.1 ∧ OutOfOrder env entry.2) ∧
        e = appendError := by
  constructor
  · intro hfault
    cases hfault with
    | @bars before after entry _ hsplit hbefore hraises =>
        obtain ⟨rows, hresult⟩ := hrows entry (by rw [hsplit]; simp)
        rw [hraises] at hresult
        cases hresult
    | constructor _ hraises => exact .inl hraises
    | order _ hcreate hentry hdeclared horder =>
        exact .inr ⟨⟨_, hcreate⟩, ⟨_, hentry, hdeclared, horder⟩, rfl⟩
  · rintro (hraises | ⟨⟨s, hcreate⟩, ⟨entry, hentry, hdeclared, horder⟩, rfl⟩)
    · exact .constructor hrows hraises
    · exact .order hrows hcreate hentry hdeclared horder

/-- **What is raised up front is the first fault** of the aliases, the constructor and the order
of the bars. -/
theorem seedUpFront_error_iff {informativeBars : OrderedDict String (List StreamBar)}
    {e : PyError} : seedUpFront env settings informativeBars.items = .error e ↔
      FirstFrontFault env settings informativeBars.items e := by
  have hreturns : ∀ entry : String × List StreamBar,
      (∃ result, (do
        let rows ← enrichInfo env settings entry.1 entry.2
        return (entry.1, rows) : Except PyError (String × List (Timestamp × Row))) = .ok result) ↔
      ∃ rows, enrichInfo env settings entry.1 entry.2 = .ok rows := by
    intro entry
    cases enrichInfo env settings entry.1 entry.2 with
    | error e => simp [bind, Except.bind]
    | ok rows => simp [bind, Except.bind, pure, Except.pure]
  unfold seedUpFront
  cases hmap : informativeBars.items.mapM fun entry => do
      let rows ← enrichInfo env settings entry.1 entry.2
      return (entry.1, rows) with
  | error e' =>
      obtain ⟨before, entry, after, hsplit, hbefore, hraises⟩ := mapM_eq_error_iff.mp hmap
      have hentry : entry ∈ informativeBars.items := by
        rw [hsplit]
        exact List.mem_append_right before List.mem_cons_self
      rw [(worker_alike entry).error_iff] at hraises
      have hfails : ¬ ∀ entry ∈ informativeBars.items,
          ∃ rows, enrichInfo env settings entry.1 entry.2 = .ok rows := by
        intro hrows
        obtain ⟨rows, hresult⟩ := hrows entry hentry
        rw [hraises] at hresult
        cases hresult
      constructor
      · intro h
        cases h
        exact .bars hsplit (fun other hother => (hreturns other).mp (hbefore other hother)) hraises
      · intro hfault
        cases hfault with
        | bars hsplit' hbefore' hraises' =>
            have hmap' := mapM_eq_error_iff.mpr ⟨_, _, _, hsplit', fun other hother =>
              (hreturns other).mpr (hbefore' other hother),
              (worker_alike _).error_iff.mpr hraises'⟩
            rw [hmap] at hmap'
            cases hmap'
            rfl
        | constructor hrows => exact absurd hrows hfails
        | order hrows => exact absurd hrows hfails
  | ok enriched =>
      have hrows : ∀ entry ∈ informativeBars.items,
          ∃ rows, enrichInfo env settings entry.1 entry.2 = .ok rows :=
        fun entry hentry => (hreturns entry).mp (exists_of_mapM_eq_ok hmap entry hentry)
      have henriched : ∀ result, result ∈ enriched ↔ ∃ entry ∈ informativeBars.items,
          ∃ rows, enrichInfo env settings entry.1 entry.2 = .ok rows ∧ (entry.1, rows) = result := by
        intro result
        rw [mem_of_mapM_eq_ok hmap]
        refine exists_congr fun entry => and_congr_right fun _ => ?_
        cases enrichInfo env settings entry.1 entry.2 with
        | error e => simp [bind, Except.bind]
        | ok rows => simp [bind, Except.bind, pure, Except.pure]
      have hnodup : (enriched.map Prod.fst).Nodup :=
        (entriesFor_enrichInfo hmap).1 ▸ informativeBars.nodup
      rw [firstFrontFault_iff_of_rows hrows]
      cases hcreate : Enricher.create env settings with
      | error e' => simp [bind, Except.bind]
      | ok s =>
          have hseed := foldlM_seedCursor_returns_iff hcreate hnodup henriched hrows
          show enriched.foldlM seedCursor s = .error e ↔ _
          cases hfold : enriched.foldlM seedCursor s with
          | ok p =>
              have hordered := hseed.mp ⟨p, hfold⟩
              simp [hordered]
          | error e' =>
              have horder : ∃ entry ∈ informativeBars.items,
                  Declared settings entry.1 ∧ OutOfOrder env entry.2 := by
                by_contra hordered
                obtain ⟨p, hp⟩ := hseed.mpr hordered
                rw [hfold] at hp
                cases hp
              rw [foldlM_seedCursor_error hfold]
              constructor
              · intro h
                cases h
                exact .inr ⟨⟨s, rfl⟩, horder, rfl⟩
              · rintro (h | ⟨-, -, rfl⟩)
                · cases h
                · rfl

/-! ## §5 Rows of the parallel mode -/

/-- Without informative bars, the sequential mode updates with the primary
bars alone. -/
theorem sequentialRows_nil {bars : List StreamBar} {enricher : Enricher} {rows : List Row}
    (h : sequentialRows env settings enricher [] bars = .ok rows) :
    primaryRows env settings enricher bars = .ok rows := by
  induction bars generalizing enricher rows with
  | nil => exact h
  | cons bar bars ih =>
      unfold sequentialRows at h
      obtain ⟨t, -, h⟩ := bind_eq_ok.mp h
      obtain ⟨⟨enricher', pending⟩, hfed, h⟩ := bind_eq_ok.mp h
      obtain ⟨rfl, rfl⟩ := Prod.mk.inj (Except.ok.inj hfed)
      obtain ⟨⟨updated, enriched⟩, hupdate, h⟩ := bind_eq_ok.mp h
      obtain ⟨rows', hrows, hpure⟩ := bind_eq_ok.mp h
      unfold primaryRows
      exact bind_eq_ok.mpr ⟨_, hupdate, bind_eq_ok.mpr ⟨rows', ih hrows, hpure⟩⟩

/-- Rows of the parallel mode come from a seeded enricher. -/
theorem causalEnrichBars_seeded {primaryBars : List StreamBar}
    {informativeBars : OrderedDict String (List StreamBar)} {rows : List Row}
    (h : causalEnrichBars env settings true primaryBars informativeBars = .ok rows) :
    ∃ s p, SeededWith env settings informativeBars.items s p ∧
      primaryRows env settings p primaryBars = .ok rows := by
  unfold causalEnrichBars at h
  by_cases hbars : informativeBars.items ≠ []
  · rw [if_pos ⟨hbars, rfl⟩, enrichInParallel_eq] at h
    obtain ⟨p, hseed, hrows⟩ := bind_eq_ok.mp h
    obtain ⟨s, hseeded⟩ := seedUpFront_spec informativeBars.nodup hseed
    exact ⟨s, p, hseeded, hrows⟩
  · rw [if_neg fun hmode => hbars hmode.1] at h
    obtain ⟨s, hcreate, hrows⟩ := bind_eq_ok.mp h
    have hnil : informativeBars.items = [] := not_not.mp hbars
    rw [hnil] at hrows ⊢
    refine ⟨s, s, ⟨hcreate, rfl, rfl, fun aliasName sInfo pInfo hs hp => ?_⟩,
      sequentialRows_nil hrows⟩
    obtain rfl := Option.some.inj (hs.symm.trans hp)
    exact ⟨[], Filled.refl sInfo, .inl ⟨List.not_mem_nil, rfl⟩⟩

end Finbar.Enrichment
