/-
Finbar.Streaming.PocSlopeTheorems — the streamed slope of the POC against
`compute_poc_slope`.

The streaming state keeps the final POC of the sessions that are closed, and
compares the `N`th last of them with the last; the batch function compares the
session `N` before the current one with the current one. Both are missing
until `N` sessions are closed, but then the streamed slope ends a session early
(`pocSlope_eq_batch_iff`).

No `sorry`, no `axiom`.
-/
import Finbar.Streaming.PocSlope
import Finbar.Streaming.ValueSignalTheorems

namespace Finbar.Streaming

open Lib Lib.Python Lib.Grouping

variable {sessionDateOf : PyValue → String} {distribute : Distribution}

instance (session : List StreamBar) : Decidable (HasProfile session) :=
  inferInstanceAs (Decidable (_ ∧ _))

/-! ## §1 What the streaming state has kept -/

/-- The POC of a session's bars, if they have a profile. -/
def profilePoc (distribute : Distribution) (session : List StreamBar) : Option ℚ :=
  if HasProfile session then
    some (computeSessionVolumeProfile distribute session numBuckets).levels.poc
  else none

theorem levels_poc {session : List StreamBar} {s : SessionVpState}
    (h : InSession distribute session s) (hsession : session ≠ []) :
    s.levels.map VpLevels.poc = profilePoc distribute session := by
  obtain ⟨hsome, hnone⟩ := levels_inSession h hsession
  unfold profilePoc
  split
  · rename_i hprofile
    rw [hsome hprofile]
    rfl
  · rename_i hprofile
    rw [hnone hprofile]
    rfl

/-- A bar of the same date leaves the closed sessions alone. -/
theorem update_sessionPocs_join {s : SessionVpState} {bar : StreamBar} {date : String}
    (hcurrent : s.sessionDate = some date) (hbar : barDate sessionDateOf bar = some date) :
    (s.update sessionDateOf distribute bar).sessionPocs = s.sessionPocs := by
  unfold barDate at hbar
  obtain ⟨ts, hts, hdate⟩ := Option.map_eq_some_iff.mp hbar
  unfold SessionVpState.update SessionVpState.enterSession SessionVpState.ingest
  simp only [hts, hcurrent, hdate, ne_eq, not_true_eq_false, if_false]

/-- A bar of another date closes the session. -/
theorem update_sessionPocs_close (distribute : Distribution) {s : SessionVpState}
    {bar : StreamBar} {date date' : String} (hcurrent : s.sessionDate = some date)
    (hbar : barDate sessionDateOf bar = some date') (hne : date' ≠ date) :
    (s.update sessionDateOf distribute bar).sessionPocs
      = match s.levels with
        | some levels => s.sessionPocs.push (date, levels.poc)
        | none => s.sessionPocs := by
  unfold barDate at hbar
  obtain ⟨ts, hts, hdate⟩ := Option.map_eq_some_iff.mp hbar
  unfold SessionVpState.update SessionVpState.enterSession SessionVpState.ingest
    SessionVpState.capSession SessionVpState.reset
  simp only [hts, hcurrent, hdate, hne, ne_eq, not_false_eq_true, if_true]
  cases s.levels with
  | none => rfl
  | some levels => rfl

/-- The state is in the current session and has kept the latest POCs of the
closed ones. -/
structure KeepsSessions (distribute : Distribution) (g : Grouped StreamBar) (date : String)
    (s : SessionVpState) : Prop where
  inSession : InSession distribute g.current s
  sessionDate : s.sessionDate = some date
  maxlen : s.sessionPocs.maxlen = 21
  pocs : ∃ kept : List (String × ℚ), s.sessionPocs.items = kept.rtake s.sessionPocs.maxlen ∧
    kept.map Prod.snd = g.closed.filterMap (profilePoc distribute)

theorem keepsSessions_first {bar : StreamBar} {date : String}
    (hbar : barDate sessionDateOf bar = some date) :
    KeepsSessions distribute { closed := [], current := [bar] } date
      (stateAfter sessionDateOf distribute [bar]) := by
  have hstart : StartsSession sessionDateOf [] date := .inl rfl
  obtain ⟨hbars, hrunning⟩ := stateAfter_first distribute hbar hstart
  rw [List.nil_append] at hbars hrunning
  have hdate := stateAfter_sessionDate sessionDateOf distribute [bar]
  have hpocs : (stateAfter sessionDateOf distribute [bar]).sessionPocs = Deque.empty 21 := by
    unfold barDate at hbar
    obtain ⟨ts, hts, -⟩ := Option.map_eq_some_iff.mp hbar
    simp only [stateAfter, List.foldl_cons, List.foldl_nil, SessionVpState.update,
      SessionVpState.enterSession, SessionVpState.ingest, hts]
    rfl
  refine ⟨⟨hbars, _, hrunning, tracks_first bar⟩, ?_, ?_, [], ?_, rfl⟩
  · rw [hdate]
    simp [lastDate, hbar]
  · rw [hpocs]
    rfl
  · rw [hpocs]
    rfl

theorem keepsSessions_join {g : Grouped StreamBar} {s : SessionVpState} {bar : StreamBar}
    {date : String} (h : KeepsSessions distribute g date s) (hcurrent : g.current ≠ [])
    (hbar : barDate sessionDateOf bar = some date) :
    KeepsSessions distribute { g with current := g.current ++ [bar] } date
      (s.update sessionDateOf distribute bar) := by
  have hpocs : (s.update sessionDateOf distribute bar).sessionPocs = s.sessionPocs :=
    update_sessionPocs_join h.sessionDate hbar
  refine ⟨inSession_next h.inSession hcurrent h.sessionDate hbar, ?_, ?_, ?_⟩
  · show (s.enterSession sessionDateOf bar).sessionDate = _
    rw [enterSession_sessionDate, hbar]
    rfl
  · rw [hpocs]
    exact h.maxlen
  · rw [hpocs]
    exact h.pocs

theorem keepsSessions_close {bars : List StreamBar} {g : Grouped StreamBar} {bar : StreamBar}
    {date date' : String} (h : KeepsSessions distribute g date
      (stateAfter sessionDateOf distribute bars)) (hcurrent : g.current ≠ [])
    (hbar : barDate sessionDateOf bar = some date') (hne : date' ≠ date) :
    KeepsSessions distribute { closed := g.closed ++ [g.current], current := [bar] } date'
      (stateAfter sessionDateOf distribute (bars ++ [bar])) := by
  have hlast : lastDate sessionDateOf bars = some date := by
    rw [← stateAfter_sessionDate sessionDateOf distribute]
    exact h.sessionDate
  obtain ⟨hbars, hrunning⟩ :=
    stateAfter_first distribute hbar (.inr ⟨date, hlast, hne.symm⟩)
  have hpocs := update_sessionPocs_close distribute h.sessionDate hbar hne
  rw [← stateAfter_append] at hpocs
  have hpoc := levels_poc h.inSession hcurrent
  obtain ⟨kept, hkept, hclosed⟩ := h.pocs
  refine ⟨⟨hbars, _, hrunning, tracks_first bar⟩, ?_, ?_, ?_⟩
  · rw [stateAfter_sessionDate, lastDate, List.filterMap_append, List.filterMap_cons_some hbar]
    simp
  · rw [hpocs]
    split
    · exact h.maxlen
    · exact h.maxlen
  · rw [hpocs, List.filterMap_append, ← hclosed]
    cases hlevels : (stateAfter sessionDateOf distribute bars).levels with
    | none =>
        rw [hlevels] at hpoc
        refine ⟨kept, hkept, ?_⟩
        simp [← hpoc]
    | some levels =>
        rw [hlevels] at hpoc
        refine ⟨kept ++ [(date, levels.poc)], ?_, ?_⟩
        · exact Deque.items_push_of_rtake hkept (date, levels.poc)
        · simp [← hpoc]

/-! ## §2 The POCs that are compared -/

/-- The POCs whose change a slope reports: the `n`th last of some POCs, and the
last. -/
def slopePair (pocs : List ℚ) (n : ℕ) : Option (ℚ × ℚ) :=
  if pocs.length < n then none
  else pocs[pocs.length - n]?.bind fun older => pocs.getLast?.map fun newer => (older, newer)

/-- The latest items have the same `n`th last item, and the same last one. -/
theorem rtake_ends {α : Type} (items : List α) {m n : ℕ} (hn : 0 < n) (hnm : n ≤ m)
    (hlength : n ≤ items.length) :
    (items.rtake m)[(items.rtake m).length - n]? = items[items.length - n]? ∧
      (items.rtake m).getLast? = items.getLast? := by
  rw [List.rtake, List.getElem?_drop, List.length_drop, List.getLast?_drop, if_neg (by omega)]
  refine ⟨?_, rfl⟩
  congr 1
  omega

/-- **The streamed slope** compares POCs of closed sessions that have one. -/
theorem pocSlope_eq {g : Grouped StreamBar} {date : String} {s : SessionVpState}
    (h : KeepsSessions distribute g date s) {n : ℕ} (hn : 0 < n) (hmax : n ≤ 21) :
    s.pocSlope n = (slopePair (g.closed.filterMap (profilePoc distribute)) n).bind
      fun pair => pctChange pair.1 pair.2 := by
  obtain ⟨kept, hkept, hclosed⟩ := h.pocs
  rw [h.maxlen] at hkept
  have hlengthKept : s.sessionPocs.items.length = min 21 kept.length := by
    rw [hkept, List.rtake, List.length_drop]
    omega
  rw [← hclosed]
  unfold SessionVpState.pocSlope slopePair
  simp only [List.length_map, max_eq_left (Nat.succ_le_of_lt hn), List.getElem?_map,
    List.getLast?_map]
  by_cases hshort : kept.length < n
  · rw [if_pos (by omega), if_pos hshort, Option.bind_none]
  · have hlong : n ≤ kept.length := not_lt.mp hshort
    obtain ⟨holder, hnewer⟩ := rtake_ends kept hn hmax hlong
    rw [← hkept] at holder hnewer
    rw [if_neg (by omega), if_neg hshort, holder, hnewer]
    cases kept[kept.length - n]? with
    | none => rfl
    | some older =>
        cases kept.getLast? with
        | none => rfl
        | some newer =>
            simp only [Option.map_some, Option.bind_some, pctChange]
            by_cases hpos : 0 < older.2
            · rw [if_neg (not_le.mpr hpos), if_pos hpos]
            · rw [if_pos (not_lt.mp hpos), if_neg hpos]

/-! ## §3 The batch slope -/

theorem pocFrame_concat (sessionDateOf : PyValue → String) (column : List StreamBar → Option ℚ)
    (bars : List StreamBar) (bar : StreamBar) :
    pocFrame sessionDateOf column (bars ++ [bar])
      = pocFrame sessionDateOf column bars
        ++ [{ date := dateOf sessionDateOf bar
              poc := column (sessionsOf sessionDateOf (bars ++ [bar])).current }] := by
  unfold pocFrame
  rw [List.zipIdx_append, List.map_append]
  congr 1
  · refine List.map_congr_left ?_
    rintro ⟨earlier, i⟩ hmem
    have hlt : i < bars.length := by simpa using List.snd_lt_of_mem_zipIdx hmem
    simp only
    rw [List.take_append_of_le_length (Nat.succ_le_of_lt hlt)]
  · simp [List.take_of_length_le]

theorem map_date_pocFrame (sessionDateOf : PyValue → String)
    (column : List StreamBar → Option ℚ) (bars : List StreamBar) :
    (pocFrame sessionDateOf column bars).map PocRow.date = bars.map (dateOf sessionDateOf) := by
  induction bars using List.reverseRecOn with
  | nil => rfl
  | append_singleton bars bar ih =>
      rw [pocFrame_concat, List.map_append, ih, List.map_append]
      rfl

/-- A row changes the POC of its own date only. -/
theorem sessionPoc_concat (rows : List PocRow) (row : PocRow) (date : String) :
    sessionPoc (rows ++ [row]) date
      = if row.date = date then row.poc else sessionPoc rows date := by
  unfold sessionPoc
  rw [List.filter_append]
  by_cases h : row.date = date
  · rw [if_pos h, List.filter_cons_of_pos (by simpa using h)]
    simp
  · rw [if_neg h, List.filter_cons_of_neg (by simpa using h)]
    simp

/-- A row of another date leaves the POCs of earlier dates alone. -/
theorem sessionPocs_concat {rows : List PocRow} {row : PocRow}
    {column : List StreamBar → Option ℚ} {sessions : List (List StreamBar)} {keys : List String}
    (h : List.Forall₂ (fun session date => sessionPoc rows date = column session) sessions keys)
    (hrow : ∀ date ∈ keys, date < row.date) :
    List.Forall₂ (fun session date => sessionPoc (rows ++ [row]) date = column session)
      sessions keys := by
  refine List.forall₂_iff_zip.mpr ⟨h.length_eq, fun hmem => ?_⟩
  have hdate := hrow _ (List.of_mem_zip hmem).2
  rw [sessionPoc_concat, if_neg hdate.ne']
  exact List.forall₂_zip h hmem

/-- Each date has the POC that the column holds at the end of its session. -/
structure RowsKept (sessionDateOf : PyValue → String) (column : List StreamBar → Option ℚ)
    (bars : List StreamBar) (keys : List String) (last : String) : Prop where
  closed : List.Forall₂
    (fun session date => sessionPoc (pocFrame sessionDateOf column bars) date = column session)
    (sessionsOf sessionDateOf bars).closed keys
  current : sessionPoc (pocFrame sessionDateOf column bars) last
    = column (sessionsOf sessionDateOf bars).current

theorem rowsKept_singleton (bar : StreamBar) (column : List StreamBar → Option ℚ) :
    RowsKept sessionDateOf column [bar] [] (dateOf sessionDateOf bar) := by
  refine ⟨.nil, ?_⟩
  show sessionPoc (pocFrame sessionDateOf column ([] ++ [bar])) _ = _
  rw [pocFrame_concat, sessionPoc_concat, if_pos rfl]
  rfl

theorem rowsKept_join {bars : List StreamBar} {bar : StreamBar} {keys : List String}
    {last : String} {column : List StreamBar → Option ℚ}
    (hsplit : Split (dateOf sessionDateOf) (sessionsOf sessionDateOf bars) keys last)
    (hbar : dateOf sessionDateOf bar = last)
    (hgroups : sessionsOf sessionDateOf (bars ++ [bar])
      = { sessionsOf sessionDateOf bars with
          current := (sessionsOf sessionDateOf bars).current ++ [bar] })
    (h : RowsKept sessionDateOf column bars keys last) :
    RowsKept sessionDateOf column (bars ++ [bar]) keys last := by
  constructor
  · rw [pocFrame_concat, hgroups]
    refine sessionPocs_concat h.closed fun date hdate => ?_
    rw [hbar]
    exact hsplit.lt date hdate
  · rw [pocFrame_concat, sessionPoc_concat, if_pos hbar]

theorem rowsKept_close {bars : List StreamBar} {bar : StreamBar} {keys : List String}
    {last : String} {column : List StreamBar → Option ℚ}
    (hsplit : Split (dateOf sessionDateOf) (sessionsOf sessionDateOf bars) keys last)
    (hbar : last < dateOf sessionDateOf bar)
    (hgroups : sessionsOf sessionDateOf (bars ++ [bar])
      = { closed := (sessionsOf sessionDateOf bars).closed
            ++ [(sessionsOf sessionDateOf bars).current]
          current := [bar] })
    (h : RowsKept sessionDateOf column bars keys last) :
    RowsKept sessionDateOf column (bars ++ [bar]) (keys ++ [last]) (dateOf sessionDateOf bar) := by
  constructor
  · rw [pocFrame_concat, hgroups]
    refine sessionPocs_concat (List.rel_append h.closed (.cons h.current .nil)) ?_
    intro date hdate
    rcases List.mem_append.mp hdate with hclosed | hcurrent
    · exact (hsplit.lt date hclosed).trans hbar
    · rw [List.mem_singleton.mp hcurrent]
      exact hbar
  · rw [pocFrame_concat, sessionPoc_concat, if_pos rfl]

/-- The POCs that the batch slope compares: the column's at the end of the `n`th
last closed session, and now. -/
def columnPair (column : List StreamBar → Option ℚ) (g : Grouped StreamBar) (n : ℕ) :
    Option (ℚ × ℚ) :=
  if g.closed.length < n then none
  else (g.closed[g.closed.length - n]?.bind column).bind fun older =>
    (column g.current).map fun newer => (older, newer)

/-- The dates of the frame are the keys of its sessions. -/
theorem orderedDates_pocFrame {bars : List StreamBar} {keys : List String} {last : String}
    (hsplit : Split (dateOf sessionDateOf) (sessionsOf sessionDateOf bars) keys last)
    (column : List StreamBar → Option ℚ) :
    orderedDates (pocFrame sessionDateOf column bars) = keys ++ [last] := by
  unfold orderedDates
  refine insertionSort_dedup_eq hsplit.sorted fun date => ?_
  rw [map_date_pocFrame]
  exact hsplit.mem_keys_iff date

/-- **The batch slope** compares the session `n` before the current one with the
current one. -/
theorem batchSlope_eq {bars : List StreamBar} {keys : List String} {last : String}
    {column : List StreamBar → Option ℚ} (hbars : bars ≠ [])
    (hsplit : Split (dateOf sessionDateOf) (sessionsOf sessionDateOf bars) keys last)
    (hrows : RowsKept sessionDateOf column bars keys last) {n : ℕ} (hn : 0 < n) :
    batchSlope sessionDateOf column n bars
      = (columnPair column (sessionsOf sessionDateOf bars) n).bind
          fun pair => pctChange pair.1 pair.2 := by
  have hlast : batchSlope sessionDateOf column n bars
      = sessionSlope (pocFrame sessionDateOf column bars) n last := by
    obtain ⟨init, bar, rfl⟩ := List.eq_nil_or_concat bars |>.resolve_left hbars
    rw [List.concat_eq_append] at hsplit ⊢
    rw [hsplit.key_getLast]
    unfold batchSlope computePocSlope
    rw [List.getLast?_map, pocFrame_concat, List.getLast?_concat]
    rfl
  have hidx : (keys ++ [last]).idxOf last = keys.length := by
    rw [List.idxOf_append_of_notMem fun hmem => (hsplit.lt last hmem).false]
    simp
  rw [hlast]
  unfold sessionSlope columnPair
  simp only [orderedDates_pocFrame hsplit, hidx, hsplit.length]
  by_cases hshort : keys.length < n
  · rw [if_pos hshort, if_pos hshort, Option.bind_none]
  · have hi : keys.length - n < keys.length := by omega
    have hi' : keys.length - n < (sessionsOf sessionDateOf bars).closed.length := by
      rw [hsplit.length]
      exact hi
    have hdate : (keys ++ [last]).getD (keys.length - n) "" = keys[keys.length - n] := by
      rw [List.getD_eq_getElem?_getD, List.getElem?_append_left hi,
        List.getElem?_eq_getElem hi, Option.getD_some]
    have hpoc := hrows.closed.get hi' hi
    simp only [List.get_eq_getElem] at hpoc
    rw [if_neg hshort, if_neg hshort, hdate, hpoc, hrows.current,
      List.getElem?_eq_getElem hi', Option.bind_some]
    cases column (sessionsOf sessionDateOf bars).closed[keys.length - n] with
    | none => rfl
    | some older =>
        cases column (sessionsOf sessionDateOf bars).current with
        | none => rfl
        | some newer => rfl

/-! ## §4 Every sequence of bars -/

/-- The states and the frame of a sequence of bars, by its sessions. -/
theorem sessions_kept (distribute : Distribution) (column : List StreamBar → Option ℚ)
    {bars : List StreamBar} (hbars : bars ≠ [])
    (hstamped : ∀ bar ∈ bars, bar.timestamp.isSome)
    (hsorted : (bars.map (dateOf sessionDateOf)).Pairwise (· ≤ ·)) :
    ∃ keys last, Split (dateOf sessionDateOf) (sessionsOf sessionDateOf bars) keys last ∧
      KeepsSessions distribute (sessionsOf sessionDateOf bars) last
        (stateAfter sessionDateOf distribute bars) ∧
      RowsKept sessionDateOf column bars keys last := by
  have hdate : ∀ bar : StreamBar, bar.timestamp.isSome →
      barDate sessionDateOf bar = some (dateOf sessionDateOf bar) := by
    intro bar hbar
    obtain ⟨ts, hts⟩ := Option.isSome_iff_exists.mp hbar
    simp [dateOf, barDate, hts]
  suffices h : ∃ keys last,
      Split (dateOf sessionDateOf) (sessionsOf sessionDateOf bars) keys last ∧
      ((∀ bar ∈ bars, bar.timestamp.isSome) →
        KeepsSessions distribute (sessionsOf sessionDateOf bars) last
          (stateAfter sessionDateOf distribute bars) ∧
        RowsKept sessionDateOf column bars keys last) by
    obtain ⟨keys, last, hsplit, hkept⟩ := h
    exact ⟨keys, last, hsplit, hkept hstamped⟩
  refine grouped_induction (P := fun bars keys last => (∀ bar ∈ bars, bar.timestamp.isSome) →
    KeepsSessions distribute (sessionsOf sessionDateOf bars) last
      (stateAfter sessionDateOf distribute bars) ∧
    RowsKept sessionDateOf column bars keys last) ?_ ?_ ?_ hbars hsorted
  · intro bar hstamped
    exact ⟨keepsSessions_first (hdate bar (hstamped bar List.mem_cons_self)),
      rowsKept_singleton bar column⟩
  · intro bars keys last bar hsplit hbar hgroups ih hstamped
    obtain ⟨hinit, hnew⟩ := List.forall_mem_append.mp hstamped
    obtain ⟨hkeeps, hrows⟩ := ih hinit
    refine ⟨?_, rowsKept_join hsplit hbar hgroups hrows⟩
    have hbar' := hdate bar (hnew bar (List.mem_singleton.mpr rfl))
    rw [hbar] at hbar'
    unfold sessionsOf at hkeeps ⊢
    rw [hgroups, stateAfter_append]
    exact keepsSessions_join hkeeps hsplit.current.nonempty hbar'
  · intro bars keys last bar hsplit hbar hgroups ih hstamped
    obtain ⟨hinit, hnew⟩ := List.forall_mem_append.mp hstamped
    obtain ⟨hkeeps, hrows⟩ := ih hinit
    refine ⟨?_, rowsKept_close hsplit hbar hgroups hrows⟩
    have hbar' := hdate bar (hnew bar (List.mem_singleton.mpr rfl))
    unfold sessionsOf at hkeeps ⊢
    rw [hgroups]
    exact keepsSessions_close hkeeps hsplit.current.nonempty hbar' hbar.ne'

theorem derivedAfter_concat (sessionDateOf : PyValue → String) (distribute : Distribution)
    (handlers : Handlers) (names : List String) (bars : List StreamBar) (bar : StreamBar) :
    let before := derivedAfter sessionDateOf distribute handlers names bars
    let vp := before.1.update sessionDateOf distribute bar
    derivedAfter sessionDateOf distribute handlers names (bars ++ [bar])
      = (vp, (before.2.update handlers vp bar).1) := by
  unfold derivedAfter
  rw [List.foldl_append]
  rfl

theorem derivedAfter_fst (sessionDateOf : PyValue → String) (distribute : Distribution)
    (handlers : Handlers) (names : List String) (bars : List StreamBar) :
    (derivedAfter sessionDateOf distribute handlers names bars).1
      = stateAfter sessionDateOf distribute bars := by
  induction bars using List.reverseRecOn with
  | nil => rfl
  | append_singleton bars bar ih => rw [derivedAfter_concat, ih, stateAfter_append]

/-- An update sets a value for every name, whatever the handlers return. -/
theorem vpDerived_update_values (handlers : Handlers) (s : VpDerivedState) (vp : SessionVpState)
    (bar : StreamBar) :
    (s.update handlers vp bar).1.names = s.names ∧
      ∃ results, (s.update handlers vp bar).1.values = s.valuesFrom vp results := by
  unfold VpDerivedState.update
  simp only
  split
  · exact ⟨rfl, [], rfl⟩
  · split
    · exact ⟨rfl, _, rfl⟩
    · exact ⟨rfl, _, rfl⟩

theorem derivedAfter_names (sessionDateOf : PyValue → String) (distribute : Distribution)
    (handlers : Handlers) (names : List String) (bars : List StreamBar) :
    (derivedAfter sessionDateOf distribute handlers names bars).2.names = names := by
  induction bars using List.reverseRecOn with
  | nil => rfl
  | append_singleton bars bar ih =>
      rw [derivedAfter_concat]
      exact (vpDerived_update_values handlers _ _ bar).1.trans ih

/-- The value of a slope metric is the slope of the profile. -/
theorem derivedValue_slope (sessionDateOf : PyValue → String) (distribute : Distribution)
    (handlers : Handlers) {names : List String} {bars : List StreamBar} (hbars : bars ≠ [])
    {name : String} {n : ℕ} (hwindow : (name, n) ∈ slopeWindows) (hname : name ∈ names) :
    derivedValue sessionDateOf distribute handlers names bars name
      = some (floatValue ((stateAfter sessionDateOf distribute bars).pocSlope n)) := by
  have hslope : ∀ vp : SessionVpState,
      slopeValue vp name = some (floatValue (vp.pocSlope n)) := by
    intro vp
    simp only [slopeWindows, List.mem_cons, List.not_mem_nil, or_false, Prod.mk.injEq] at hwindow
    rcases hwindow with ⟨rfl, rfl⟩ | ⟨rfl, rfl⟩
    · rfl
    · rfl
  obtain ⟨init, bar, rfl⟩ := List.eq_nil_or_concat bars |>.resolve_left hbars
  rw [List.concat_eq_append, ← derivedAfter_fst sessionDateOf distribute handlers names]
  unfold derivedValue
  rw [derivedAfter_concat]
  have hnames := derivedAfter_names sessionDateOf distribute handlers names init
  generalize derivedAfter sessionDateOf distribute handlers names init = before at hnames ⊢
  obtain ⟨-, results, hvalues⟩ := vpDerived_update_values handlers before.2
    (before.1.update sessionDateOf distribute bar) bar
  rw [hvalues, VpDerivedState.valuesFrom, hnames, lookup_map_of_mem _ hname, hslope,
    Option.getD_some]

/-! ## §5 When the slopes agree -/

/-- Neither pair of POCs has a change, or the quotients are the same. -/
def SameChange : Option (ℚ × ℚ) → Option (ℚ × ℚ) → Prop
  | some (older, newer), some (older', newer') =>
      if 0 < older then 0 < older' ∧ newer * older' = newer' * older else older' ≤ 0
  | some (older, _), none => older ≤ 0
  | none, some (older, _) => older ≤ 0
  | none, none => True

instance : (p q : Option (ℚ × ℚ)) → Decidable (SameChange p q)
  | some (older, _), some _ => inferInstanceAs (Decidable (if 0 < older then _ else _))
  | some (older, _), none => inferInstanceAs (Decidable (older ≤ 0))
  | none, some (older, _) => inferInstanceAs (Decidable (older ≤ 0))
  | none, none => isTrue trivial

theorem pctChange_eq_none_iff {older newer : ℚ} : pctChange older newer = none ↔ older ≤ 0 := by
  unfold pctChange
  split
  · rename_i h
    exact iff_of_false (fun hc => nomatch hc) (not_le.mpr h)
  · rename_i h
    exact iff_of_true rfl (not_lt.mp h)

theorem pctChange_eq_iff {older newer older' newer' : ℚ} (h : 0 < older) :
    pctChange older newer = pctChange older' newer'
      ↔ 0 < older' ∧ newer * older' = newer' * older := by
  unfold pctChange
  rw [if_pos h]
  split
  · rename_i h'
    rw [Option.some_inj, mul_left_inj' (by norm_num), div_eq_div_iff h.ne' h'.ne']
    constructor
    · intro heq
      exact ⟨h', by linarith⟩
    · rintro ⟨-, heq⟩
      linarith
  · rename_i h'
    exact iff_of_false (fun hc => nomatch hc) (fun hc => h' hc.1)

theorem bind_pctChange_eq_iff (p q : Option (ℚ × ℚ)) :
    (p.bind fun pair => pctChange pair.1 pair.2) = (q.bind fun pair => pctChange pair.1 pair.2)
      ↔ SameChange p q := by
  cases p with
  | none =>
      cases q with
      | none => exact iff_of_true rfl trivial
      | some pair => exact eq_comm.trans pctChange_eq_none_iff
  | some pair =>
      cases q with
      | none => exact pctChange_eq_none_iff
      | some pair' =>
          unfold SameChange
          simp only [Option.bind_some]
          split
          · rename_i hpos
            exact pctChange_eq_iff hpos
          · rename_i hpos
            rw [pctChange_eq_none_iff.mpr (not_lt.mp hpos)]
            exact eq_comm.trans pctChange_eq_none_iff

theorem floatValue_injective {p q : Option ℚ} : floatValue p = floatValue q ↔ p = q := by
  constructor
  · intro h
    cases p with
    | none =>
        cases q with
        | none => rfl
        | some _ => cases h
    | some _ =>
        cases q with
        | none => cases h
        | some _ =>
            cases h
            rfl
  · exact congrArg floatValue

/-- The POC that the batch profile of a session has. -/
def batchPoc (distribute : Distribution) (session : List StreamBar) : ℚ :=
  (computeSessionVolumeProfile distribute session numBuckets).levels.poc

/-- Every session so far has a profile, and the column holds its POC. -/
def AllProfiled (distribute : Distribution) (column : List StreamBar → Option ℚ)
    (g : Grouped StreamBar) : Prop :=
  ∀ session ∈ g.closed ++ [g.current],
    HasProfile session ∧ column session = some (batchPoc distribute session)

/-- Where every session has a profile, the slopes agree before `n` sessions are
closed, from a POC that is not positive, and while the POC stands where the last
session left it. -/
theorem sameChange_of_allProfiled {column : List StreamBar → Option ℚ}
    {g : Grouped StreamBar} (h : AllProfiled distribute column g) {n : ℕ} (hn : 0 < n) :
    SameChange (slopePair (g.closed.filterMap (profilePoc distribute)) n) (columnPair column g n)
      ↔ g.closed.length < n ∨
        (∃ session ∈ g.closed[g.closed.length - n]?, batchPoc distribute session ≤ 0) ∨
        ∃ session ∈ g.closed.getLast?,
          batchPoc distribute session = batchPoc distribute g.current := by
  have hpocs : g.closed.filterMap (profilePoc distribute) = g.closed.map (batchPoc distribute) := by
    rw [← List.filterMap_eq_map]
    refine List.filterMap_congr fun session hsession => ?_
    rw [profilePoc, if_pos (h session (List.mem_append_left _ hsession)).1]
    rfl
  have hcurrent := (h g.current (List.mem_append_right _ (List.mem_singleton.mpr rfl))).2
  rw [hpocs, slopePair, columnPair, List.length_map, hcurrent]
  by_cases hshort : g.closed.length < n
  · rw [if_pos hshort, if_pos hshort]
    exact iff_of_true trivial (.inl hshort)
  · have hi : g.closed.length - n < g.closed.length := by omega
    have hne : g.closed ≠ [] := List.ne_nil_of_length_pos (by omega)
    obtain ⟨last, hlast⟩ : ∃ last, g.closed.getLast? = some last :=
      ⟨_, List.getLast?_eq_some_getLast hne⟩
    have holder := h _ (List.mem_append_left _ (List.getElem_mem hi))
    generalize hold : g.closed[g.closed.length - n] = older at holder
    rw [if_neg hshort, if_neg hshort, List.getElem?_map, List.getLast?_map, hlast,
      List.getElem?_eq_getElem hi, hold]
    simp only [Option.map_some, Option.bind_some, holder.2, SameChange, Option.mem_some_iff,
      exists_eq_left', hshort, false_or]
    split
    · rename_i hpos
      rw [mul_left_inj' hpos.ne']
      constructor
      · exact fun hc => .inr hc.2
      · rintro (hc | hc)
        · exact absurd hpos (not_lt.mpr hc)
        · exact ⟨hpos, hc⟩
    · rename_i hpos
      exact iff_of_true (not_lt.mp hpos) (.inl (not_lt.mp hpos))

/-- **The slopes agree exactly when they compare the same change.** For every
sequence of bars with timestamps in order of their dates, whatever the column
holds at a bar of what is known of its session: the reported slope is the batch
slope of the frame so far if and only if the POCs of the `n`th last and the last
closed session that have one, and those of the session `n` before the current
one and the current one, have the same change or both none. Where every session
has a profile that is while fewer than `n` sessions are closed, from a POC that
is not positive, or while the current POC is that of the last closed session. -/
theorem pocSlope_eq_batch_iff (sessionDateOf : PyValue → String) (distribute : Distribution)
    (handlers : Handlers) {names : List String} (column : List StreamBar → Option ℚ)
    {bars : List StreamBar} (hbars : bars ≠ [])
    (hstamped : ∀ bar ∈ bars, bar.timestamp.isSome)
    (hsorted : (bars.map (dateOf sessionDateOf)).Pairwise (· ≤ ·)) {name : String} {n : ℕ}
    (hwindow : (name, n) ∈ slopeWindows) (hname : name ∈ names) :
    let g := sessionsOf sessionDateOf bars
    let agrees := derivedValue sessionDateOf distribute handlers names bars name
      = some (floatValue (batchSlope sessionDateOf column n bars))
    (agrees ↔ SameChange (slopePair (g.closed.filterMap (profilePoc distribute)) n)
      (columnPair column g n)) ∧
    (AllProfiled distribute column g →
      (agrees ↔ g.closed.length < n ∨
        (∃ session ∈ g.closed[g.closed.length - n]?, batchPoc distribute session ≤ 0) ∨
        ∃ session ∈ g.closed.getLast?,
          batchPoc distribute session = batchPoc distribute g.current)) := by
  intro g agrees
  have hn : 0 < n ∧ n ≤ 21 := by
    simp only [slopeWindows, List.mem_cons, List.not_mem_nil, or_false, Prod.mk.injEq] at hwindow
    omega
  obtain ⟨keys, last, hsplit, hkeeps, hrows⟩ :=
    sessions_kept distribute column hbars hstamped hsorted
  have hagrees : agrees ↔ SameChange (slopePair (g.closed.filterMap (profilePoc distribute)) n)
      (columnPair column g n) := by
    rw [← bind_pctChange_eq_iff, ← pocSlope_eq hkeeps hn.1 hn.2,
      ← batchSlope_eq hbars hsplit hrows hn.1]
    show derivedValue sessionDateOf distribute handlers names bars name = _ ↔ _
    rw [derivedValue_slope sessionDateOf distribute handlers hbars hwindow hname,
      Option.some_inj, floatValue_injective]
  exact ⟨hagrees, fun hall => hagrees.trans (sameChange_of_allProfiled hall hn.1)⟩

/-- A day of two bars, most of its volume at the first price. -/
def pricedSession (date : String) (price : ℚ) : List StreamBar :=
  [flatBar date price 5, flatBar date (price + 1) 1]

/-- Five days at the same prices, and a sixth. -/
def sixSessions (sixth : ℚ) : List StreamBar :=
  pricedSession "2024-01-01" 100 ++ pricedSession "2024-01-02" 100 ++ pricedSession "2024-01-03" 100
    ++ pricedSession "2024-01-04" 100 ++ pricedSession "2024-01-05" 100
    ++ pricedSession "2024-01-06" sixth

/-- On a sixth day like the others the slopes agree. -/
theorem pocSlope_eq_batch_level :
    derivedValue PyValue.toStr nearestBucket sampleRuntime.handlers ["poc_slope_5"]
        (sixSessions 100) "poc_slope_5"
      = some (floatValue (batchSlope PyValue.toStr (profilePoc nearestBucket) 5
          (sixSessions 100))) := by
  refine (pocSlope_eq_batch_iff PyValue.toStr nearestBucket sampleRuntime.handlers
    (profilePoc nearestBucket) (List.cons_ne_nil _ _) ?_ ?_ (List.mem_cons_self)
    (List.mem_singleton.mpr rfl)).1.mpr ?_
  · decide +kernel
  · decide +kernel
  · decide +kernel

/-- Five days at 100 and one at 110: streaming reports no change, as between the
first and the fifth day, and the batch function the change to the sixth. -/
theorem pocSlope_ends_early :
    derivedValue PyValue.toStr nearestBucket sampleRuntime.handlers ["poc_slope_5"]
        (sixSessions 110) "poc_slope_5" = some (floatValue (some 0)) ∧
      batchSlope PyValue.toStr (profilePoc nearestBucket) 5 (sixSessions 110)
        = some (10 / (999956 / 10000) * 100) := by
  have hne : sixSessions 110 ≠ [] := List.cons_ne_nil _ _
  have hslope : (stateAfter PyValue.toStr nearestBucket (sixSessions 110)).pocSlope 5 = some 0 := by
    decide +kernel
  constructor
  · rw [derivedValue_slope PyValue.toStr nearestBucket sampleRuntime.handlers hne
      List.mem_cons_self (List.mem_singleton.mpr rfl), hslope]
  · decide +kernel

end Finbar.Streaming
