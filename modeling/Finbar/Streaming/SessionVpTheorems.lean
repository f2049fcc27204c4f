/-
Finbar.Streaming.SessionVpTheorems — the incremental session profile against
the batch one.

While the bars of a session arrive, the state holds them and the aggregate of
their volumes (`stateAfter_session`). Its levels are those that
`compute_session_volume_profile` extracts from the same bars, except on
degenerate sessions: without a range or without volume the state reports NaN
where the batch function reports prices (`levels_eq_batch_iff`).

No `sorry`, no `axiom`.
-/
import Finbar.Streaming.SessionVp

namespace Finbar.Streaming

open Lib Lib.Python

variable {sessionDateOf : PyValue → String} {distribute : Distribution}

/-! ## §1 Runs -/

/-- The state after a sequence of bars. -/
def stateAfter (sessionDateOf : PyValue → String) (distribute : Distribution)
    (bars : List StreamBar) : SessionVpState :=
  bars.foldl (SessionVpState.update sessionDateOf distribute) SessionVpState.init

theorem stateAfter_append (bars : List StreamBar) (bar : StreamBar) :
    stateAfter sessionDateOf distribute (bars ++ [bar])
      = (stateAfter sessionDateOf distribute bars).update sessionDateOf distribute bar := by
  unfold stateAfter
  rw [List.foldl_append]
  rfl

/-- The calendar date of a bar, if it has a timestamp. -/
def barDate (sessionDateOf : PyValue → String) (bar : StreamBar) : Option String :=
  bar.timestamp.map sessionDateOf

/-- The calendar date of the last bar with a timestamp. -/
def lastDate (sessionDateOf : PyValue → String) (bars : List StreamBar) : Option String :=
  (bars.filterMap (barDate sessionDateOf)).getLast?

/-- All bars are of one calendar date. -/
def Dated (sessionDateOf : PyValue → String) (date : String) (bars : List StreamBar) : Prop :=
  ∀ bar ∈ bars, barDate sessionDateOf bar = some date

/-- A bar of `date` after `history` is the first of its session. -/
def StartsSession (sessionDateOf : PyValue → String) (history : List StreamBar)
    (date : String) : Prop :=
  history = [] ∨ ∃ previous, lastDate sessionDateOf history = some previous ∧ previous ≠ date

theorem enterSession_sessionDate (sessionDateOf : PyValue → String) (s : SessionVpState)
    (bar : StreamBar) :
    (s.enterSession sessionDateOf bar).sessionDate
      = (barDate sessionDateOf bar).or s.sessionDate := by
  unfold SessionVpState.enterSession barDate
  cases bar.timestamp with
  | none => rfl
  | some ts => rfl

/-- The state's session date is that of the last bar with a timestamp. -/
theorem stateAfter_sessionDate (sessionDateOf : PyValue → String) (distribute : Distribution)
    (bars : List StreamBar) :
    (stateAfter sessionDateOf distribute bars).sessionDate = lastDate sessionDateOf bars := by
  induction bars using List.reverseRecOn with
  | nil => rfl
  | append_singleton bars bar ih =>
      rw [stateAfter_append]
      have hdate := enterSession_sessionDate sessionDateOf
        (stateAfter sessionDateOf distribute bars) bar
      show ((stateAfter sessionDateOf distribute bars).enterSession sessionDateOf bar).sessionDate
        = _
      rw [hdate, ih]
      unfold lastDate
      rw [List.filterMap_append]
      cases hbar : barDate sessionDateOf bar with
      | none => simp [hbar]
      | some date => simp [hbar]

/-! ## §2 Sessions -/

/-- The state holds exactly the bars of a session and their profile. -/
structure InSession (distribute : Distribution) (session : List StreamBar)
    (s : SessionVpState) : Prop where
  bars : s.bars = session
  running : ∃ r, s.running = some r ∧ Tracks distribute session r

/-- **The first bar of a session starts a fresh profile.** -/
theorem stateAfter_first (distribute : Distribution) {history : List StreamBar}
    {bar : StreamBar} {date : String}
    (hdate : barDate sessionDateOf bar = some date)
    (hstart : StartsSession sessionDateOf history date) :
    (stateAfter sessionDateOf distribute (history ++ [bar])).bars = [bar] ∧
      (stateAfter sessionDateOf distribute (history ++ [bar])).running
        = some (updateIncremental distribute none [bar] bar) := by
  rw [stateAfter_append]
  rcases hstart with rfl | ⟨previous, hprevious, hne⟩
  · unfold SessionVpState.update SessionVpState.enterSession
    cases bar.timestamp with
    | none => exact ⟨rfl, rfl⟩
    | some ts => exact ⟨rfl, rfl⟩
  · have hsession := stateAfter_sessionDate sessionDateOf distribute history
    rw [hprevious] at hsession
    unfold barDate at hdate
    unfold SessionVpState.update SessionVpState.enterSession
    cases hts : bar.timestamp with
    | none =>
        rw [hts] at hdate
        cases hdate
    | some ts =>
        rw [hts] at hdate
        cases hdate
        rw [hsession]
        simp only
        rw [if_pos (Ne.symm hne)]
        exact ⟨rfl, rfl⟩

/-- A bar of the same date joins the session. -/
theorem inSession_next {s : SessionVpState} {session : List StreamBar} {bar : StreamBar}
    {date : String} (h : InSession distribute session s) (hsession : session ≠ [])
    (hcurrent : s.sessionDate = some date) (hdate : barDate sessionDateOf bar = some date) :
    InSession distribute (session ++ [bar]) (s.update sessionDateOf distribute bar) := by
  obtain ⟨r, hr, htracks⟩ := h.running
  have henter : (s.enterSession sessionDateOf bar).bars = session ∧
      (s.enterSession sessionDateOf bar).running = some r := by
    unfold barDate at hdate
    unfold SessionVpState.enterSession
    cases hts : bar.timestamp with
    | none => exact ⟨h.bars, hr⟩
    | some ts =>
        rw [hts] at hdate
        cases hdate
        rw [hcurrent]
        simp only
        rw [if_neg (fun hne => hne rfl)]
        exact ⟨h.bars, hr⟩
  unfold SessionVpState.update SessionVpState.ingest
  refine ⟨?_, _, rfl, ?_⟩
  · simp only
    rw [henter.1]
  · rw [henter.1, henter.2]
    exact tracks_next hsession htracks bar

/-- **After each bar of a session** the state holds the session's bars so far
and the aggregate of their volumes, whatever came before. -/
theorem stateAfter_session (distribute : Distribution) {history session : List StreamBar}
    {date : String}
    (hstart : StartsSession sessionDateOf history date)
    (hdated : Dated sessionDateOf date session) (hsession : session ≠ []) :
    InSession distribute session (stateAfter sessionDateOf distribute (history ++ session)) := by
  induction session using List.reverseRecOn with
  | nil => exact absurd rfl hsession
  | append_singleton session bar ih =>
      have hbar : barDate sessionDateOf bar = some date :=
        hdated bar (List.mem_append_right session List.mem_cons_self)
      by_cases hfirst : session = []
      · subst hfirst
        obtain ⟨hbars, hrunning⟩ := stateAfter_first distribute hbar hstart
        exact ⟨hbars, _, hrunning, tracks_first bar⟩
      · have hinit : Dated sessionDateOf date session :=
          fun b hb => hdated b (List.mem_append_left [bar] hb)
        have hcurrent : (stateAfter sessionDateOf distribute (history ++ session)).sessionDate
            = some date := by
          rw [stateAfter_sessionDate]
          unfold lastDate
          obtain ⟨init, last, rfl⟩ := List.eq_nil_or_concat session |>.resolve_left hfirst
          rw [List.concat_eq_append, List.filterMap_append, List.filterMap_append,
            List.filterMap_cons_some (hinit last (by simp))]
          simp
        rw [← List.append_assoc, stateAfter_append]
        exact inSession_next (ih hinit hfirst) hfirst hcurrent hbar

/-! ## §3 Levels -/

/-- The session's bars have a price range and some volume. -/
def HasProfile (session : List StreamBar) : Prop :=
  sessionLow session < sessionHigh session ∧ ∃ bar ∈ session, 0 < bar.volume

/-- The levels of a state in a session: those of the batch profile if the
session has one, NaN otherwise. -/
theorem levels_inSession {session : List StreamBar} {s : SessionVpState}
    (h : InSession distribute session s) (hsession : session ≠ []) :
    (HasProfile session →
      s.levels = some (computeSessionVolumeProfile distribute session numBuckets).levels) ∧
    (¬ HasProfile session → s.levels = none) := by
  obtain ⟨r, hr, htracks⟩ := h.running
  have hgrid : r.grid = sessionBucketGrid (sessionHigh session) (sessionLow session)
      numBuckets := by
    rw [htracks.grid, htracks.high, htracks.low]
  have hsize := sessionBucketGrid_pos_iff (sessionHigh session) (sessionLow session)
    (show 0 < numBuckets by decide)
  have hlevels : s.levels = extractLevels r := by
    unfold SessionVpState.levels
    rw [h.bars, if_neg hsession, hr]
    rfl
  have hhistogram := htracks.histogram
  rw [hgrid] at hhistogram
  unfold gridHistogram at hhistogram
  rw [hlevels]
  unfold extractLevels
  constructor
  · rintro ⟨hrange, hvolume⟩
    rw [if_pos (hsize.mpr hrange)] at hhistogram
    have htotal := (aggregateSessionVolume_total_pos_iff distribute session
      (sessionBucketGrid (sessionHigh session) (sessionLow session) numBuckets)).mpr hvolume
    rw [hhistogram, hgrid, if_neg (not_le.mpr htotal)]
    unfold computeSessionVolumeProfile
    cases hlast : session.getLast? with
    | none => exact absurd (List.getLast?_eq_none_iff.mp hlast) hsession
    | some last =>
        simp only
        rw [if_neg (not_le.mpr hrange), if_neg (not_le.mpr htotal)]
  · intro hnone
    by_cases hrange : sessionLow session < sessionHigh session
    · rw [if_pos (hsize.mpr hrange)] at hhistogram
      have htotal : ¬ 0 < r.histogram.total := by
        intro hpos
        rw [hhistogram] at hpos
        exact hnone ⟨hrange, (aggregateSessionVolume_total_pos_iff distribute session _).mp hpos⟩
      rw [if_pos (not_lt.mp htotal)]
    · rw [if_neg (fun hpos => hrange (hsize.mp hpos))] at hhistogram
      have htotal : (Histogram.zeros numBuckets).total ≤ 0 := le_refl 0
      rw [hhistogram, if_pos htotal]

/-- **Incremental against batch.** Whatever came before a session, after each
of its bars the state's levels are those of the batch profile of the
session's bars so far if and only if these bars have a price range and some
volume; and the first bar of a session leaves the profile that it leaves in a
new state. -/
theorem levels_eq_batch_iff (sessionDateOf : PyValue → String) (distribute : Distribution)
    (history session : List StreamBar) (date : String)
    (hstart : StartsSession sessionDateOf history date)
    (hdated : Dated sessionDateOf date session) (hsession : session ≠ []) :
    ((stateAfter sessionDateOf distribute (history ++ session)).levels
        = some (computeSessionVolumeProfile distribute session numBuckets).levels ↔
      HasProfile session) ∧
    (∀ bar, barDate sessionDateOf bar = some date →
      (stateAfter sessionDateOf distribute (history ++ [bar])).bars = [bar] ∧
      (stateAfter sessionDateOf distribute (history ++ [bar])).running
        = (stateAfter sessionDateOf distribute [bar]).running) := by
  obtain ⟨hsome, hnone⟩ := levels_inSession
    (stateAfter_session distribute hstart hdated hsession) hsession
  constructor
  · constructor
    · intro heq
      by_contra hprofile
      rw [hnone hprofile] at heq
      cases heq
    · exact hsome
  · intro bar hbar
    obtain ⟨hbars, hrunning⟩ := stateAfter_first distribute hbar hstart
    have hempty : StartsSession sessionDateOf [] date := .inl rfl
    obtain ⟨-, halone⟩ := stateAfter_first distribute hbar hempty
    rw [List.nil_append] at halone
    exact ⟨hbars, hrunning.trans halone.symm⟩

/-! ## §4 Sample sessions -/

/-- `_distribute_bar_volume` on bars without a range: all volume goes to the
bucket nearest to the typical price. -/
def nearestBucket : Distribution := fun bar grid =>
  let typicalPrice := (bar.high + bar.low + bar.close) / 3
  let nearest := argmax (grid.prices.map fun price => -|price - typicalPrice|)
  (List.range grid.prices.length).map fun i => if i = nearest then bar.volume else 0

/-- A bar of one price. -/
def flatBar (date : String) (price volume : ℚ) : StreamBar where
  openPrice := price
  high := price
  low := price
  close := price
  volume := volume
  timestamp := some (.str date)

/-- After a day at one price, a session with a range agrees with the batch
profile. -/
theorem levels_eq_batch_two_prices :
    (stateAfter PyValue.toStr nearestBucket
        ([flatBar "2024-01-01" 90 1]
          ++ [flatBar "2024-01-02" 100 1, flatBar "2024-01-02" 101 5])).levels
      = some (computeSessionVolumeProfile nearestBucket
          [flatBar "2024-01-02" 100 1, flatBar "2024-01-02" 101 5] numBuckets).levels := by
  refine (levels_eq_batch_iff PyValue.toStr nearestBucket [flatBar "2024-01-01" 90 1]
    [flatBar "2024-01-02" 100 1, flatBar "2024-01-02" 101 5] "2024-01-02" ?_ ?_ ?_).1.mpr ?_
  · exact .inr ⟨"2024-01-01", rfl, by decide⟩
  · intro bar hbar
    rw [List.mem_cons, List.mem_singleton] at hbar
    rcases hbar with rfl | rfl
    · rfl
    · rfl
  · exact List.cons_ne_nil _ _
  · refine ⟨?_, flatBar "2024-01-02" 100 1, List.mem_cons_self, ?_⟩
    · decide +kernel
    · decide +kernel

/-- A session at one price and a session without volume have no levels where
the batch profile has some. -/
theorem degenerate_levels_differ :
    (stateAfter PyValue.toStr nearestBucket [flatBar "2024-01-01" 100 5]).levels = none ∧
    (computeSessionVolumeProfile nearestBucket [flatBar "2024-01-01" 100 5]
      numBuckets).levels = ⟨100, 100, 100⟩ ∧
    (stateAfter PyValue.toStr nearestBucket
      [flatBar "2024-01-01" 100 0, flatBar "2024-01-01" 102 0]).levels = none ∧
    (computeSessionVolumeProfile nearestBucket
      [flatBar "2024-01-01" 100 0, flatBar "2024-01-01" 102 0] numBuckets).levels
      = ⟨102, 102, 100⟩ := by
  refine ⟨?_, ?_, ?_, ?_⟩
  all_goals decide +kernel

end Finbar.Streaming
