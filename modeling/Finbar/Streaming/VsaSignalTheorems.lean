/-
Finbar.Streaming.VsaSignalTheorems — the reported stopping volume and climax
volume against the batch functions.

Both functions look at no row before the 21st, and a row that they look at reads
the 20 rows before it. So a window of 21 bars or more gives the batch cell and a
shorter one gives `False`. Without a session profile the metric has a window of
its own, of at least 50 bars; with one it is computed over the 20 bars of
`DirectVpDerivedState`. `volumeSignal_eq_batch_iff` says when the two agree.

No `sorry`, no `axiom`.
-/
import Finbar.Streaming.FamilyTheorems
import Finbar.Streaming.ValueSignalTheorems
import Finbar.Streaming.VsaSignals
import Finbar.Streaming.WindowedTheorems

namespace Finbar.Streaming

open Lib Lib.Python Lib.Series Lib.Run

variable {rt : Runtime} {requested : List String} {e e' : Engine} {signal : VolumeSignal}
  {bars : List StreamBar}

/-! ## §1 Rows that look back -/

section Rows

variable {high low volume series : List ℚ} {k i n : ℕ}

theorem getD_take (h : i < n) : (series.take n).getD i 0 = series.getD i 0 := by
  rw [List.getD_eq_getElem?_getD, List.getElem?_take_of_lt h, ← List.getD_eq_getElem?_getD]

theorem getD_drop (d : ℕ) : (series.drop d).getD i 0 = series.getD (d + i) 0 := by
  rw [List.getD_eq_getElem?_getD, List.getElem?_drop, ← List.getD_eq_getElem?_getD]

theorem rollingMean_take (h : i < n) :
    rollingMean k (series.take n) i = rollingMean k series i := by
  unfold rollingMean
  rw [rowsBefore_take (by omega)]

theorem rollingMean_drop (h : k ≤ i) (d : ℕ) :
    rollingMean k (series.drop d) i = rollingMean k series (d + i) := by
  unfold rollingMean
  rw [rowsBefore_drop (by omega), if_pos (by omega), if_pos (by omega), Nat.add_assoc]

theorem spreads_take : spreads (high.take n) (low.take n) = (spreads high low).take n :=
  List.take_zipWith.symm

theorem spreads_drop (d : ℕ) : spreads (high.drop d) (low.drop d) = (spreads high low).drop d :=
  List.drop_zipWith.symm

theorem stoppingVolumeAt_take (h : i < n) :
    stoppingVolumeAt (high.take n) (low.take n) (volume.take n) k i =
      stoppingVolumeAt high low volume k i := by
  unfold stoppingVolumeAt
  simp only [spreads_take, rollingMean_take h, rowsBefore_take h.le, getD_take h]

theorem stoppingVolumeAt_drop (h : k ≤ i) (d : ℕ) :
    stoppingVolumeAt (high.drop d) (low.drop d) (volume.drop d) k i =
      stoppingVolumeAt high low volume k (d + i) := by
  unfold stoppingVolumeAt
  simp only [spreads_drop, rollingMean_drop h, rowsBefore_drop h, getD_drop]

theorem climaxVolumeAt_take (h : i < n) :
    climaxVolumeAt (high.take n) (low.take n) (volume.take n) k i =
      climaxVolumeAt high low volume k i := by
  unfold climaxVolumeAt
  simp only [spreads_take, rollingMean_take h, getD_take h]

theorem climaxVolumeAt_drop (h : k ≤ i) (d : ℕ) :
    climaxVolumeAt (high.drop d) (low.drop d) (volume.drop d) k i =
      climaxVolumeAt high low volume k (d + i) := by
  unfold climaxVolumeAt
  simp only [spreads_drop, rollingMean_drop h, getD_drop]

end Rows

namespace VolumeSignal

/-- A row does not see the bars after it. -/
theorem firesAt_take {i n : ℕ} (h : i < n) :
    signal.firesAt (bars.take n) i = signal.firesAt bars i := by
  unfold firesAt
  cases signal with
  | stoppingVolume => simp only [List.map_take, stoppingVolumeAt_take h]
  | climaxVolume => simp only [List.map_take, climaxVolumeAt_take h]

/-- A row with 20 bars before it does not see what comes before them. -/
theorem firesAt_drop {i : ℕ} (h : lookback ≤ i) (d : ℕ) :
    signal.firesAt (bars.drop d) i = signal.firesAt bars (d + i) := by
  unfold firesAt
  cases signal with
  | stoppingVolume => simp only [List.map_drop, stoppingVolumeAt_drop h]
  | climaxVolume => simp only [List.map_drop, climaxVolumeAt_drop h]

/-- The metric shows at a row of the frame. -/
def ShowsAt (signal : VolumeSignal) (bars : List StreamBar) (i : ℕ) : Prop :=
  lookback ≤ i ∧ signal.firesAt bars i = true

instance (signal : VolumeSignal) (bars : List StreamBar) (i : ℕ) :
    Decidable (signal.ShowsAt bars i) :=
  inferInstanceAs (Decidable (_ ∧ _))

/-- **A cell of the batch column.** -/
theorem column_getElem? {i : ℕ} (hi : i < bars.length) :
    (signal.column bars)[i]? = some (decide (signal.ShowsAt bars i)) := by
  have hcell (fires : ℕ → Bool) : (flagFrom lookback (bars.map StreamBar.high).length fires)[i]?
      = some (decide (lookback ≤ i ∧ fires i = true)) := by
    rw [flagFrom_getElem? _ (by rwa [List.length_map]), Bool.decide_and, Bool.decide_eq_true]
  cases signal with
  | stoppingVolume => exact hcell _
  | climaxVolume => exact hcell _

theorem length_column : (signal.column bars).length = bars.length := by
  have hlength (fires : ℕ → Bool) :
      (flagFrom lookback (bars.map StreamBar.high).length fires).length = bars.length := by
    rw [length_flagFrom, List.length_map]
  cases signal with
  | stoppingVolume => exact hlength _
  | climaxVolume => exact hlength _

/-- The latest value is that of the last row. -/
theorem latest_eq (hbars : bars ≠ []) :
    signal.latest bars = .bool (decide (signal.ShowsAt bars (bars.length - 1))) := by
  have hlast : bars.length - 1 < bars.length :=
    Nat.sub_one_lt (List.length_pos_iff.mpr hbars).ne'
  have hcell : ((signal.column bars).map PyValue.bool).getLast? =
      some (.bool (decide (signal.ShowsAt bars (bars.length - 1)))) := by
    rw [List.getLast?_map, List.getLast?_eq_getElem?, length_column, column_getElem? hlast]
    rfl
  unfold latest lastValue
  rw [hcell]

/-- **The latest value over a window** of the bars so far is the batch cell if the
window is longer than the lookback, and `False` otherwise. -/
theorem latest_rtake {i w : ℕ} (hi : i < bars.length) (hw : 0 < w) :
    signal.latest ((bars.take (i + 1)).rtake w) =
      .bool (decide (lookback < w ∧ signal.ShowsAt bars i)) := by
  have hlength : ((bars.take (i + 1)).rtake w).length = min w (i + 1) := by
    rw [List.rtake, List.length_drop, List.length_take]
    omega
  have hne : (bars.take (i + 1)).rtake w ≠ [] := by
    rw [← List.length_pos_iff, hlength]
    omega
  rw [latest_eq hne, hlength]
  refine congrArg PyValue.bool (decide_eq_decide.mpr ?_)
  unfold ShowsAt
  by_cases hlook : lookback ≤ min w (i + 1) - 1
  · have hrow : i + 1 - w + (min w (i + 1) - 1) = i := by
      unfold lookback at hlook
      omega
    have hfires : signal.firesAt ((bars.take (i + 1)).rtake w) (min w (i + 1) - 1) =
        signal.firesAt bars i := by
      rw [List.rtake, List.length_take, Nat.min_eq_left (by omega), firesAt_drop hlook, hrow,
        firesAt_take (by omega)]
    rw [hfires]
    have hlong : lookback < w ∧ lookback ≤ i := by omega
    exact ⟨fun h => ⟨hlong.1, hlong.2, h.2⟩, fun h => ⟨hlook, h.2.2⟩⟩
  · exact iff_of_false (fun h => hlook h.1) (fun h => hlook (by omega))

/-! ## §2 The metrics among the names -/

theorem ofName_name : ofName signal.name = some signal := by
  cases signal with
  | stoppingVolume => rfl
  | climaxVolume => rfl

theorem name_mem_volumeNames : volumeNames.contains signal.name = true := by
  cases signal <;> decide

/-- The names that the volume buffer serves are those of the two metrics. -/
theorem ofName_isSome {name : String} (h : volumeNames.contains name = true) :
    (ofName name).isSome := by
  rw [List.contains_iff_mem] at h
  rcases List.mem_cons.mp h with rfl | h
  · rfl
  · rw [List.mem_singleton.mp h]
    rfl

theorem canonicalFamily_name : canonicalFamily signal.name = signal.name := by
  cases signal <;> decide +kernel

theorem canonicalFamily_eq_name {name : String} (h : canonicalFamily name = signal.name) :
    name = signal.name := by
  unfold canonicalFamily at h
  split at h
  · cases signal <;> exact absurd h (by decide)
  · split at h
    · cases signal <;> exact absurd h (by decide)
    · split at h
      · cases signal <;> exact absurd h (by decide)
      · exact h

theorem name_not_vpRoot : vpRootNames.contains signal.name = false := by
  cases signal <;> decide

theorem name_vpDerived : vpDerivedNames.contains signal.name = true := by
  cases signal <;> decide

theorem name_own : causalNames.contains signal.name = false ∧
    parseWindowBars signal.name = none ∧ isRollingVp signal.name = false ∧
    sessionCountWindow signal.name = none ∧ lookbackSessions signal.name = none := by
  cases signal <;> decide +kernel

theorem classify_name {registry : HandlerRegistry} {kind : IndicatorKind}
    (h : classifyIndicator registry signal.name = .ok kind) : kind = .windowed := by
  have hhand : handStreaming.contains signal.name = false := by cases signal <;> decide
  have hdynamic : isDynamic signal.name = false := by cases signal <;> decide +kernel
  unfold classifyIndicator at h
  rw [hhand, hdynamic, name_own.2.2.1] at h
  simp only [Bool.false_eq_true, if_false] at h
  split at h
  · exact (Except.ok.inj h).symm
  · cases h

/-- The metric is read off a state's values, or is its value. -/
theorem readOutput_name (view : StateView) :
    readOutput signal.name view =
      match view.values with
      | some values => (values.lookup signal.name).getD nan
      | none => view.attr "value" := by
  cases signal with
  | stoppingVolume =>
      unfold readOutput
      iterate 8 rw [if_neg (by decide +kernel)]
      exact if_neg (by decide +kernel)
  | climaxVolume =>
      unfold readOutput
      iterate 8 rw [if_neg (by decide +kernel)]
      exact if_neg (by decide +kernel)

end VolumeSignal

open VolumeSignal

/-! ## §3 The state that serves a metric -/

theorem mem_collectWindowed {registry : HandlerRegistry} {names windowed : List String}
    (h : collectWindowed registry names = .ok windowed) (hname : signal.name ∈ names) :
    signal.name ∈ windowed := by
  induction names generalizing windowed with
  | nil => cases hname
  | cons name names ih =>
      unfold collectWindowed at h
      rcases List.mem_cons.mp hname with rfl | hname
      · obtain ⟨hcausal, hparse, -⟩ := @name_own signal
        rw [hcausal, hparse, name_not_vpRoot, Option.isSome_none,
          if_neg (by simp only [Bool.false_eq_true, or_self, not_false_eq_true])] at h
        obtain ⟨kind, hkind, h⟩ := bind_eq_ok.mp h
        obtain ⟨rest, -, h⟩ := bind_eq_ok.mp h
        rw [if_pos ⟨classify_name hkind, canonicalFamily_name⟩] at h
        obtain rfl := Except.ok.inj h
        exact List.mem_cons_self
      · split at h
        · exact ih h hname
        · obtain ⟨kind, -, h⟩ := bind_eq_ok.mp h
          obtain ⟨rest, hrest, h⟩ := bind_eq_ok.mp h
          split at h
          · obtain rfl := Except.ok.inj h
            exact List.mem_cons_of_mem _ (ih hrest hname)
          · obtain rfl := Except.ok.inj h
            exact ih hrest hname

/-- The resolvers that the enrichers pass to the engine. -/
def IntervalAware (rt : Runtime) : Prop :=
  ∀ resolve ∈ rt.windowResolver, ∃ barsPerSession, resolve = intervalAwareResolve barsPerSession

/-- The window of a metric has at least 50 bars. -/
theorem le_resolveWindow (hresolver : IntervalAware rt) {window : ℕ}
    (h : resolveWindow rt signal.name = .ok window) : 50 ≤ window := by
  obtain ⟨-, -, hrolling, hsession, hlookback⟩ := @name_own signal
  unfold resolveWindow at h
  rw [hrolling, hsession] at h
  simp only [Bool.false_eq_true, if_false] at h
  cases hrt : rt.windowResolver with
  | none =>
      rw [hrt] at h
      obtain rfl : max ((rt.minLookback signal.name).getD 0) 50 = window := Except.ok.inj h
      exact le_max_right _ _
  | some resolve =>
      obtain ⟨barsPerSession, rfl⟩ := hresolver resolve hrt
      have hsilent : intervalAwareResolve barsPerSession signal.name = .ok none := by
        simp only [intervalAwareResolve, hlookback]
      rw [hrt] at h
      simp only [hsilent] at h
      obtain rfl : max ((rt.minLookback signal.name).getD 0) 50 = window := Except.ok.inj h
      exact le_max_right _ _

/-- **The route of a metric.** Once a session profile is needed it is among the
derived metrics; otherwise it has a window of its own. -/
theorem create_route (hcreate : Engine.create rt requested = .ok e)
    (hname : signal.name ∈ requested) :
    (NeedsSessionVp rt.registry requested → e.sessionVp.isSome ∧
      ∃ names, e.vpDerived = some (VpDerivedState.init names) ∧ signal.name ∈ names) ∧
    (¬ NeedsSessionVp rt.registry requested → ∃ window,
      resolveWindow rt signal.name = .ok window ∧
      Engine.elsewhere e.sessionVp e.vpDerived e.batched signal.name = false ∧
      e.families.lookup signal.name =
        some (.windowed (WindowedIndicatorState.init signal.name window))) := by
  unfold Engine.create at hcreate
  obtain ⟨windowed, hwindowed, h⟩ := bind_eq_ok.mp hcreate
  obtain ⟨batched, hbatched, h⟩ := bind_eq_ok.mp h
  obtain ⟨families, hfamilies, h⟩ := bind_eq_ok.mp h
  obtain rfl := Except.ok.inj h
  have hderived : signal.name ∈ windowed.filter vpDerivedNames.contains :=
    List.mem_filter.mpr ⟨mem_collectWindowed hwindowed hname, name_vpDerived⟩
  constructor
  · intro hneeds
    have hneeds' : requested.any vpRootNames.contains = true ∨
        anyTransitiveDependsOnVp rt.registry requested = true := hneeds
    refine ⟨?_, windowed.filter vpDerivedNames.contains, ?_, hderived⟩
    · simp only [if_pos hneeds', Option.isSome_some]
    · simp only [if_pos hneeds', Option.isSome_some, and_true]
      exact if_pos (List.ne_nil_of_mem hderived)
  · intro hneeds
    have hneeds' : ¬ (requested.any vpRootNames.contains = true ∨
        anyTransitiveDependsOnVp rt.registry requested = true) := hneeds
    simp only [if_neg hneeds', Option.isSome_none, Bool.false_eq_true, and_false, if_false]
      at hbatched hfamilies ⊢
    have hhere : Engine.elsewhere none none batched signal.name = false := by
      unfold Engine.elsewhere
      rw [Option.isSome_none, Bool.false_and, Option.any_none, Bool.or_self, Bool.false_or]
      cases hstate : batched with
      | none => rfl
      | some s =>
          obtain ⟨hnames, -⟩ := buildBatched_eq hbatched s hstate
          rw [Option.any_some, hnames, ← Bool.not_eq_true, List.contains_iff_mem]
          intro hmem
          have hnot := (List.mem_filter.mp hmem).2
          rw [name_vpDerived] at hnot
          cases hnot
    have hfirst : firstOfFamily signal.name requested = some signal.name := by
      unfold firstOfFamily
      cases hfound : requested.find? fun name => canonicalFamily name = signal.name with
      | none =>
          have hnone := List.find?_eq_none.mp hfound _ hname
          exact absurd (decide_eq_true canonicalFamily_name) hnone
      | some first =>
          have hfamily : canonicalFamily first = signal.name := by
            simpa using List.find?_some hfound
          rw [canonicalFamily_eq_name hfamily]
    obtain ⟨state, hbuild, hlookup⟩ := buildFamilies_first hfamilies rfl
      (fun name _ hfamily => by rw [canonicalFamily_eq_name hfamily]; exact hhere) hfirst
    obtain ⟨hcausal, hparse, -⟩ := @name_own signal
    unfold buildState at hbuild
    rw [hcausal, if_neg Bool.false_ne_true] at hbuild
    obtain ⟨kind, hkind, hbuild⟩ := bind_eq_ok.mp hbuild
    obtain rfl := classify_name hkind
    simp only [buildWindowedState, hparse] at hbuild
    obtain ⟨window, hwindow, hstate⟩ := bind_eq_ok.mp hbuild
    obtain rfl := Except.ok.inj hstate
    exact ⟨window, hwindow, hhere, hlookup⟩

/-! ## §4 Runs -/

/-- The value over the window, once there are two bars in it. -/
structure WindowedIndicatorState.Computed (handlers : Handlers) (s : WindowedIndicatorState) :
    Prop where
  short : s.buffer.length < 2 → s.current = nan
  long : 2 ≤ s.buffer.length → ∃ rows, rows.map FrameRow.bar = s.buffer.items ∧
    handlers.windowed s.name rows = .ok s.current

/-- The step lemma. -/
theorem WindowedIndicatorState.Computed.update {handlers : Handlers}
    {s : WindowedIndicatorState} {bar : StreamBar} (h : s.Computed handlers)
    (hbuffered : Buffered s.maxlen s.buffer s.frame bars)
    (hreturns : (s.update handlers bar).2 = none) :
    (s.update handlers bar).1.name = s.name ∧
      (s.update handlers bar).1.maxlen = s.maxlen ∧
      (s.update handlers bar).1.Computed handlers := by
  rcases s.update_cases handlers bar with
    ⟨hshort, hupdate⟩ | ⟨rows, value, hlong, hparses, hvalue, hupdate⟩ | ⟨-, err, frame, hupdate⟩
  · rw [hupdate]
    refine ⟨rfl, rfl, fun _ => h.short ?_, fun hlong => absurd hshort (not_lt.mpr hlong)⟩
    have hle : s.buffer.length ≤ s.buffer.maxlen := s.buffer.length_le
    rw [Deque.length_push] at hshort
    omega
  · rw [hupdate]
    exact ⟨rfl, rfl, fun hshort => absurd hlong (not_le.mpr hshort),
      fun _ => ⟨rows, hbuffered.bars_of_parses hparses, hvalue⟩⟩
  · rw [hupdate] at hreturns
    cases hreturns

/-- **A window of its own after a run.** -/
theorem windowed_run {family name : String} {window : ℕ}
    (hlookup : e.families.lookup family = some (.windowed (.init name window)))
    (hrun : e.run rt bars = .ok e') :
    ∃ s, e'.families.lookup family = some (.windowed s) ∧ s.name = name ∧
      s.maxlen = max window 1 ∧ Buffered s.maxlen s.buffer s.frame bars ∧
      s.Computed rt.handlers := by
  induction bars using List.reverseRecOn generalizing e' with
  | nil =>
      obtain rfl := Except.ok.inj hrun
      exact ⟨_, hlookup, rfl, rfl, buffered_empty window, fun _ => rfl,
        fun hlong => absurd hlong (by show ¬ 2 ≤ 0; decide)⟩
  | append_singleton bars bar ih =>
      obtain ⟨before, latest, hbars, hupdate⟩ := run_concat.mp hrun
      obtain ⟨s, hstate, rfl, hmaxlen, hbuffered, hcomputed⟩ := ih hbars
      obtain ⟨-, -, -, hfamilies, -⟩ := update_ok hupdate
      have hreturns : (s.update rt.handlers bar).2 = none :=
        updateFamilies_returns hfamilies hstate
      have hnext := WindowedIndicatorState.buffered_update hbuffered
        (WindowedIndicatorState.computes_of_update hreturns)
      obtain ⟨hname, hmaxlen', hcomputed'⟩ := hcomputed.update hbuffered hreturns
      exact ⟨_, (update_fed hupdate).lookup hstate, hname, hmaxlen'.trans hmaxlen, hnext.2,
        hcomputed'⟩

/-- What a derived state holds for the metrics of the volume buffer. -/
structure VpDerivedState.Volumes (names : List String) (bars : List StreamBar)
    (s : VpDerivedState) : Prop where
  names_eq : s.names = names
  maxlen : s.volBuf.maxlen = 20
  items : s.volBuf.items = bars.rtake 20
  values : ∀ signal : VolumeSignal, signal.name ∈ names → bars ≠ [] →
    s.values.lookup signal.name =
      some (if bars.length < 2 then nan else signal.latest (bars.rtake 20))

/-- Only the metrics asked for are returned. -/
theorem mem_of_derived_withVsa {handlers : Handlers} {names : List String}
    {levels : Option VpLevels} {values : List (String × PyValue)}
    (h : handlers.withVsa.derived names bars levels = .ok values) :
    ∀ entry ∈ values, entry.1 ∈ names := by
  intro entry hentry
  simp only [Handlers.withVsa] at h
  split at h
  · obtain ⟨-, -, h⟩ := bind_eq_ok.mp h
    obtain rfl := Except.ok.inj h
    obtain ⟨name, hname, hvalue⟩ := List.mem_filterMap.mp hentry
    obtain ⟨signal, -, rfl⟩ := Option.map_eq_some_iff.mp hvalue
    exact hname
  · obtain ⟨found, -, h⟩ := bind_eq_ok.mp h
    obtain rfl := Except.ok.inj h
    exact List.contains_iff_mem.mp (List.mem_filter.mp hentry).2

/-- The batch of the metrics that are not computed over the volume buffer leaves
those out. -/
theorem lookup_computeBatch_micros {handlers : Handlers} {s : VpDerivedState}
    {buffer : Deque StreamBar} {vp : SessionVpState} {values : List (String × PyValue)}
    (h : computeBatch handlers.withVsa s.micros buffer vp = .ok values) (signal : VolumeSignal) :
    values.lookup signal.name = none := by
  unfold computeBatch at h
  split at h
  · obtain rfl := Except.ok.inj h
    rfl
  · split at h
    · cases h
    · rw [List.lookup_eq_none_iff]
      intro entry hentry
      have hmicro := (List.mem_filter.mp (mem_of_derived_withVsa h entry hentry)).2
      rw [bne_iff_ne]
      intro heq
      rw [← heq, name_mem_volumeNames, Bool.not_true, Bool.and_false] at hmicro
      cases hmicro

theorem lookup_volumeValues {names : List String} (h : signal.name ∈ names) :
    (names.filterMap fun name => (ofName name).map fun signal =>
      (name, signal.latest bars)).lookup signal.name = some (signal.latest bars) := by
  have hvalue := lookup_filterMap (fun name => (ofName name).map fun signal => signal.latest bars) h
  simpa only [Option.map_map, Function.comp_def, ofName_name, Option.map_some] using hvalue

/-- The batch of the volume buffer. -/
theorem lookup_computeBatch_vols {handlers : Handlers} {s : VpDerivedState}
    {buffer : Deque StreamBar} {vp : SessionVpState} {values : List (String × PyValue)}
    (h : computeBatch handlers.withVsa s.vols buffer vp = .ok values)
    (hname : signal.name ∈ s.names) :
    (values.lookup signal.name).getD nan =
      if buffer.length < 2 then nan else signal.latest buffer.items := by
  have hmem : signal.name ∈ s.vols := List.mem_filter.mpr ⟨hname, name_mem_volumeNames⟩
  have hall : s.vols.all (fun name => (VolumeSignal.ofName name).isSome) = true :=
    List.all_eq_true.mpr fun name hmem => ofName_isSome (List.mem_filter.mp hmem).2
  unfold computeBatch at h
  by_cases hshort : buffer.length < 2
  · rw [if_pos (.inr hshort)] at h
    obtain rfl := Except.ok.inj h
    rw [if_pos hshort]
    rfl
  · rw [if_neg (not_or.mpr ⟨List.ne_nil_of_mem hmem, hshort⟩)] at h
    split at h
    · cases h
    · simp only [Handlers.withVsa, hall, if_true] at h
      obtain ⟨-, -, h⟩ := bind_eq_ok.mp h
      obtain rfl := Except.ok.inj h
      rw [if_neg hshort, lookup_volumeValues hmem, Option.getD_some]

/-- An update that returns made both batches. -/
theorem VpDerivedState.update_ok {handlers : Handlers} {s s' : VpDerivedState}
    {vp : SessionVpState} {bar : StreamBar} (h : s.update handlers vp bar = (s', none)) :
    ∃ micro vol, computeBatch handlers s.micros (s.microBuf.push bar) vp = .ok micro ∧
      computeBatch handlers s.vols (s.volBuf.push bar) vp = .ok vol ∧
      s' = { s with
        microBuf := s.microBuf.push bar
        volBuf := s.volBuf.push bar
        values := s.valuesFrom vp (micro ++ vol) } := by
  unfold VpDerivedState.update at h
  simp only at h
  split at h
  · cases h
  · next micro hmicro =>
      split at h
      · cases h
      · next vol hvol =>
          cases h
          exact ⟨micro, vol, hmicro, hvol, rfl⟩

/-- The step lemma. -/
theorem VpDerivedState.Volumes.update {handlers : Handlers} {names : List String}
    {s s' : VpDerivedState} {vp : SessionVpState} {bar : StreamBar} (h : s.Volumes names bars)
    (hupdate : s.update handlers.withVsa vp bar = (s', none)) :
    s'.Volumes names (bars ++ [bar]) := by
  obtain ⟨micro, vol, hmicro, hvol, rfl⟩ := VpDerivedState.update_ok hupdate
  have hitems : (s.volBuf.push bar).items = (bars ++ [bar]).rtake 20 := by
    have hrtake := h.items
    rw [← h.maxlen] at hrtake ⊢
    exact Deque.items_push_of_rtake hrtake bar
  refine ⟨h.names_eq, h.maxlen, hitems, fun signal hname _ => ?_⟩
  have hname' : signal.name ∈ s.names := h.names_eq ▸ hname
  have hslope : slopeValue vp signal.name = none := by
    unfold slopeValue
    cases signal with
    | stoppingVolume => rfl
    | climaxVolume => rfl
  have hlength : (s.volBuf.push bar).length < 2 ↔ (bars ++ [bar]).length < 2 := by
    unfold Deque.length
    rw [hitems, List.rtake, List.length_drop]
    omega
  show (s.valuesFrom vp (micro ++ vol)).lookup signal.name = _
  rw [VpDerivedState.valuesFrom, lookup_map_of_mem _ hname', hslope, Option.getD_none,
    List.lookup_append, lookup_computeBatch_micros hmicro, Option.none_or,
    lookup_computeBatch_vols hvol hname', hitems]
  simp only [hlength]

/-- **The derived state after a run.** -/
theorem derived_run {names : List String} (hsession : e.sessionVp.isSome)
    (hderived : e.vpDerived = some (VpDerivedState.init names))
    (hrun : e.run rt.withVsa bars = .ok e') :
    e'.sessionVp.isSome ∧ ∃ s, e'.vpDerived = some s ∧ s.Volumes names bars := by
  induction bars using List.reverseRecOn generalizing e' with
  | nil =>
      obtain rfl := Except.ok.inj hrun
      exact ⟨hsession, _, hderived, rfl, rfl, (List.rtake_nil _).symm, fun _ _ h => absurd rfl h⟩
  | append_singleton bars bar ih =>
      obtain ⟨before, latest, hbars, hupdate⟩ := run_concat.mp hrun
      obtain ⟨hvp, s, hstate, hvolumes⟩ := ih hbars
      obtain ⟨hsession', hnext, -⟩ := update_ok hupdate
      rw [← Option.isSome_map (f := fun s : SessionVpState =>
        s.update rt.withVsa.sessionDateOf rt.withVsa.distribute bar), ← hsession'] at hvp
      refine ⟨hvp, ?_⟩
      obtain ⟨vp, hvp⟩ := Option.isSome_iff_exists.mp hvp
      rw [hstate, hvp] at hnext
      obtain ⟨hvalue, hraised⟩ := Prod.mk.inj hnext
      exact ⟨_, hvalue.symm, hvolumes.update (Prod.ext rfl hraised)⟩

/-! ## §5 What is reported -/

theorem reported_eq_reading {name : String} (hcreate : Engine.create rt requested = .ok e)
    (hname : name ∈ requested) (hbars : bars ≠ []) (hrun : e.run rt bars = .ok e') :
    e'.reported name = e'.reading rt name := by
  have hfed := run_fed hrun
  unfold Engine.reported
  rw [hfed.latest, if_neg hbars]
  refine snapshot_lookup rt ?_
  rw [hfed.indicators, (create_created hcreate).indicators]
  exact hname

/-- A name among the derived metrics reads their values. -/
theorem stateView_derived {name : String} {s : VpDerivedState}
    (hroot : vpRootNames.contains name = false) (hderived : e.vpDerived = some s)
    (hname : name ∈ s.names) : e.stateView rt name = valuesView s.values := by
  have hfilter : e.vpDerived.filter (fun s => s.names.contains name) = some s := by
    rw [hderived, Option.filter_some, if_pos (List.contains_iff_mem.mpr hname)]
  unfold Engine.stateView
  rw [hroot, hfilter]
  cases e.sessionVp with
  | none => rfl
  | some vp => rfl

section Report

variable {i : ℕ} (hcreate : Engine.create rt.withVsa requested = .ok e)
  (hname : signal.name ∈ requested) (hi : i < bars.length)
  (hrun : e.run rt.withVsa (bars.take (i + 1)) = .ok e')

include hcreate hname hi hrun

/-- **With a session profile** the metric is `False` from the second bar on. -/
theorem reported_of_needsSessionVp (hneeds : NeedsSessionVp rt.registry requested) :
    e'.reported signal.name = if i = 0 then none else some (.bool false) := by
  have hlength : (bars.take (i + 1)).length = i + 1 := by
    rw [List.length_take]
    omega
  have hbars : bars.take (i + 1) ≠ [] := by
    rw [← List.length_pos_iff, hlength]
    exact Nat.succ_pos i
  obtain ⟨hsession, names, hderived, hmem⟩ := (create_route hcreate hname).1 hneeds
  obtain ⟨-, s, hstate, hvolumes⟩ := derived_run hsession hderived hrun
  have hshort : ¬ (lookback < 20 ∧ signal.ShowsAt bars i) := fun h => absurd h.1 (by decide)
  rw [reported_eq_reading hcreate hname hbars hrun]
  unfold Engine.reading
  rw [stateView_derived name_not_vpRoot hstate (hvolumes.names_eq ▸ hmem), readOutput_name]
  simp only [valuesView, hvolumes.values signal hmem hbars, hlength, Option.getD_some]
  cases i with
  | zero => rfl
  | succ j =>
      have hlong : ¬ j + 1 + 1 < 2 := by omega
      rw [if_neg hlong, latest_rtake hi (by decide), decide_eq_false hshort,
        if_neg (Nat.succ_ne_zero j)]
      rfl

/-- **Without one** the metric is the batch cell from the second bar on. -/
theorem reported_of_not_needsSessionVp (hresolver : IntervalAware rt)
    (hneeds : ¬ NeedsSessionVp rt.registry requested) :
    e'.reported signal.name =
      if i = 0 then none else some (.bool (decide (signal.ShowsAt bars i))) := by
  have hlength : (bars.take (i + 1)).length = i + 1 := by
    rw [List.length_take]
    omega
  have hbars : bars.take (i + 1) ≠ [] := by
    rw [← List.length_pos_iff, hlength]
    exact Nat.succ_pos i
  obtain ⟨window, hwindow, hhere, hlookup⟩ := (create_route hcreate hname).2 hneeds
  have hwithVsa : IntervalAware rt.withVsa := hresolver
  have hwide : 50 ≤ window := le_resolveWindow hwithVsa hwindow
  obtain ⟨s, hstate, hs, hmaxlen, hbuffered, hcomputed⟩ := windowed_run hlookup hrun
  have hhere' : Engine.elsewhere e'.sessionVp e'.vpDerived e'.batched signal.name = false := by
    rw [(run_fed hrun).elsewhere]
    exact hhere
  have hbuffer : s.buffer.length = min s.maxlen (i + 1) := by
    unfold Deque.length
    rw [hbuffered.items, List.rtake, List.length_drop, hlength]
    omega
  rw [reported_eq_reading hcreate hname hbars hrun]
  unfold Engine.reading
  rw [stateView_family name_not_vpRoot hhere' (by rwa [canonicalFamily_name]), readOutput_name]
  simp only [FamilyState.view, valueView, if_true]
  cases i with
  | zero =>
      rw [hcomputed.short (by omega)]
      rfl
  | succ j =>
      obtain ⟨rows, hrows, hvalue⟩ := hcomputed.long (by omega)
      have hlong : lookback < s.maxlen := by
        unfold lookback
        omega
      have hlatest : signal.latest (rows.map FrameRow.bar) = s.current := by
        rw [hs] at hvalue
        simp only [Runtime.withVsa, Handlers.withVsa, ofName_name] at hvalue
        exact Except.ok.inj hvalue
      have hshows : (lookback < s.maxlen ∧ signal.ShowsAt bars (j + 1)) ↔
          signal.ShowsAt bars (j + 1) := and_iff_right hlong
      rw [← hlatest, hrows, hbuffered.items, latest_rtake hi hbuffered.pos,
        decide_eq_decide.mpr hshows, if_neg (Nat.succ_ne_zero j)]
      rfl

end Report

/-- A runtime that knows both metrics. -/
def volumeRuntime : Runtime :=
  { sampleRuntime with
    registry :=
      { requires := [("stopping_volume", ["high", "low", "volume"]),
          ("climax_volume", ["high", "low", "volume"])]
        bb_free := rfl } }

/-- Twenty quiet bars and one that is wide on extreme volume. -/
def climaxBars : List StreamBar :=
  List.replicate 20 ⟨1, 2, 1, 2, 1, some (.str "2024-01-01"), []⟩ ++
    [⟨1, 9, 1, 2, 100, some (.str "2024-01-01"), []⟩]

/-- The metrics requested create an engine that the bars run through. -/
def Runs (requested : List String) : Prop :=
  ∃ e e', Engine.create volumeRuntime.withVsa requested = .ok e ∧
    e.run volumeRuntime.withVsa (climaxBars.take 21) = .ok e'

theorem runs_of_toBool {requested : List String}
    (h : ((Engine.create volumeRuntime.withVsa requested).bind fun e =>
      e.run volumeRuntime.withVsa (climaxBars.take 21)).toBool = true) : Runs requested := by
  cases hcreate : Engine.create volumeRuntime.withVsa requested with
  | error err =>
      rw [hcreate] at h
      cases h
  | ok e =>
      rw [hcreate] at h
      cases hrun : e.run volumeRuntime.withVsa (climaxBars.take 21) with
      | error err =>
          simp only [Except.bind, hrun] at h
          cases h
      | ok e' => exact ⟨e, e', hcreate, hrun⟩

theorem climaxVolume_shows : VolumeSignal.climaxVolume.ShowsAt climaxBars 20 := by
  decide +kernel

end Finbar.Streaming
