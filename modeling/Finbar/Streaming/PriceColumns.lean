/-
Finbar.Streaming.PriceColumns — the price-action columns in the engine.

`Runtime.withPriceColumns` is a runtime whose handlers compute the registered
price-action columns: alone over the window of a `WindowedIndicatorState`, and with
other windowed names over the shared window of a `BatchedWindowedState`. Their
windows hold 50 bars or more and the columns look back on 49 at most, so the engine
reports the cell of the batch column (`priceColumn_reported`).

No `sorry`, no `axiom`.
-/
import Finbar.Indicators.PriceColumns
import Finbar.Streaming.VsaSignalTheorems

namespace Finbar.Streaming

open Lib Lib.Python Lib.Run Finbar.Indicators

variable {rt : Runtime} {requested : List String} {e e' : Engine} {name : String}
  {bars : List StreamBar} {handlers : Handlers}

/-! ## §1 The handlers -/

/-- The handlers with columns of bars; the other names of a batch are computed as before. -/
def Handlers.withColumns (columns : String → Option (List StreamBar → List PyValue))
    (handlers : Handlers) : Handlers :=
  { handlers with
    windowed := fun name rows =>
      match columns name with
      | some column => .ok (lastValue (column (rows.map FrameRow.bar)))
      | none => handlers.windowed name rows
    batched := fun names injected rows => do
      let others ← handlers.batched
        (names.filter fun name => (columns name).isNone) injected rows
      return names.map fun name =>
        (name,
          match columns name with
          | some column => lastValue (column (rows.map FrameRow.bar))
          | none => (others.lookup name).getD nan) }

/-- The runtime with columns of bars. -/
def Runtime.withColumns (columns : String → Option (List StreamBar → List PyValue))
    (rt : Runtime) : Runtime :=
  { rt with handlers := rt.handlers.withColumns columns }

/-- The runtime with the price-action columns. -/
def Runtime.withPriceColumns (rt : Runtime) : Runtime :=
  rt.withColumns fun name => (PriceColumn.find name).map PriceColumn.column

/-- What the engine reports for a cell: its last value, unless it is missing. -/
def cellReading (cell : PyValue) : Option PyValue :=
  let value := lastValue [cell]
  if value.isMissing then none else some value

/-! ## §2 Names with a window of their own -/

/-- A name that only a window serves, and that is read off it under its own name. -/
structure PlainWindow (name : String) : Prop where
  causal : causalNames.contains name = false
  rolling : parseWindowBars name = none ∧ isRollingVp name = false
  root : vpRootNames.contains name = false
  derived : vpDerivedNames.contains name = false
  sessions : sessionCountWindow name = none ∧ lookbackSessions name = none
  family : canonicalFamily name = name ∧ name ≠ "macd" ∧ name ≠ "bb"
  hand : handStreaming.contains name = false ∧ isDynamic name = false
  bands : startsWith name "bb_upper" = false ∧ startsWith name "bb_middle" = false ∧
    startsWith name "bb_lower" = false

/-- The price-action columns have a window of their own. -/
theorem plainWindow_of_mem {column : PriceColumn} (h : column ∈ priceColumns) :
    PlainWindow column.name where
  causal := (by decide +kernel :
    ∀ column ∈ priceColumns, causalNames.contains column.name = false) column h
  rolling := (by decide +kernel : ∀ column ∈ priceColumns,
    parseWindowBars column.name = none ∧ isRollingVp column.name = false) column h
  root := (by decide +kernel :
    ∀ column ∈ priceColumns, vpRootNames.contains column.name = false) column h
  derived := (by decide +kernel :
    ∀ column ∈ priceColumns, vpDerivedNames.contains column.name = false) column h
  sessions := (by decide +kernel : ∀ column ∈ priceColumns,
    sessionCountWindow column.name = none ∧ lookbackSessions column.name = none) column h
  family := (by decide +kernel : ∀ column ∈ priceColumns, canonicalFamily column.name = column.name ∧
    column.name ≠ "macd" ∧ column.name ≠ "bb") column h
  hand := (by decide +kernel : ∀ column ∈ priceColumns,
    handStreaming.contains column.name = false ∧ isDynamic column.name = false) column h
  bands := (by decide +kernel : ∀ column ∈ priceColumns,
    startsWith column.name "bb_upper" = false ∧ startsWith column.name "bb_middle" = false ∧
      startsWith column.name "bb_lower" = false) column h

/-- No two columns have the same name. -/
theorem find_name {column : PriceColumn} (h : column ∈ priceColumns) :
    PriceColumn.find column.name = some column := by
  have hnodup : (priceColumns.map PriceColumn.name).Nodup := by decide +kernel
  have hfound : (PriceColumn.find column.name).isSome := by
    rw [PriceColumn.find, List.find?_isSome]
    exact ⟨column, h, decide_eq_true rfl⟩
  obtain ⟨found, hfound⟩ := Option.isSome_iff_exists.mp hfound
  have hname : found.name = column.name := by simpa using List.find?_some hfound
  rw [hfound, List.inj_on_of_nodup_map hnodup (List.mem_of_find?_eq_some hfound) h hname]

namespace PlainWindow

theorem readOutput_eq (h : PlainWindow name) (view : StateView) :
    readOutput name view =
      match view.values with
      | some values => (values.lookup name).getD nan
      | none => view.attr "value" := by
  have hne : ∀ other ∈ macdNames ++ vpRootNames, name ≠ other := by
    rintro other hother rfl
    rcases List.mem_append.mp hother with hmacd | hroot
    · have hfamily := h.family.1
      unfold canonicalFamily at hfamily
      rw [if_pos (List.contains_iff_mem.mpr hmacd)] at hfamily
      exact h.family.2.1 hfamily.symm
    · exact Bool.false_ne_true (h.root.symm.trans (List.contains_iff_mem.mpr hroot))
  have hmacd := hne "macd" (by decide)
  have hsignal := hne "macd_signal" (by decide)
  have hhist := hne "macd_hist" (by decide)
  have hpoc := hne "vp_poc" (by decide)
  have hvah := hne "vp_vah" (by decide)
  have hval := hne "vp_val" (by decide)
  obtain ⟨hupper, hmiddle, hlower⟩ := h.bands
  unfold readOutput
  rw [if_neg hmacd, if_neg hsignal, if_neg hhist, hupper, hmiddle, hlower, if_neg hpoc, if_neg hvah,
    if_neg hval]
  rfl

theorem canonicalFamily_eq (h : PlainWindow name) {other : String}
    (hfamily : canonicalFamily other = name) : other = name := by
  obtain ⟨-, hmacd, hbb⟩ := h.family
  unfold canonicalFamily at hfamily
  split at hfamily
  · exact absurd hfamily.symm hmacd
  · split at hfamily
    · exact absurd hfamily.symm hbb
    · split at hfamily
      · exact absurd hfamily.symm hbb
      · exact hfamily

theorem classify (h : PlainWindow name) {registry : HandlerRegistry} {kind : IndicatorKind}
    (hkind : classifyIndicator registry name = .ok kind) : kind = .windowed := by
  unfold classifyIndicator at hkind
  rw [h.hand.1, h.hand.2, h.rolling.2] at hkind
  simp only [Bool.false_eq_true, if_false] at hkind
  split at hkind
  · exact (Except.ok.inj hkind).symm
  · cases hkind

theorem mem_collectWindowed (h : PlainWindow name) {registry : HandlerRegistry}
    {names windowed : List String} (hcollect : collectWindowed registry names = .ok windowed)
    (hname : name ∈ names) : name ∈ windowed := by
  induction names generalizing windowed with
  | nil => cases hname
  | cons first names ih =>
      unfold collectWindowed at hcollect
      rcases List.mem_cons.mp hname with rfl | hname
      · rw [h.causal, h.rolling.1, h.root, Option.isSome_none,
          if_neg (by simp only [Bool.false_eq_true, or_self, not_false_eq_true])] at hcollect
        obtain ⟨kind, hkind, hcollect⟩ := bind_eq_ok.mp hcollect
        obtain ⟨rest, -, hcollect⟩ := bind_eq_ok.mp hcollect
        rw [if_pos ⟨h.classify hkind, h.family.1⟩] at hcollect
        obtain rfl := Except.ok.inj hcollect
        exact List.mem_cons_self
      · split at hcollect
        · exact ih hcollect hname
        · obtain ⟨kind, -, hcollect⟩ := bind_eq_ok.mp hcollect
          obtain ⟨rest, hrest, hcollect⟩ := bind_eq_ok.mp hcollect
          split at hcollect
          · obtain rfl := Except.ok.inj hcollect
            exact List.mem_cons_of_mem _ (ih hrest hname)
          · obtain rfl := Except.ok.inj hcollect
            exact ih hrest hname

/-- Its window has at least 50 bars. -/
theorem le_window (h : PlainWindow name) (hresolver : IntervalAware rt) {window : ℕ}
    (hwindow : resolveWindow rt name = .ok window) : 50 ≤ window := by
  unfold resolveWindow at hwindow
  rw [h.rolling.2, h.sessions.1] at hwindow
  simp only [Bool.false_eq_true, if_false] at hwindow
  cases hrt : rt.windowResolver with
  | none =>
      rw [hrt] at hwindow
      obtain rfl : max ((rt.minLookback name).getD 0) 50 = window := Except.ok.inj hwindow
      exact le_max_right _ _
  | some resolve =>
      obtain ⟨barsPerSession, rfl⟩ := hresolver resolve hrt
      have hsilent : intervalAwareResolve barsPerSession name = .ok none := by
        simp only [intervalAwareResolve, h.sessions.2]
      rw [hrt] at hwindow
      simp only [hsilent] at hwindow
      obtain rfl : max ((rt.minLookback name).getD 0) 50 = window := Except.ok.inj hwindow
      exact le_max_right _ _

end PlainWindow

/-- The shared window holds as many bars as any of its names asks for. -/
theorem exists_of_mapM_resolveWindow {names : List String} {windows : List ℕ}
    (h : names.mapM (resolveWindow rt) = .ok windows) (hname : name ∈ names) :
    ∃ window, resolveWindow rt name = .ok window ∧ window ≤ windows.max?.getD 0 := by
  have hmem : ∃ window ∈ windows, resolveWindow rt name = .ok window := by
    induction names generalizing windows with
    | nil => cases hname
    | cons first names ih =>
        rw [List.mapM_cons] at h
        obtain ⟨window, hwindow, h⟩ := bind_eq_ok.mp h
        obtain ⟨rest, hrest, h⟩ := bind_eq_ok.mp h
        obtain rfl := Except.ok.inj h
        rcases List.mem_cons.mp hname with rfl | hname
        · exact ⟨window, List.mem_cons_self, hwindow⟩
        · obtain ⟨found, hfound, hresolve⟩ := ih hrest hname
          exact ⟨found, List.mem_cons_of_mem _ hfound, hresolve⟩
  obtain ⟨window, hwindow, hresolve⟩ := hmem
  refine ⟨window, hresolve, ?_⟩
  cases hmax : windows.max? with
  | none =>
      rw [List.max?_eq_none_iff] at hmax
      subst hmax
      cases hwindow
  | some most => exact (List.max?_eq_some_iff.mp hmax).2 window hwindow

/-! ## §3 The state that serves a column -/

/-- The name is served by the shared window, or by a window of its own. -/
def WindowServes (e : Engine) (name : String) : Prop :=
  (∃ names window columns, e.batched = some (BatchedWindowedState.init names window columns) ∧
    name ∈ names ∧ 50 ≤ window) ∨
  ∃ window, Engine.elsewhere e.sessionVp e.vpDerived e.batched name = false ∧ 50 ≤ window ∧
    e.families.lookup name = some (.windowed (WindowedIndicatorState.init name window))

/-- The parts of an engine that was created. -/
theorem create_parts (h : Engine.create rt requested = .ok e) :
    ∃ windowed, collectWindowed rt.registry requested = .ok windowed ∧
      (∀ s ∈ e.vpDerived, s.names = windowed.filter vpDerivedNames.contains) ∧
      buildBatched rt e.sessionVp e.vpDerived
        (windowed.filter fun name => !vpDerivedNames.contains name) = .ok e.batched ∧
      buildFamilies rt (Engine.elsewhere e.sessionVp e.vpDerived e.batched) requested [] =
        .ok e.families := by
  unfold Engine.create at h
  obtain ⟨windowed, hwindowed, h⟩ := bind_eq_ok.mp h
  obtain ⟨batched, hbatched, h⟩ := bind_eq_ok.mp h
  obtain ⟨families, hfamilies, h⟩ := bind_eq_ok.mp h
  obtain rfl := Except.ok.inj h
  refine ⟨windowed, hwindowed, fun s hs => ?_, hbatched, hfamilies⟩
  obtain ⟨-, hs⟩ := Option.mem_ite_none_right.mp hs
  obtain rfl := Option.some.inj hs
  rfl

/-- The shared window is as long as the longest window asked for. -/
theorem buildBatched_cases {sessionVp : Option SessionVpState} {vpDerived : Option VpDerivedState}
    {names : List String} {batched : Option BatchedWindowedState}
    (h : buildBatched rt sessionVp vpDerived names = .ok batched) :
    batched = none ∨ ∃ windows columns, names.mapM (resolveWindow rt) = .ok windows ∧
      batched = some (BatchedWindowedState.init names (windows.max?.getD 0) columns) := by
  unfold buildBatched at h
  split at h
  · obtain ⟨windows, hwindows, h⟩ := bind_eq_ok.mp h
    exact .inr ⟨windows, _, hwindows, (Except.ok.inj h).symm⟩
  · exact .inl (Except.ok.inj h).symm

/-- The first name of the family is the name. -/
theorem PlainWindow.firstOfFamily_eq (hplain : PlainWindow name) (hname : name ∈ requested) :
    firstOfFamily name requested = some name := by
  unfold firstOfFamily
  cases hfound : requested.find? fun other => canonicalFamily other = name with
  | none =>
      have hnone := List.find?_eq_none.mp hfound _ hname
      exact absurd (decide_eq_true hplain.family.1) hnone
  | some first =>
      have hfamily : canonicalFamily first = name := by simpa using List.find?_some hfound
      rw [hplain.canonicalFamily_eq hfamily]

/-- **The route of a price-action column.** -/
theorem create_windowServes (hplain : PlainWindow name) (hresolver : IntervalAware rt)
    (hcreate : Engine.create rt requested = .ok e) (hname : name ∈ requested) :
    WindowServes e name := by
  obtain ⟨windowed, hwindowed, hderived, hbatched, hfamilies⟩ := create_parts hcreate
  rcases buildBatched_cases hbatched with hnone | ⟨windows, columns, hwindows, hstate⟩
  · have hhere : Engine.elsewhere e.sessionVp e.vpDerived e.batched name = false := by
      unfold Engine.elsewhere
      rw [hplain.root, Bool.and_false, Bool.false_or, hnone, Option.any_none, Bool.or_false,
        ← Bool.not_eq_true, Option.any_eq_true]
      rintro ⟨s, hs, hcontains⟩
      rw [hderived s hs, List.contains_iff_mem] at hcontains
      exact Bool.false_ne_true (hplain.derived.symm.trans (List.mem_filter.mp hcontains).2)
    obtain ⟨state, hbuild, hlookup⟩ := buildFamilies_first hfamilies rfl
      (fun other _ hfamily => by rw [hplain.canonicalFamily_eq hfamily]; exact hhere)
      (hplain.firstOfFamily_eq hname)
    unfold buildState at hbuild
    rw [hplain.causal, if_neg Bool.false_ne_true] at hbuild
    obtain ⟨kind, hkind, hbuild⟩ := bind_eq_ok.mp hbuild
    obtain rfl := hplain.classify hkind
    simp only [buildWindowedState, hplain.rolling.1] at hbuild
    obtain ⟨window, hwindow, hstate⟩ := bind_eq_ok.mp hbuild
    obtain rfl := Except.ok.inj hstate
    exact .inr ⟨window, hhere, hplain.le_window hresolver hwindow, hlookup⟩
  · have hmem : name ∈ windowed.filter fun name => !vpDerivedNames.contains name := by
      refine List.mem_filter.mpr ⟨hplain.mem_collectWindowed hwindowed hname, ?_⟩
      rw [hplain.derived]
      rfl
    obtain ⟨window, hwindow, hle⟩ := exists_of_mapM_resolveWindow hwindows hmem
    exact .inl ⟨_, _, _, hstate, hmem, (hplain.le_window hresolver hwindow).trans hle⟩

/-- The derived metrics do not serve it. -/
theorem derived_not_contains (hplain : PlainWindow name)
    (hcreate : Engine.create rt requested = .ok e) :
    ∀ s ∈ e.vpDerived, s.names.contains name = false := by
  intro s hs
  obtain ⟨windowed, -, hderived, -⟩ := create_parts hcreate
  rw [hderived s hs, ← Bool.not_eq_true, List.contains_iff_mem]
  intro hmem
  exact Bool.false_ne_true (hplain.derived.symm.trans (List.mem_filter.mp hmem).2)

/-! ## §4 The shared window -/

/-- The values over the shared window, once there are two bars in it. -/
structure BatchedWindowedState.Computed (handlers : Handlers) (s : BatchedWindowedState) :
    Prop where
  short : s.buffer.length < 2 → s.currents = s.names.map fun name => (name, nan)
  long : 2 ≤ s.buffer.length → ∃ columns rows, rows.map FrameRow.bar = s.buffer.items ∧
    handlers.batched s.names columns rows = .ok s.currents

/-- The step lemma. -/
theorem BatchedWindowedState.Computed.update {s : BatchedWindowedState} {input : InjectedBar}
    (h : s.Computed handlers) (hbuffered : Buffered s.maxlen s.buffer s.frame bars)
    (hreturns : (s.call handlers input).2 = none) :
    (s.call handlers input).1.names = s.names ∧ (s.call handlers input).1.maxlen = s.maxlen ∧
      Buffered (s.call handlers input).1.maxlen (s.call handlers input).1.buffer
        (s.call handlers input).1.frame (bars ++ [input.1]) ∧
      (s.call handlers input).1.Computed handlers := by
  rcases s.update_cases handlers input with
    ⟨hshort, hupdate⟩ | ⟨rows, values, hlong, hparses, hvalues, hupdate⟩ | ⟨-, err, frame, hupdate⟩
  · rw [hupdate]
    refine ⟨rfl, rfl, hbuffered.push hshort, fun _ => h.short ?_,
      fun hlong => absurd hshort (not_lt.mpr hlong)⟩
    have hle : s.buffer.length ≤ s.buffer.maxlen := s.buffer.length_le
    rw [Deque.length_push] at hshort
    omega
  · rw [hupdate]
    have hrows := bars_injectColumns (pushInjected s.injected input.2) rows
    refine ⟨rfl, rfl, hbuffered.extend hlong hparses hrows,
      fun hshort => absurd hlong (not_le.mpr hshort), fun _ => ⟨_, _, ?_, hvalues⟩⟩
    exact hrows.trans (hbuffered.bars_of_parses hparses)
  · rw [hupdate] at hreturns
    cases hreturns

/-- **The shared window after a run.** -/
theorem batched_run {names columns : List String} {window : ℕ}
    (hbatched : e.batched = some (.init names window columns)) (hrun : e.run rt bars = .ok e') :
    ∃ s, e'.batched = some s ∧ s.names = names ∧ s.maxlen = max window 1 ∧
      Buffered s.maxlen s.buffer s.frame bars ∧ s.Computed rt.handlers := by
  induction bars using List.reverseRecOn generalizing e' with
  | nil =>
      obtain rfl := Except.ok.inj hrun
      exact ⟨_, hbatched, rfl, rfl, buffered_empty window, fun _ => rfl,
        fun hlong => absurd hlong (by show ¬ 2 ≤ 0; decide)⟩
  | append_singleton bars bar ih =>
      obtain ⟨before, latest, hbars, hupdate⟩ := run_concat.mp hrun
      obtain ⟨s, hstate, rfl, hmaxlen, hbuffered, hcomputed⟩ := ih hbars
      obtain ⟨-, -, hnext, -⟩ := update_ok hupdate
      rw [hstate] at hnext
      obtain ⟨hvalue, hraised⟩ := Prod.mk.inj hnext
      have hcall : (s.call rt.handlers (bar, injectedValues e'.sessionVp)).2 = none := hraised
      obtain ⟨hnames, hmaxlen', hbuffered', hcomputed'⟩ := hcomputed.update hbuffered hcall
      exact ⟨_, hvalue.symm, hnames, hmaxlen'.trans hmaxlen, hbuffered', hcomputed'⟩

/-! ## §5 What is reported -/

/-- The last cell of the column over the window is the batch cell of the bar. -/
theorem lastValue_window (column : PriceColumn) {maxlen : ℕ} (hlong : 50 ≤ maxlen) {i : ℕ}
    (hi : i < bars.length) :
    ∃ cell, (column.column bars)[i]? = some cell ∧
      lastValue (column.column ((bars.take (i + 1)).rtake maxlen)) = lastValue [cell] := by
  have hlast := column.looksBack.getLast?_window (bars.take (i + 1)) (show 49 < maxlen by omega)
  have hlength : (column.column (bars.take (i + 1))).length = i + 1 := by
    rw [column.looksBack.length, List.length_take]
    omega
  have hcell := column.looksBack.getElem?_of_take bars (Nat.lt_succ_self i)
  have hbatch : i < (column.column bars).length := by rwa [column.looksBack.length]
  rw [List.getElem?_eq_getElem hbatch] at hcell
  refine ⟨_, List.getElem?_eq_getElem hbatch, ?_⟩
  have hfull : (column.column (bars.take (i + 1))).getLast? = some (column.column bars)[i] := by
    rw [List.getLast?_eq_getElem?, hlength, Nat.add_sub_cancel, hcell]
  unfold lastValue
  rw [hlast, hfull]
  rfl

/-- What the state that serves a column shows after a run. -/
theorem readOutput_of_windowServes
    {columns : String → Option (List StreamBar → List PyValue)}
    {column : List StreamBar → List PyValue} (hcolumn : columns name = some column)
    (hplain : PlainWindow name) (hserves : WindowServes e name)
    (hderived : ∀ s ∈ e'.vpDerived, s.names.contains name = false)
    (hrun : e.run (rt.withColumns columns) bars = .ok e') :
    ∃ maxlen, 50 ≤ maxlen ∧ readOutput name (e'.stateView (rt.withColumns columns) name) =
      if bars.length < 2 then nan else lastValue (column (bars.rtake maxlen)) := by
  rcases hserves with ⟨names, window, cells, hbatched, hmem, hwindow⟩ |
    ⟨window, hhere, hwindow, hlookup⟩
  · obtain ⟨s, hstate, rfl, hmaxlen, hbuffered, hcomputed⟩ := batched_run hbatched hrun
    have hlength : s.buffer.length = min s.maxlen bars.length := by
      unfold Deque.length
      rw [hbuffered.items, List.rtake, List.length_drop]
      omega
    have hview : e'.stateView (rt.withColumns columns) name = valuesView s.currents := by
      have hnone : e'.vpDerived.filter (fun s => s.names.contains name) = none := by
        rw [Option.filter_eq_none_iff]
        intro s hs
        rw [hderived s hs]
        exact Bool.false_ne_true
      have hsome : e'.batched.filter (fun s => s.names.contains name) = some s := by
        rw [hstate, Option.filter_some, if_pos (List.contains_iff_mem.mpr hmem)]
      unfold Engine.stateView
      rw [hplain.root, hnone, hsome]
      cases e'.sessionVp with
      | none => rfl
      | some vp => rfl
    refine ⟨s.maxlen, by omega, ?_⟩
    rw [hview, hplain.readOutput_eq]
    simp only [valuesView]
    by_cases hshort : bars.length < 2
    · rw [if_pos hshort, hcomputed.short (by omega), lookup_map_of_mem _ hmem]
      rfl
    · obtain ⟨injected, rows, hrows, hvalues⟩ := hcomputed.long (by omega)
      obtain ⟨others, -, hvalues⟩ := bind_eq_ok.mp hvalues
      rw [if_neg hshort, ← Except.ok.inj hvalues, lookup_map_of_mem _ hmem, hcolumn,
        Option.getD_some, hrows, hbuffered.items]
  · obtain ⟨s, hstate, hs, hmaxlen, hbuffered, hcomputed⟩ := windowed_run hlookup hrun
    have hlength : s.buffer.length = min s.maxlen bars.length := by
      unfold Deque.length
      rw [hbuffered.items, List.rtake, List.length_drop]
      omega
    have hhere' : Engine.elsewhere e'.sessionVp e'.vpDerived e'.batched name = false := by
      rw [(run_fed hrun).elsewhere]
      exact hhere
    refine ⟨s.maxlen, by omega, ?_⟩
    rw [stateView_family hplain.root hhere' (by rwa [hplain.family.1]), hplain.readOutput_eq]
    simp only [FamilyState.view, valueView, if_true]
    by_cases hshort : bars.length < 2
    · rw [if_pos hshort, hcomputed.short (by omega)]
    · obtain ⟨rows, hrows, hvalue⟩ := hcomputed.long (by omega)
      have hvalue' : Except.ok (lastValue (column (rows.map FrameRow.bar))) =
          Except.ok (ε := PyError) s.current := by
        rw [hs] at hvalue
        simpa only [Runtime.withColumns, Handlers.withColumns, hcolumn] using hvalue
      rw [if_neg hshort, ← Except.ok.inj hvalue', hrows, hbuffered.items]

/-- The names of the derived metrics stay. -/
theorem derived_names_of_run (hrun : e.run rt bars = .ok e') :
    e'.vpDerived.map VpDerivedState.names = e.vpDerived.map VpDerivedState.names := by
  induction bars using List.reverseRecOn generalizing e' with
  | nil =>
      obtain rfl := Except.ok.inj hrun
      rfl
  | append_singleton bars bar ih =>
      obtain ⟨before, latest, hbars, hupdate⟩ := run_concat.mp hrun
      obtain ⟨-, hnext, -⟩ := update_ok hupdate
      have hnames := updateDerived_names rt before.vpDerived e'.sessionVp bar
      rw [hnext] at hnames
      exact hnames.trans (ih hbars)

/-- **What the engine reports for a column of bars** that has a window: its last cell over the
last bars, 50 of them or more. -/
theorem column_reported (rt : Runtime) (hresolver : IntervalAware rt)
    (columns : String → Option (List StreamBar → List PyValue))
    {column : List StreamBar → List PyValue} (hcolumn : columns name = some column)
    (hplain : PlainWindow name) (hcreate : Engine.create (rt.withColumns columns) requested = .ok e)
    (hname : name ∈ requested) (hbars : bars ≠ [])
    (hrun : e.run (rt.withColumns columns) bars = .ok e') :
    ∃ maxlen, 50 ≤ maxlen ∧ e'.reported name =
      if bars.length < 2 then none else
        let value := lastValue (column (bars.rtake maxlen))
        if value.isMissing then none else some value := by
  have hderived : ∀ s ∈ e'.vpDerived, s.names.contains name = false := by
    intro s hs
    have hnames := derived_names_of_run hrun
    rw [hs, Option.map_some, eq_comm, Option.map_eq_some_iff] at hnames
    obtain ⟨s', hs', hnames⟩ := hnames
    rw [← hnames]
    exact derived_not_contains hplain hcreate s' hs'
  have hresolver' : IntervalAware (rt.withColumns columns) := hresolver
  obtain ⟨maxlen, hlong, hvalue⟩ := readOutput_of_windowServes hcolumn hplain
    (create_windowServes hplain hresolver' hcreate hname) hderived hrun
  refine ⟨maxlen, hlong, ?_⟩
  rw [reported_eq_reading hcreate hname hbars hrun]
  unfold Engine.reading
  rw [hvalue]
  split <;> rfl

/-- **Streaming price action is batch price action.** For every request, every registered
price-action column in it, every sequence of bars that the engine takes and every bar but
the first: what the engine reports for the column is the cell of the batch column in that
bar's row, computed over all bars, whatever else was requested and whether the column has
a window of its own or shares one. -/
theorem priceColumn_reported (rt : Runtime) (hresolver : IntervalAware rt)
    (requested : List String) (e e' : Engine) (column : PriceColumn)
    (hcolumn : column ∈ priceColumns) (bars : List StreamBar) (i : ℕ) (hi : i < bars.length)
    (hcreate : Engine.create rt.withPriceColumns requested = .ok e)
    (hname : column.name ∈ requested)
    (hrun : e.run rt.withPriceColumns (bars.take (i + 1)) = .ok e') :
    e'.reported column.name =
      if i = 0 then none else (column.column bars)[i]?.bind cellReading := by
  have hlength : (bars.take (i + 1)).length = i + 1 := by
    rw [List.length_take]
    omega
  have hbars : bars.take (i + 1) ≠ [] := by
    rw [← List.length_pos_iff, hlength]
    exact Nat.succ_pos i
  have hfound : (PriceColumn.find column.name).map PriceColumn.column = some column.column := by
    rw [find_name hcolumn, Option.map_some]
  obtain ⟨maxlen, hlong, hvalue⟩ := column_reported rt hresolver
    (fun name => (PriceColumn.find name).map PriceColumn.column) hfound
    (plainWindow_of_mem hcolumn) hcreate hname hbars hrun
  rw [hvalue, hlength]
  cases i with
  | zero => rfl
  | succ j =>
      obtain ⟨cell, hcell, hlast⟩ := lastValue_window column hlong hi
      have hlater : ¬ j + 1 + 1 < 2 := by omega
      rw [if_neg hlater, if_neg (Nat.succ_ne_zero j), hcell, Option.bind_some, hlast]
      rfl

/-- A runtime that knows two of the columns. -/
def gapRuntime : Runtime :=
  { sampleRuntime with
    registry :=
      { requires := [("bullish_fvg", ["high", "low"]), ("no_demand", ["close", "volume"])]
        bb_free := rfl } }

/-- Three bars that leave a gap. -/
def gapBars : List StreamBar :=
  [⟨1, 2, 1, 2, 1, some (.str "2024-01-01"), []⟩, ⟨2, 5, 2, 4, 1, some (.str "2024-01-01"), []⟩,
    ⟨4, 6, 3, 5, 1, some (.str "2024-01-01"), []⟩]

/-- The gap shows in the third bar, over a window that the two columns share. -/
theorem priceColumn_reported_gap :
    ∃ e e', Engine.create gapRuntime.withPriceColumns ["bullish_fvg", "no_demand"] = .ok e ∧
      e.run gapRuntime.withPriceColumns (gapBars.take 3) = .ok e' ∧
      e'.reported "bullish_fvg" = some (.bool true) := by
  have hruns : ((Engine.create gapRuntime.withPriceColumns ["bullish_fvg", "no_demand"]).bind
      fun e => e.run gapRuntime.withPriceColumns (gapBars.take 3)).toBool = true := by
    decide +kernel
  cases hcreate : Engine.create gapRuntime.withPriceColumns ["bullish_fvg", "no_demand"] with
  | error err =>
      rw [hcreate] at hruns
      cases hruns
  | ok e =>
      cases hrun : e.run gapRuntime.withPriceColumns (gapBars.take 3) with
      | error err =>
          simp only [hcreate, Except.bind, hrun] at hruns
          cases hruns
      | ok e' =>
          refine ⟨e, e', rfl, hrun, ?_⟩
          have hcell := priceColumn_reported gapRuntime (fun _ h => nomatch h)
            ["bullish_fvg", "no_demand"] e e' priceColumns[0] (List.getElem_mem _) gapBars 2
            (by decide) hcreate (by decide) hrun
          have hflag : (bullishFvg (highs gapBars) (lows gapBars))[2]? = some true := by
            decide +kernel
          refine hcell.trans ?_
          show ((bullishFvg (highs gapBars) (lows gapBars)).map PyValue.bool)[2]?.bind
            cellReading = some (.bool true)
          rw [List.getElem?_map, hflag]
          rfl

end Finbar.Streaming
