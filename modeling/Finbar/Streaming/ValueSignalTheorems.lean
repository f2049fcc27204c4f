/-
Finbar.Streaming.ValueSignalTheorems — the direct state against the batch
functions.

The direct state keeps the last two bars, but only the current levels, which
it puts into both rows. So it asks where the previous close was in the current
value area, and the batch functions where it was in its own; the migration
compares the point of control with itself, and its text is not a number, so it
is always missing. `reported_eq_batch_iff` says when the two agree.

No `sorry`, no `axiom`.
-/
import Finbar.Lib.Run
import Finbar.Streaming.EngineTheorems
import Finbar.Streaming.ValueSignals

namespace Finbar.Streaming

open Lib Lib.Python Lib.Series Lib.Run

/-! ## §1 Columns row by row -/

theorem getElem?_acceptanceIntoValue_succ {rows : List ValueRow} {i : ℕ}
    {previous now : ValueRow} (hprevious : rows[i]? = some previous)
    (hnow : rows[i + 1]? = some now) :
    (acceptanceIntoValue rows)[i + 1]? = some (previous.outside && now.inside) := by
  obtain ⟨hlength, -⟩ := List.getElem?_eq_some_iff.mp hnow
  rw [acceptanceIntoValue, List.getElem?_zipWith, shift_getElem?_succ hlength, hprevious, hnow]
  rfl

theorem getElem?_acceptanceOutsideValue_succ {rows : List ValueRow} {i : ℕ}
    {previous now : ValueRow} (hprevious : rows[i]? = some previous)
    (hnow : rows[i + 1]? = some now) :
    (acceptanceOutsideValue rows)[i + 1]? = some (previous.inside && now.outside) := by
  obtain ⟨hlength, -⟩ := List.getElem?_eq_some_iff.mp hnow
  have hshift : (shift (rows.map ValueRow.inside))[i + 1]? = some (some previous.inside) := by
    rw [shift_getElem?_succ (by simpa using hlength), List.getElem?_map, hprevious]
    rfl
  rw [acceptanceOutsideValue, List.getElem?_zipWith, hshift, hnow]
  rfl

/-- The first row opens a session and every later cell is filled. -/
theorem getElem?_valueAreaMigration {rows : List ValueRow} {i : ℕ} (h : i < rows.length) :
    ∃ migration, (valueAreaMigration rows)[i]? = some (some migration) := by
  cases rows with
  | nil => cases h
  | cons row rows =>
      obtain ⟨rest, hrest⟩ : ∃ rest,
          valueAreaMigration (row :: rows) = ffill (some .unknown :: rest) := ⟨_, rfl⟩
      have hsome : ∀ cell ∈ valueAreaMigration (row :: rows), cell.isSome := by
        rw [hrest]
        exact isSome_of_mem_ffill
      have hlength : i < (valueAreaMigration (row :: rows)).length := by
        simpa [valueAreaMigration, ffill, length_shift] using h
      obtain ⟨migration, hmigration⟩ :=
        Option.isSome_iff_exists.mp (hsome _ (List.getElem_mem hlength))
      exact ⟨migration, by rw [List.getElem?_eq_getElem hlength, hmigration]⟩

/-- The text of a migration is no number. -/
theorem floatOfText_migration (migration : Migration) : floatOfText migration.text = none := by
  cases migration <;> decide +kernel

/-! ## §2 The latest value of two rows -/

theorem lastValue_acceptanceIntoValue (previous now : ValueRow) :
    lastValue (ValueSignal.acceptanceIntoValue.column [previous, now])
      = .bool (previous.outside && now.inside) := rfl

theorem lastValue_acceptanceOutsideValue (previous now : ValueRow) :
    lastValue (ValueSignal.acceptanceOutsideValue.column [previous, now])
      = .bool (previous.inside && now.outside) := rfl

theorem lastOf_name (others : String → List ValueRow → PyValue) (signal : ValueSignal)
    (rows : List ValueRow) : lastOf others signal.name rows = lastValue (signal.column rows) := by
  rw [lastOf, ValueSignal.ofName_name]

/-- A migration is lost: it is read as a float. -/
theorem lastValue_valueAreaMigration (rows : List ValueRow) :
    lastValue (ValueSignal.valueAreaMigration.column rows) = nan := by
  unfold lastValue
  cases hlast : (ValueSignal.valueAreaMigration.column rows).getLast? with
  | none => rfl
  | some value =>
      have hmem := List.mem_of_getLast? hlast
      obtain ⟨cell, -, rfl⟩ := List.mem_map.mp hmem
      cases cell with
      | none => rfl
      | some migration => simp only [PyValue.toFloat, floatOfText_migration]

/-! ## §3 The direct run -/

section Run

variable {indexDate : PyValue → Except PyError String} {others : String → List ValueRow → PyValue}

/-- The bar's timestamp is parsed to a date. -/
def DatedAt (indexDate : PyValue → Except PyError String) (bar : StreamBar) (date : String) : Prop :=
  ∃ ts, bar.timestamp = some ts ∧ indexDate ts = .ok date

theorem valueRow_of_datedAt {bar : StreamBar} {date : String} (h : DatedAt indexDate bar date)
    (levels : ValueLevels) :
    valueRow indexDate levels bar
      = .ok { date := date, close := bar.close, levels := levels } := by
  obtain ⟨ts, hts, hdate⟩ := h
  rw [valueRow, hts]
  simp only [hdate]
  rfl

theorem datedAt_of_valueRow {bar : StreamBar} {levels : ValueLevels} {row : ValueRow}
    (h : valueRow indexDate levels bar = .ok row) :
    DatedAt indexDate bar row.date ∧ row = { row with close := bar.close, levels := levels } := by
  unfold valueRow at h
  cases hts : bar.timestamp with
  | none =>
      rw [hts] at h
      cases h
  | some ts =>
      rw [hts] at h
      obtain ⟨date, hdate, hpure⟩ := bind_eq_ok.mp h
      obtain rfl := Except.ok.inj hpure
      exact ⟨⟨ts, hts, hdate⟩, rfl⟩

theorem datedAt_unique {bar : StreamBar} {date date' : String} (h : DatedAt indexDate bar date)
    (h' : DatedAt indexDate bar date') : date = date' := by
  obtain ⟨ts, hts, hdate⟩ := h
  obtain ⟨ts', hts', hdate'⟩ := h'
  obtain rfl := Option.some.inj (hts.symm.trans hts')
  exact Except.ok.inj (hdate.symm.trans hdate')

/-- Row by row, the batch frame is made of the bars and their levels. -/
theorem batchFrame_forall₂ {inputs : List (StreamBar × ValueLevels)} {frame : List ValueRow}
    (h : batchFrame indexDate inputs = .ok frame) :
    List.Forall₂ (fun input row => valueRow indexDate input.2 input.1 = .ok row) inputs frame := by
  induction inputs generalizing frame with
  | nil =>
      obtain rfl := Except.ok.inj h
      exact .nil
  | cons input inputs ih =>
      unfold batchFrame at h
      rw [List.mapM_cons] at h
      obtain ⟨row, hrow, h⟩ := bind_eq_ok.mp h
      obtain ⟨rows, hrows, hpure⟩ := bind_eq_ok.mp h
      obtain rfl := Except.ok.inj hpure
      exact .cons hrow (ih hrows)

theorem batchFrame_row {inputs : List (StreamBar × ValueLevels)} {frame : List ValueRow}
    (h : batchFrame indexDate inputs = .ok frame) {i : ℕ} (hi : i < inputs.length) :
    ∃ row, frame[i]? = some row ∧ valueRow indexDate inputs[i].2 inputs[i].1 = .ok row := by
  have hrows := batchFrame_forall₂ h
  have hi' : i < frame.length := hrows.length_eq ▸ hi
  exact ⟨frame[i], List.getElem?_eq_getElem hi', hrows.get hi hi'⟩

/-- The last two items of a list. -/
def lastTwo {α : Type} (items : List α) : List α :=
  items.drop (items.length - 2)

/-- A deque of two keeps the last two items. -/
theorem items_push_two {α : Type} {buffer : Deque α} {items : List α}
    (hmaxlen : buffer.maxlen = 2) (h : buffer.items = lastTwo items) (x : α) :
    (buffer.push x).items = lastTwo (items ++ [x]) := by
  have hpush : (buffer.push x).items
      = (buffer.items ++ [x]).drop (buffer.items.length + 1 - buffer.maxlen) := rfl
  rw [hpush, h, hmaxlen, lastTwo, lastTwo, List.length_drop, List.length_append,
    List.length_singleton]
  by_cases hshort : items.length < 2
  · have hzero : items.length - 2 = 0 := by omega
    have hfirst : items.length - 0 + 1 - 2 = items.length + 1 - 2 := by omega
    rw [hzero, List.drop_zero, hfirst]
  · have hinner : (items ++ [x]).drop (items.length - 2)
        = items.drop (items.length - 2) ++ [x] := List.drop_append_of_le_length (by omega)
    have hone : items.length - (items.length - 2) + 1 - 2 = 1 := by omega
    have hmore : items.length + 1 - 2 = items.length - 2 + 1 := by omega
    rw [hone, hmore, ← List.drop_drop, hinner]

/-- The state after a sequence: it holds the last two bars. -/
structure Holds (names : List String) (bars : List StreamBar) (s : DirectState) : Prop where
  names : s.names = names
  maxlen : s.microBuf.maxlen = 2
  items : s.microBuf.items = lastTwo bars

/-- **One update.** The first bar leaves every value missing; a later one leaves
the values of a frame of its own and the previous bar, both with the current
levels. -/
theorem update_spec {names : List String} {bars : List StreamBar} {s : DirectState}
    (hs : Holds names bars s) {bar : StreamBar}
    (hdated : ∀ b ∈ bars ++ [bar], ∃ date, DatedAt indexDate b date) (levels : ValueLevels) :
    ∃ s', s.update indexDate others levels bar = .ok s' ∧ Holds names (bars ++ [bar]) s' ∧
      (bars = [] → ∀ name ∈ names, s'.reported name = some nan) ∧
      ∀ before previous date date', bars = before ++ [previous] →
        DatedAt indexDate previous date → DatedAt indexDate bar date' → ∀ name ∈ names,
        s'.reported name = some (captured (lastOf others name
          [{ date := date, close := previous.close, levels := levels },
            { date := date', close := bar.close, levels := levels }])) := by
  have hitems := items_push_two hs.maxlen hs.items bar
  have hlength : (s.microBuf.push bar).length = min (bars.length + 1) 2 := by
    rw [Deque.length, hitems, lastTwo, List.length_drop, List.length_append,
      List.length_singleton]
    omega
  have hholds (values : List (String × PyValue)) : Holds names (bars ++ [bar])
      { s with microBuf := s.microBuf.push bar, values := values } :=
    ⟨hs.names, hs.maxlen, hitems⟩
  unfold DirectState.update
  dsimp only
  by_cases hblank : s.names = [] ∨ (s.microBuf.push bar).length < 2
  · rw [if_pos hblank]
    refine ⟨_, rfl, hholds _, fun _ name hname => ?_, ?_⟩
    · rw [← hs.names] at hname
      exact lookup_map_of_mem (fun _ => nan) hname
    · rintro before previous date date' rfl - - name hname
      rw [← hs.names] at hname
      rcases hblank with hnil | hshort
      · rw [hnil] at hname
        cases hname
      · rw [hlength, List.length_append, List.length_singleton] at hshort
        omega
  · rw [if_neg hblank]
    rw [not_or, hlength] at hblank
    rcases List.eq_nil_or_concat' bars with rfl | ⟨before, previous, rfl⟩
    · exact absurd (by decide) hblank.2
    · obtain ⟨date, hdate⟩ := hdated previous (by simp)
      obtain ⟨date', hdate'⟩ := hdated bar (by simp)
      have htwo : lastTwo (before ++ [previous] ++ [bar]) = [previous, bar] := by
        simp [lastTwo, List.append_assoc]
      have hstamped : allTimestamped [previous, bar] = true := by
        obtain ⟨ts, hts, -⟩ := hdate
        obtain ⟨ts', hts', -⟩ := hdate'
        simp [allTimestamped, hts, hts']
      have hframe : microFrame indexDate levels (s.microBuf.push bar).items
          = .ok [{ date := date, close := previous.close, levels := levels },
              { date := date', close := bar.close, levels := levels }] := by
        rw [hitems, htwo, microFrame, hstamped, List.mapM_cons, List.mapM_cons, List.mapM_nil,
          valueRow_of_datedAt hdate, valueRow_of_datedAt hdate']
        rfl
      rw [hframe]
      refine ⟨_, rfl, hholds _, fun hnil => absurd hnil (by simp), ?_⟩
      intro before' previous' found found' hbars hfound hfound' name hname
      obtain ⟨-, hprevious⟩ := List.append_inj' hbars rfl
      obtain rfl := List.singleton_inj.mp hprevious
      rw [datedAt_unique hfound hdate, datedAt_unique hfound' hdate']
      rw [← hs.names] at hname
      exact lookup_map_of_mem (fun name => captured (lastOf others name _)) hname

/-- The run over a sequence of dated bars holds its last two. -/
theorem directRun_holds (others : String → List ValueRow → PyValue) (names : List String)
    {inputs : List (StreamBar × ValueLevels)}
    (hdated : ∀ input ∈ inputs, ∃ date, DatedAt indexDate input.1 date) :
    ∃ s, directRun indexDate others names inputs = .ok s ∧
      Holds names (inputs.map Prod.fst) s := by
  induction inputs using List.reverseRecOn with
  | nil => exact ⟨_, rfl, rfl, rfl, rfl⟩
  | append_singleton inputs last ih =>
      obtain ⟨s, hs, hholds⟩ := ih fun input hinput => hdated input (List.mem_append_left _ hinput)
      obtain ⟨s', hs', hholds', -⟩ := update_spec hholds (by
        rw [← List.map_singleton, ← List.map_append]
        exact List.forall_mem_map.mpr hdated) last.2
      refine ⟨s', ?_, by rw [List.map_append]; exact hholds'⟩
      rw [directRun, List.foldlM_append]
      exact bind_eq_ok.mpr ⟨s, hs, bind_eq_ok.mpr ⟨s', hs', rfl⟩⟩

/-- **What the run reports at a bar**: nothing at the first one, and then the
latest values of two rows with the levels of the second. -/
theorem directRun_reported (others : String → List ValueRow → PyValue) (names : List String)
    {inputs : List (StreamBar × ValueLevels)} {last : StreamBar × ValueLevels}
    (hdated : ∀ input ∈ inputs ++ [last], ∃ date, DatedAt indexDate input.1 date) :
    ∃ s, directRun indexDate others names (inputs ++ [last]) = .ok s ∧
      (inputs = [] → ∀ name ∈ names, s.reported name = some nan) ∧
      ∀ before input previous now, inputs = before ++ [input] →
        valueRow indexDate input.2 input.1 = .ok previous →
        valueRow indexDate last.2 last.1 = .ok now → ∀ name ∈ names,
        s.reported name =
          some (captured (lastOf others name [{ previous with levels := now.levels }, now])) := by
  obtain ⟨s, hs, hholds⟩ := directRun_holds others names
    fun input hinput => hdated input (List.mem_append_left _ hinput)
  obtain ⟨s', hs', -, hfirst, hlater⟩ := update_spec hholds (by
    rw [← List.map_singleton, ← List.map_append]
    exact List.forall_mem_map.mpr hdated) last.2
  refine ⟨s', ?_, fun hnil => hfirst (by rw [hnil]; rfl), ?_⟩
  · rw [directRun, List.foldlM_append]
    exact bind_eq_ok.mpr ⟨s, hs, bind_eq_ok.mpr ⟨s', hs', rfl⟩⟩
  · rintro before input previous now rfl hprevious hnow name hname
    obtain ⟨hdate, hpreviousEq⟩ := datedAt_of_valueRow hprevious
    obtain ⟨hdate', hnowEq⟩ := datedAt_of_valueRow hnow
    rw [hlater (before.map Prod.fst) input.1 previous.date now.date (by simp) hdate hdate' name
      hname, hpreviousEq, hnowEq]

/-- The values of a state without slope metrics are the results, NaN where
there is none. -/
theorem valuesFrom_eq {s : VpDerivedState} (hmicros : s.micros = s.names) (vp : SessionVpState)
    (results : List (String × PyValue)) :
    s.valuesFrom vp results = s.names.map fun name => (name, (results.lookup name).getD nan) := by
  refine List.map_congr_left fun name hname => ?_
  have hmicro := List.filter_eq_self.mp hmicros name hname
  have hslope : slopeValue vp name = none := by
    rw [slopeValue, if_neg, if_neg]
    · rintro rfl
      exact absurd hmicro (by decide)
    · rintro rfl
      exact absurd hmicro (by decide)
  rw [hslope, Option.getD_none]

/-- The batch of a state without volume metrics is empty. -/
theorem vols_eq_nil {s : VpDerivedState} (hmicros : s.micros = s.names) : s.vols = [] := by
  refine List.filter_eq_nil_iff.mpr fun name hname hvolume => ?_
  have hmicro := List.filter_eq_self.mp hmicros name hname
  rw [hvolume, Bool.not_true, Bool.and_false] at hmicro
  cases hmicro

/-- The results that are not missing, read by name. -/
theorem lookup_results {frame : List ValueRow} {names : List String} {name : String}
    (h : name ∈ names) :
    ((names.filterMap fun name =>
      let value := lastOf others name frame
      if value.isMissing then none else some (name, value)).lookup name).getD nan
      = captured (lastOf others name frame) := by
  have hlookup := lookup_filterMap (fun name =>
    if (lastOf others name frame).isMissing then none else some (lastOf others name frame)) h
  have hresults : (fun name =>
      let value := lastOf others name frame
      if value.isMissing then none else some (name, value))
      = fun name => (if (lastOf others name frame).isMissing then none
        else some (lastOf others name frame)).map fun value => (name, value) := by
    funext name
    dsimp only
    split <;> rfl
  rw [hresults, hlookup, captured]
  split <;> rfl

/-- A state without slope or volume metrics makes one batch, of its last two
bars. -/
theorem vpDerived_update_eq {handlers : Handlers} {s : VpDerivedState}
    (hmicros : s.micros = s.names) (vp : SessionVpState) (bar : StreamBar) :
    s.update handlers vp bar =
      let pushed := { s with microBuf := s.microBuf.push bar, volBuf := s.volBuf.push bar }
      match computeBatch handlers s.names (s.microBuf.push bar) vp with
      | .error e => ({ pushed with values := pushed.valuesFrom vp [] }, some e)
      | .ok micro => ({ pushed with values := pushed.valuesFrom vp micro }, none) := by
  have hvols : computeBatch handlers s.vols (s.volBuf.push bar) vp = .ok [] := by
    rw [vols_eq_nil hmicros, computeBatch, if_pos (.inl rfl)]
  have hsame : VpDerivedState.micros
      { s with microBuf := s.microBuf.push bar, volBuf := s.volBuf.push bar } = s.names := hmicros
  have hsameVols : VpDerivedState.vols
      { s with microBuf := s.microBuf.push bar, volBuf := s.volBuf.push bar } = s.vols := rfl
  unfold VpDerivedState.update
  dsimp only
  rw [hsame, hsameVols, hvols]
  cases computeBatch handlers s.names (s.microBuf.push bar) vp with
  | error e => rfl
  | ok micro => simp only [List.append_nil]

/-- **The derived state of an engine** does what the direct state does, with the
levels of the session profile. -/
theorem vpDerived_update {handlers : Handlers}
    (hhandlers : handlers.derived = derivedSignals indexDate others) {s : VpDerivedState}
    {d : DirectState} (hnames : s.names = d.names) (hmicros : s.micros = s.names)
    (hbuffer : s.microBuf = d.microBuf) (vp : SessionVpState) (bar : StreamBar) :
    match d.update indexDate others (ValueLevels.ofProfile vp.levels) bar with
    | .error e => (s.update handlers vp bar).2 = some e
    | .ok d' => ∃ s', s.update handlers vp bar = (s', none) ∧ s'.names = d'.names ∧
        s'.microBuf = d'.microBuf ∧ s'.values = d'.values := by
  obtain ⟨names, values, buffer⟩ := d
  obtain rfl : s.names = names := hnames
  obtain rfl : s.microBuf = buffer := hbuffer
  rw [vpDerived_update_eq hmicros, computeBatch]
  unfold DirectState.update
  dsimp only
  by_cases hblank : s.names = [] ∨ (s.microBuf.push bar).length < 2
  · rw [if_pos hblank, if_pos hblank]
    refine ⟨_, rfl, rfl, rfl, ?_⟩
    exact valuesFrom_eq hmicros vp []
  · rw [if_neg hblank, if_neg hblank, hhandlers, derivedSignals, microFrame]
    cases allTimestamped (s.microBuf.push bar).items with
    | false => rfl
    | true =>
        cases (s.microBuf.push bar).items.mapM
            (valueRow indexDate (ValueLevels.ofProfile vp.levels)) with
        | error e => rfl
        | ok frame =>
            refine ⟨_, rfl, rfl, rfl, ?_⟩
            refine (valuesFrom_eq hmicros vp _).trans (List.map_congr_left fun name hname => ?_)
            rw [lookup_results hname]

/-- No update changes the names. -/
theorem DirectState.names_of_update {s s' : DirectState} {levels : ValueLevels} {bar : StreamBar}
    (h : s.update indexDate others levels bar = .ok s') : s'.names = s.names := by
  unfold DirectState.update at h
  dsimp only at h
  split at h
  · obtain rfl := Except.ok.inj h
    rfl
  · obtain ⟨frame, -, hpure⟩ := bind_eq_ok.mp h
    obtain rfl := Except.ok.inj hpure
    rfl

/-- The derived state of an engine after bars, each with the session profile it leaves. -/
def derivedRun (handlers : Handlers) (names : List String)
    (feed : List (StreamBar × SessionVpState)) : VpDerivedState :=
  feed.foldl (fun s input => (s.update handlers input.2 input.1).1) (VpDerivedState.init names)

/-- **A derived state of an engine holds the values of the direct state** after the same bars,
where the levels are those of the session profiles. -/
theorem derivedRun_values {handlers : Handlers}
    (hhandlers : handlers.derived = derivedSignals indexDate others) {names : List String}
    (hmicros : (VpDerivedState.init names).micros = names)
    {feed : List (StreamBar × SessionVpState)} {d : DirectState}
    (h : directRun indexDate others names
      (feed.map fun input => (input.1, ValueLevels.ofProfile input.2.levels)) = .ok d) :
    (derivedRun handlers names feed).names = names ∧ d.names = names ∧
      (derivedRun handlers names feed).microBuf = d.microBuf ∧
      (derivedRun handlers names feed).values = d.values := by
  induction feed using List.reverseRecOn generalizing d with
  | nil =>
      obtain rfl := Except.ok.inj h
      exact ⟨rfl, rfl, rfl, rfl⟩
  | append_singleton feed last ih =>
      unfold directRun at h
      rw [List.map_append, List.map_singleton, List.foldlM_append] at h
      obtain ⟨before, hbefore, hlast⟩ := bind_eq_ok.mp h
      obtain ⟨after, hafter, hpure⟩ := bind_eq_ok.mp hlast
      obtain rfl := Except.ok.inj hpure
      replace hafter : before.update indexDate others (ValueLevels.ofProfile last.2.levels) last.1 =
        .ok after := hafter
      obtain ⟨hnames, hdnames, hbuffer, -⟩ := ih hbefore
      have hmicros' : (derivedRun handlers names feed).micros =
          (derivedRun handlers names feed).names := by
        rw [VpDerivedState.micros, hnames]
        exact hmicros
      have hstep := vpDerived_update hhandlers (hnames.trans hdnames.symm) hmicros' hbuffer last.2
        last.1
      rw [hafter] at hstep
      obtain ⟨s', hs', hsnames, hsbuffer, hsvalues⟩ := hstep
      have hrun : derivedRun handlers names (feed ++ [last]) = s' := by
        unfold derivedRun
        rw [List.foldl_append]
        exact congrArg Prod.fst hs'
      have hafterNames : after.names = names :=
        (DirectState.names_of_update hafter).trans hdnames
      rw [hrun]
      exact ⟨hsnames.trans hafterNames, hafterNames, hsbuffer, hsvalues⟩

end Run

/-! ## §4 The two paths -/

/-- The current levels answer for the previous close as its own do, where the
signal asks. -/
def ValueSignal.SeesPrevious (signal : ValueSignal) (previous now : ValueRow) : Prop :=
  match signal with
  | .acceptanceIntoValue => now.inside = true →
      now.levels.outside previous.close = previous.levels.outside previous.close
  | .acceptanceOutsideValue => now.outside = true →
      now.levels.inside previous.close = previous.levels.inside previous.close
  | .valueAreaMigration => False

/-- No batch cell is NaN. -/
theorem column_ne_nan {signal : ValueSignal} {rows : List ValueRow} {i : ℕ}
    (hi : i < rows.length) : (signal.column rows)[i]? ≠ some nan := by
  cases signal with
  | acceptanceIntoValue =>
      intro h
      rw [ValueSignal.column, List.getElem?_map] at h
      obtain ⟨b, -, hb⟩ := Option.map_eq_some_iff.mp h
      cases hb
  | acceptanceOutsideValue =>
      intro h
      rw [ValueSignal.column, List.getElem?_map] at h
      obtain ⟨b, -, hb⟩ := Option.map_eq_some_iff.mp h
      cases hb
  | valueAreaMigration =>
      obtain ⟨migration, hmigration⟩ := getElem?_valueAreaMigration hi
      intro h
      rw [ValueSignal.column, List.getElem?_map, hmigration] at h
      cases h

theorem captured_bool_iff {x y : Bool} :
    some (captured (.bool x)) = some (PyValue.bool y) ↔ x = y := by
  simp [captured, PyValue.isMissing]

/-- The two paths at a bar that has a previous one. -/
theorem captured_eq_column_iff {signal : ValueSignal} {others : String → List ValueRow → PyValue}
    {rows : List ValueRow} {i : ℕ} {previous now : ValueRow} (hprevious : rows[i]? = some previous)
    (hnow : rows[i + 1]? = some now) :
    some (captured (lastOf others signal.name [{ previous with levels := now.levels }, now]))
        = (signal.column rows)[i + 1]? ↔ signal.SeesPrevious previous now := by
  rw [lastOf_name]
  cases signal with
  | acceptanceIntoValue =>
      rw [lastValue_acceptanceIntoValue, ValueSignal.column, List.getElem?_map,
        getElem?_acceptanceIntoValue_succ hprevious hnow, Option.map_some, captured_bool_iff]
      cases hinside : now.inside with
      | false => simp [ValueSignal.SeesPrevious, hinside]
      | true => simp [ValueSignal.SeesPrevious, hinside, ValueRow.outside]
  | acceptanceOutsideValue =>
      rw [lastValue_acceptanceOutsideValue, ValueSignal.column, List.getElem?_map,
        getElem?_acceptanceOutsideValue_succ hprevious hnow, Option.map_some, captured_bool_iff]
      cases houtside : now.outside with
      | false => simp [ValueSignal.SeesPrevious, houtside]
      | true => simp [ValueSignal.SeesPrevious, houtside, ValueRow.inside]
  | valueAreaMigration =>
      obtain ⟨hi, -⟩ := List.getElem?_eq_some_iff.mp hnow
      rw [lastValue_valueAreaMigration]
      exact ⟨fun h => column_ne_nan hi h.symm, fun h => h.elim⟩

/-- **The direct state agrees with the batch functions** at the bars that have a
previous one which the current levels see as its own do; on the migration it
never does. What the direct state reports an engine's derived state does, whose handlers read
the signals off the same frames. -/
theorem reported_eq_batch_iff {indexDate : PyValue → Except PyError String}
    (others : String → List ValueRow → PyValue) {names : List String}
    {inputs : List (StreamBar × ValueLevels)} {frame : List ValueRow}
    (hframe : batchFrame indexDate inputs = .ok frame) {signal : ValueSignal}
    (hsignal : signal.name ∈ names) {i : ℕ} (hi : i < inputs.length) :
    ∃ s, directRun indexDate others names (inputs.take (i + 1)) = .ok s ∧
      (s.reported signal.name = (signal.column frame)[i]? ↔
        ∃ j previous now, i = j + 1 ∧ frame[j]? = some previous ∧ frame[i]? = some now ∧
          signal.SeesPrevious previous now) ∧
      ∀ (handlers : Handlers) (feed : List (StreamBar × SessionVpState)),
        handlers.derived = derivedSignals indexDate others →
        (VpDerivedState.init names).micros = names →
        (feed.map fun input => (input.1, ValueLevels.ofProfile input.2.levels)) =
          inputs.take (i + 1) →
        (derivedRun handlers names feed).values = s.values := by
  have hrow {j : ℕ} (hj : j < inputs.length) :
      ∃ row, frame[j]? = some row ∧ valueRow indexDate inputs[j].2 inputs[j].1 = .ok row :=
    batchFrame_row hframe hj
  have hdated : ∀ input ∈ inputs.take i ++ [inputs[i]],
      ∃ date, DatedAt indexDate input.1 date := by
    intro input hinput
    rw [List.take_concat_get' inputs i hi] at hinput
    obtain ⟨j, hj, rfl⟩ := List.getElem_of_mem (List.mem_of_mem_take hinput)
    obtain ⟨row, -, hvalue⟩ := hrow hj
    exact ⟨row.date, (datedAt_of_valueRow hvalue).1⟩
  obtain ⟨s, hs, hfirst, hlater⟩ := directRun_reported others names hdated
  rw [List.take_concat_get' inputs i hi] at hs
  refine ⟨s, hs, ?_, fun handlers feed hhandlers hmicros hfeed =>
    (derivedRun_values hhandlers hmicros (hfeed ▸ hs)).2.2.2⟩
  cases i with
  | zero =>
      have hbatch : 0 < frame.length := by
        obtain ⟨row, hget, -⟩ := hrow hi
        exact (List.getElem?_eq_some_iff.mp hget).1
      rw [hfirst rfl _ hsignal]
      constructor
      · exact fun h => absurd h.symm (column_ne_nan hbatch)
      · rintro ⟨j, -, -, hj, -⟩
        cases hj
  | succ j =>
      obtain ⟨previous, hprevious, hpreviousRow⟩ := hrow (Nat.lt_of_succ_lt hi)
      obtain ⟨now, hnow, hnowRow⟩ := hrow hi
      rw [hlater (inputs.take j) inputs[j] previous now
        (List.take_concat_get' inputs j (Nat.lt_of_succ_lt hi)).symm hpreviousRow hnowRow _ hsignal,
        captured_eq_column_iff hprevious hnow]
      constructor
      · exact fun h => ⟨j, previous, now, rfl, hprevious, hnow, h⟩
      · rintro ⟨k, previous', now', hk, hprevious', hnow', h⟩
        obtain rfl := Nat.succ.inj hk
        obtain rfl := Option.some.inj (hprevious.symm.trans hprevious')
        obtain rfl := Option.some.inj (hnow.symm.trans hnow')
        exact h

/-! ## §5 Sample sequences -/

/-- The date of a timestamp that is a date. -/
def textDate (ts : PyValue) : Except PyError String :=
  .ok ts.toStr

/-- A close that comes back into a value area that has not moved is reported. -/
theorem reported_eq_batch_same_levels :
    ∃ s, directRun textDate (fun _ _ => nan) ["acceptance_into_value"]
        [(flatBar "2024-01-01" 90 1, ⟨.fin 100, .fin 105, .fin 95⟩),
          (flatBar "2024-01-01" 101 1, ⟨.fin 100, .fin 105, .fin 95⟩)] = .ok s ∧
      s.reported "acceptance_into_value" = some (.bool true) := by
  have hframe : batchFrame textDate
      [(flatBar "2024-01-01" 90 1, ⟨.fin 100, .fin 105, .fin 95⟩),
        (flatBar "2024-01-01" 101 1, ⟨.fin 100, .fin 105, .fin 95⟩)]
      = .ok [⟨"2024-01-01", 90, .fin 100, .fin 105, .fin 95⟩,
          ⟨"2024-01-01", 101, .fin 100, .fin 105, .fin 95⟩] := rfl
  have hname : ValueSignal.acceptanceIntoValue.name ∈ ["acceptance_into_value"] :=
    List.mem_singleton.mpr rfl
  obtain ⟨s, hs, hiff, -⟩ :=
    reported_eq_batch_iff (fun _ _ => nan) hframe hname Nat.one_lt_two
  refine ⟨s, hs, ?_⟩
  have hcell : (ValueSignal.acceptanceIntoValue.column
      [⟨"2024-01-01", 90, .fin 100, .fin 105, .fin 95⟩,
        ⟨"2024-01-01", 101, .fin 100, .fin 105, .fin 95⟩])[1]? = some (.bool true) :=
    congrArg (fun b => some (PyValue.bool b)) (by decide +kernel)
  rw [← hcell]
  exact hiff.mpr ⟨0, _, _, rfl, rfl, rfl, fun _ => rfl⟩

/-- Overnight the value area moves up. The first close was inside its own value
area and is below the next one, so an entry is reported that was none; the
migration is missing. -/
theorem direct_state_misses_moved_levels :
    ∃ s frame, directRun textDate (fun _ _ => nan)
        ["acceptance_into_value", "value_area_migration"]
        [(flatBar "2024-01-01" 100 1, ⟨.fin 100, .fin 105, .fin 95⟩),
          (flatBar "2024-01-02" 112 1, ⟨.fin 110, .fin 115, .fin 108⟩)] = .ok s ∧
      batchFrame textDate
        [(flatBar "2024-01-01" 100 1, ⟨.fin 100, .fin 105, .fin 95⟩),
          (flatBar "2024-01-02" 112 1, ⟨.fin 110, .fin 115, .fin 108⟩)] = .ok frame ∧
      s.reported "acceptance_into_value" = some (.bool true) ∧
      (ValueSignal.acceptanceIntoValue.column frame)[1]? = some (.bool false) ∧
      s.reported "value_area_migration" = some nan ∧
      (ValueSignal.valueAreaMigration.column frame)[1]? = some (.str "HIGHER") := by
  let previous : ValueRow := ⟨"2024-01-01", 100, .fin 100, .fin 105, .fin 95⟩
  let now : ValueRow := ⟨"2024-01-02", 112, .fin 110, .fin 115, .fin 108⟩
  have hprevious : valueRow textDate previous.levels (flatBar "2024-01-01" 100 1)
      = .ok previous := rfl
  have hnow : valueRow textDate now.levels (flatBar "2024-01-02" 112 1) = .ok now := rfl
  obtain ⟨s, hs, -, hlater⟩ := directRun_reported (fun _ _ => nan)
    ["acceptance_into_value", "value_area_migration"]
    (show ∀ input ∈ [(flatBar "2024-01-01" 100 1, previous.levels)]
        ++ [(flatBar "2024-01-02" 112 1, now.levels)], ∃ date, DatedAt textDate input.1 date by
      intro input hinput
      rw [List.singleton_append, List.mem_cons, List.mem_singleton] at hinput
      rcases hinput with rfl | rfl
      · exact ⟨"2024-01-01", _, rfl, rfl⟩
      · exact ⟨"2024-01-02", _, rfl, rfl⟩)
  have hreported (signal : ValueSignal) (hsignal : signal.name ∈
      ["acceptance_into_value", "value_area_migration"]) : s.reported signal.name
        = some (captured (lastValue
            (signal.column [{ previous with levels := now.levels }, now]))) := by
    rw [← lastOf_name (fun _ _ => nan)]
    exact hlater [] _ previous now rfl hprevious hnow _ hsignal
  refine ⟨s, [previous, now], hs, rfl, ?_, ?_, ?_, ?_⟩
  · have hentry : (ValueRow.outside { previous with levels := now.levels } && now.inside)
        = true := by decide +kernel
    refine (hreported .acceptanceIntoValue (by decide)).trans ?_
    rw [lastValue_acceptanceIntoValue, hentry]
    rfl
  · have hcolumn : acceptanceIntoValue [previous, now] = [false, false] := by decide +kernel
    rw [ValueSignal.column, hcolumn]
    rfl
  · refine (hreported .valueAreaMigration (by decide)).trans ?_
    rw [lastValue_valueAreaMigration]
    rfl
  · have hcolumn : valueAreaMigration [previous, now] = [some .unknown, some .higher] := by
      decide +kernel
    rw [ValueSignal.column, hcolumn]
    rfl

end Finbar.Streaming
