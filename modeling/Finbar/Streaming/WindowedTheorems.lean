/-
Finbar.Streaming.WindowedTheorems — what the windowed states hold after any
calls of `update`.

Both states append the bar, and the values injected with it, before they look
at its timestamp, so a call that raises leaves them in the buffers. A call
meets `Computes` if every buffered bar has a timestamp, those the frame lacks
are parsed and the handlers return. Such a call returns, and no other
(`WindowedIndicatorState.update_cases`, `BatchedWindowedState.update_cases`).
In a run of them the buffer, the frame and every injected column keep up with
the bars offered (`update_transactional`).

No `sorry`, no `axiom`.
-/
import Finbar.Lib.Calls
import Finbar.Lib.Run
import Finbar.Streaming.Windowed

namespace Finbar.Streaming

open Lib Lib.Python Lib.Run Lib.Steps Lib.Calls

variable {handlers : Handlers} {missing : PyError} {maxlen : ℕ} {buffer : Deque StreamBar}
  {frame : Option (List FrameRow)} {bars : List StreamBar} {bar : StreamBar}
  {rows rows' : List FrameRow}

/-! ## §1 The maintained frame -/

/-- Every buffered bar has a timestamp, and those that the frame lacks are
parsed, which gives the rows. -/
def Parses (handlers : Handlers) (maxlen : ℕ) (frame : Option (List FrameRow))
    (buffer : List StreamBar) (rows : List FrameRow) : Prop :=
  (∀ bar ∈ buffer, (presentTimestamp bar).isSome) ∧
    ∃ index,
      parseBarTimestamps handlers (presentTimestamps (freshBars frame buffer)) = .ok index ∧
      rows = extendFrame maxlen frame (freshBars frame buffer) index.val

/-- Every bar has a timestamp exactly when none is left out. -/
theorem length_presentTimestamps_iff :
    (presentTimestamps bars).length = bars.length ↔
      ∀ bar ∈ bars, (presentTimestamp bar).isSome := by
  unfold presentTimestamps
  rw [List.length_filterMap_eq_countP, List.countP_eq_length]

theorem toFrame_ok_iff {buffer : List StreamBar} :
    toFrame handlers missing maxlen frame buffer = .ok rows ↔
      Parses handlers maxlen frame buffer rows := by
  unfold toFrame Parses
  rw [← length_presentTimestamps_iff]
  split
  · next hmissing =>
      constructor
      · intro h
        cases h
      · rintro ⟨hpresent, -⟩
        exact absurd hpresent hmissing
  · next hpresent =>
      rw [bind_eq_ok]
      constructor
      · rintro ⟨index, hindex, hrows⟩
        exact ⟨not_not.mp hpresent, index, hindex, (Except.ok.inj hrows).symm⟩
      · rintro ⟨-, index, hindex, rfl⟩
        exact ⟨index, hindex, rfl⟩

/-- The bars of a frame that is extended. -/
theorem bars_extendFrame {fresh : List StreamBar} {index : List (Option ℤ)}
    (hlength : index.length = fresh.length) :
    (extendFrame maxlen frame fresh index).map FrameRow.bar =
      ((frame.getD []).map FrameRow.bar ++ fresh).rtake maxlen := by
  have hfresh : (List.zipWith
      (fun ts bar => { index := ts, bar := bar : FrameRow }) index fresh).map FrameRow.bar =
        fresh := by
    rw [List.map_zipWith, ← List.map_uncurry_zip_eq_zipWith]
    exact List.map_snd_zip hlength.ge
  unfold extendFrame
  rw [List.map_drop, List.map_append, hfresh, List.rtake, List.length_append, List.length_append,
    List.length_map, List.length_zipWith, hlength, Nat.min_self]

/-! ## §2 The buffer -/

/-- The buffer holds the last bars offered; the frame, from the second bar on,
holds the same bars. -/
structure Buffered (maxlen : ℕ) (buffer : Deque StreamBar) (frame : Option (List FrameRow))
    (bars : List StreamBar) : Prop where
  pos : 0 < maxlen
  maxlen_eq : buffer.maxlen = maxlen
  items : buffer.items = bars.rtake maxlen
  frame : ∀ rows ∈ frame, 2 ≤ buffer.length ∧ rows.map FrameRow.bar = buffer.items

theorem buffered_empty (maxlen : ℕ) :
    Buffered (max maxlen 1) (Deque.empty (max maxlen 1)) none [] where
  pos := lt_max_of_lt_right Nat.one_pos
  maxlen_eq := rfl
  items := (List.rtake_nil _).symm
  frame := fun _ hrows => nomatch hrows

theorem Buffered.items_push (h : Buffered maxlen buffer frame bars) (bar : StreamBar) :
    (buffer.push bar).items = (bars ++ [bar]).rtake maxlen := by
  obtain rfl := h.maxlen_eq
  exact Deque.items_push_of_rtake h.items bar

/-- There is no frame while the buffer is short. -/
theorem Buffered.push (h : Buffered maxlen buffer frame bars)
    (hshort : (buffer.push bar).length < 2) :
    Buffered maxlen (buffer.push bar) frame (bars ++ [bar]) where
  pos := h.pos
  maxlen_eq := h.maxlen_eq
  items := h.items_push bar
  frame := by
    intro rows hrows
    have hlong := (h.frame rows hrows).1
    have hle := buffer.length_le
    rw [Deque.length_push] at hshort
    unfold Deque.length at hlong hshort
    omega

/-- A frame extended by what is new in the buffer has its bars. -/
theorem Buffered.bars_of_parses (h : Buffered maxlen buffer frame bars)
    (hparses : Parses handlers maxlen frame (buffer.push bar).items rows) :
    rows.map FrameRow.bar = (buffer.push bar).items := by
  obtain ⟨hpresent, index, -, rfl⟩ := hparses
  have hfresh : ∀ b ∈ freshBars frame (buffer.push bar).items, (presentTimestamp b).isSome := by
    intro b hb
    refine hpresent b ?_
    cases frame with
    | none => exact hb
    | some _ => exact List.mem_of_getLast? (Option.mem_toList.mp hb)
  rw [bars_extendFrame (index.property.trans (length_presentTimestamps_iff.mpr hfresh))]
  obtain rfl := h.maxlen_eq
  cases frame with
  | none =>
      have hle : (buffer.push bar).items.length ≤ buffer.maxlen := (buffer.push bar).length_le
      show ([] ++ (buffer.push bar).items).rtake buffer.maxlen = _
      rw [List.nil_append, List.rtake, Nat.sub_eq_zero_of_le hle, List.drop_zero]
  | some old =>
      show (old.map FrameRow.bar ++ (buffer.push bar).items.getLast?.toList).rtake
        buffer.maxlen = _
      rw [(h.frame old rfl).2, Deque.getLast?_push h.pos, Option.toList_some, List.rtake,
        List.length_append, List.length_singleton]
      rfl

/-- The next frame, when it has the bars of one extended so. -/
theorem Buffered.extend (h : Buffered maxlen buffer frame bars)
    (hlong : 2 ≤ (buffer.push bar).length)
    (hparses : Parses handlers maxlen frame (buffer.push bar).items rows)
    (hrows : rows'.map FrameRow.bar = rows.map FrameRow.bar) :
    Buffered maxlen (buffer.push bar) (some rows') (bars ++ [bar]) where
  pos := h.pos
  maxlen_eq := h.maxlen_eq
  items := h.items_push bar
  frame := by
    rintro _ ⟨⟩
    exact ⟨hlong, hrows.trans (h.bars_of_parses hparses)⟩

/-! ## §3 One metric -/

/-- From the second bar on, the call parses the timestamps and computes the
metric. -/
def WindowedIndicatorState.Computes (handlers : Handlers) (s : WindowedIndicatorState)
    (bar : StreamBar) : Prop :=
  2 ≤ (s.buffer.push bar).length →
    ∃ rows value, Parses handlers s.maxlen s.frame (s.buffer.push bar).items rows ∧
      handlers.windowed s.name rows = .ok value

/-- **What a call of `update` can do.** The bar is in the buffer in every case. -/
theorem WindowedIndicatorState.update_cases (handlers : Handlers) (s : WindowedIndicatorState)
    (bar : StreamBar) :
    ((s.buffer.push bar).length < 2 ∧
      s.update handlers bar = ({ s with buffer := s.buffer.push bar }, none)) ∨
    (∃ rows value, 2 ≤ (s.buffer.push bar).length ∧
      Parses handlers s.maxlen s.frame (s.buffer.push bar).items rows ∧
      handlers.windowed s.name rows = .ok value ∧
      s.update handlers bar =
        ({ s with buffer := s.buffer.push bar, frame := some rows, current := value }, none)) ∨
    (¬ s.Computes handlers bar ∧ ∃ e frame, s.update handlers bar =
        ({ s with buffer := s.buffer.push bar, frame := frame }, some e)) := by
  unfold WindowedIndicatorState.update
  simp only
  split
  · next hshort => exact .inl ⟨hshort, rfl⟩
  · next hlong =>
      rw [not_lt] at hlong
      split
      · next e hframe =>
          refine .inr (.inr ⟨fun hcomputes => ?_, e, s.frame, rfl⟩)
          obtain ⟨rows, value, hparses, -⟩ := hcomputes hlong
          cases hframe.symm.trans (toFrame_ok_iff.mpr hparses)
      · next rows hframe =>
          have hparses := toFrame_ok_iff.mp hframe
          split
          · next e hvalue =>
              refine .inr (.inr ⟨fun hcomputes => ?_, e, some rows, rfl⟩)
              obtain ⟨rows', value, hparses', hvalue'⟩ := hcomputes hlong
              cases hframe.symm.trans (toFrame_ok_iff.mpr hparses')
              cases hvalue.symm.trans hvalue'
          · next value hvalue =>
              exact .inr (.inl ⟨rows, value, hlong, hparses, hvalue, rfl⟩)

/-- A call that does not meet the condition raises, and leaves its bar in the
buffer. -/
theorem WindowedIndicatorState.update_of_not_computes {s : WindowedIndicatorState}
    (h : ¬ s.Computes handlers bar) :
    (s.update handlers bar).2 ≠ none ∧
      (s.update handlers bar).1.buffer = s.buffer.push bar := by
  rcases s.update_cases handlers bar with
    ⟨hshort, -⟩ | ⟨rows, value, -, hparses, hvalue, -⟩ | ⟨-, e, frame, hupdate⟩
  · exact absurd (fun hlong => absurd hlong (not_le.mpr hshort)) h
  · exact absurd (fun _ => ⟨rows, value, hparses, hvalue⟩) h
  · rw [hupdate]
    exact ⟨Option.some_ne_none e, rfl⟩

theorem WindowedIndicatorState.computes_of_update {s : WindowedIndicatorState}
    (h : (s.update handlers bar).2 = none) : s.Computes handlers bar :=
  not_not.mp fun hnot => (update_of_not_computes hnot).1 h

/-- The buffer holds the last bars accepted, and the frame the same bars. -/
structure WindowedIndicatorState.Aligned (s : WindowedIndicatorState) (bars : List StreamBar) :
    Prop where
  buffer : s.buffer.items = bars.rtake s.maxlen
  frame : ∀ rows ∈ s.frame, rows.map FrameRow.bar = s.buffer.items

/-- The step lemma. -/
theorem WindowedIndicatorState.buffered_update {s : WindowedIndicatorState}
    (h : Buffered s.maxlen s.buffer s.frame bars) (hcomputes : s.Computes handlers bar) :
    (s.update handlers bar).2 = none ∧
      Buffered (s.update handlers bar).1.maxlen (s.update handlers bar).1.buffer
        (s.update handlers bar).1.frame (bars ++ [bar]) := by
  rcases s.update_cases handlers bar with
    ⟨hshort, hupdate⟩ | ⟨rows, value, hlong, hparses, -, hupdate⟩ | ⟨hnot, -⟩
  · rw [hupdate]
    exact ⟨rfl, h.push hshort⟩
  · rw [hupdate]
    exact ⟨rfl, h.extend hlong hparses rfl⟩
  · exact absurd hcomputes hnot

/-! ## §4 Several metrics, with injected columns -/

/-- A bar, and the values injected with it. -/
abbrev InjectedBar := StreamBar × List (String × PyValue)

/-- `update`, of a bar and the values injected with it. -/
def BatchedWindowedState.call (handlers : Handlers) (s : BatchedWindowedState)
    (input : InjectedBar) : BatchedWindowedState × Option PyError :=
  s.update handlers input.1 input.2

/-- The frame after a call that has these rows. -/
def BatchedWindowedState.injectedFrame (s : BatchedWindowedState) (input : InjectedBar)
    (rows : List FrameRow) : List FrameRow :=
  injectColumns (pushInjected s.injected input.2) rows

/-- From the second bar on, the call parses the timestamps and computes the
metrics. -/
def BatchedWindowedState.Computes (handlers : Handlers) (s : BatchedWindowedState)
    (input : InjectedBar) : Prop :=
  2 ≤ (s.buffer.push input.1).length →
    ∃ rows values, Parses handlers s.maxlen s.frame (s.buffer.push input.1).items rows ∧
      handlers.batched s.names ((pushInjected s.injected input.2).map Prod.fst)
        (s.injectedFrame input rows) = .ok values

/-- The call has a value for each injected column. -/
def BatchedWindowedState.Supplies (s : BatchedWindowedState) (input : InjectedBar) : Prop :=
  ∀ column ∈ s.injected, (input.2.lookup column.1).isSome

/-- **What a call of `update` can do.** The bar and the values injected with it
are in the buffers in every case. -/
theorem BatchedWindowedState.update_cases (handlers : Handlers) (s : BatchedWindowedState)
    (input : InjectedBar) :
    ((s.buffer.push input.1).length < 2 ∧
      s.call handlers input =
        ({ s with
            buffer := s.buffer.push input.1
            injected := pushInjected s.injected input.2 }, none)) ∨
    (∃ rows values, 2 ≤ (s.buffer.push input.1).length ∧
      Parses handlers s.maxlen s.frame (s.buffer.push input.1).items rows ∧
      handlers.batched s.names ((pushInjected s.injected input.2).map Prod.fst)
        (s.injectedFrame input rows) = .ok values ∧
      s.call handlers input =
        ({ s with
            buffer := s.buffer.push input.1
            injected := pushInjected s.injected input.2
            frame := some (s.injectedFrame input rows)
            currents := values }, none)) ∨
    (¬ s.Computes handlers input ∧ ∃ e frame, s.call handlers input =
        ({ s with
            buffer := s.buffer.push input.1
            injected := pushInjected s.injected input.2
            frame := frame }, some e)) := by
  unfold BatchedWindowedState.call BatchedWindowedState.update
  simp only
  split
  · next hshort => exact .inl ⟨hshort, rfl⟩
  · next hlong =>
      rw [not_lt] at hlong
      split
      · next e hframe =>
          refine .inr (.inr ⟨fun hcomputes => ?_, e, s.frame, rfl⟩)
          obtain ⟨rows, values, hparses, -⟩ := hcomputes hlong
          cases hframe.symm.trans (toFrame_ok_iff.mpr hparses)
      · next rows hframe =>
          have hparses := toFrame_ok_iff.mp hframe
          split
          · next e hvalues =>
              refine .inr (.inr ⟨fun hcomputes => ?_, e, some (s.injectedFrame input rows), rfl⟩)
              obtain ⟨rows', values, hparses', hvalues'⟩ := hcomputes hlong
              cases hframe.symm.trans (toFrame_ok_iff.mpr hparses')
              cases hvalues.symm.trans hvalues'
          · next values hvalues =>
              exact .inr (.inl ⟨rows, values, hlong, hparses, hvalues, rfl⟩)

/-- A call that does not meet the condition raises, and leaves its bar and its
values in the buffers. -/
theorem BatchedWindowedState.update_of_not_computes {s : BatchedWindowedState}
    {input : InjectedBar} (h : ¬ s.Computes handlers input) :
    (s.call handlers input).2 ≠ none ∧
      (s.call handlers input).1.buffer = s.buffer.push input.1 ∧
      (s.call handlers input).1.injected = pushInjected s.injected input.2 := by
  rcases s.update_cases handlers input with
    ⟨hshort, -⟩ | ⟨rows, values, -, hparses, hvalues, -⟩ | ⟨-, e, frame, hupdate⟩
  · exact absurd (fun hlong => absurd hlong (not_le.mpr hshort)) h
  · exact absurd (fun _ => ⟨rows, values, hparses, hvalues⟩) h
  · rw [hupdate]
    exact ⟨Option.some_ne_none e, rfl, rfl⟩

theorem BatchedWindowedState.computes_of_call {s : BatchedWindowedState}
    {input : InjectedBar} (h : (s.call handlers input).2 = none) : s.Computes handlers input :=
  not_not.mp fun hnot => (update_of_not_computes hnot).1 h

/-- Injecting columns changes no bar. -/
theorem bars_injectColumns (injected : List (String × Deque PyValue)) (rows : List FrameRow) :
    (injectColumns injected rows).map FrameRow.bar = rows.map FrameRow.bar := by
  unfold injectColumns
  induction injected generalizing rows with
  | nil => rfl
  | cons column injected ih =>
      rw [List.foldl_cons, ih]
      split
      · next hlength =>
          unfold setColumn
          rw [List.map_zipWith, ← List.map_uncurry_zip_eq_zipWith]
          show List.map (FrameRow.bar ∘ Prod.fst) _ = _
          rw [← List.map_map, List.map_fst_zip hlength.ge]
      · rfl

/-- Each injected column holds the last of the values injected into it, one
with every bar. -/
def Injected (maxlen : ℕ) (injected : List (String × Deque PyValue)) (inputs : List InjectedBar) :
    Prop :=
  ∀ column ∈ injected, column.2.maxlen = maxlen ∧ ∃ values : List PyValue,
    (inputs.map fun input => input.2.lookup column.1) = values.map some ∧
      column.2.items = values.rtake maxlen

theorem injected_empty (maxlen : ℕ) (columns : List String) :
    Injected maxlen (columns.map fun column => (column, Deque.empty maxlen)) [] := by
  intro column hcolumn
  obtain ⟨name, -, rfl⟩ := List.mem_map.mp hcolumn
  exact ⟨rfl, [], rfl, (List.rtake_nil _).symm⟩

theorem Injected.push {injected : List (String × Deque PyValue)} {inputs : List InjectedBar}
    {input : InjectedBar} (h : Injected maxlen injected inputs)
    (hsupplies : ∀ column ∈ injected, (input.2.lookup column.1).isSome) :
    Injected maxlen (pushInjected injected input.2) (inputs ++ [input]) := by
  intro column hcolumn
  obtain ⟨column, hmem, rfl⟩ := List.mem_map.mp hcolumn
  obtain ⟨rfl, values, hvalues, hitems⟩ := h column hmem
  obtain ⟨value, hvalue⟩ := Option.isSome_iff_exists.mp (hsupplies column hmem)
  simp only [hvalue]
  refine ⟨rfl, values ++ [value], ?_, Deque.items_push_of_rtake hitems value⟩
  rw [List.map_append, List.map_append, hvalues, List.map_singleton, List.map_singleton, hvalue]

/-- A column is as long as the buffer. -/
theorem Injected.length_eq {injected : List (String × Deque PyValue)}
    {inputs : List InjectedBar} (h : Injected maxlen injected inputs)
    (hbuffer : Buffered maxlen buffer frame (inputs.map Prod.fst))
    {column : String × Deque PyValue} (hcolumn : column ∈ injected) :
    column.2.length = buffer.length := by
  obtain ⟨-, values, hvalues, hitems⟩ := h column hcolumn
  have hlength := congrArg List.length hvalues
  rw [List.length_map, List.length_map] at hlength
  unfold Deque.length
  rw [hitems, hbuffer.items, List.rtake, List.rtake, List.length_drop, List.length_drop,
    List.length_map, hlength]

/-- The buffer, the frame and every injected column hold the last of the bars
accepted and of their values. -/
structure BatchedWindowedState.Aligned (s : BatchedWindowedState) (inputs : List InjectedBar) :
    Prop where
  buffer : s.buffer.items = (inputs.map Prod.fst).rtake s.maxlen
  frame : ∀ rows ∈ s.frame, rows.map FrameRow.bar = s.buffer.items
  injected : ∀ column ∈ s.injected, ∃ values : List PyValue,
    (inputs.map fun input => input.2.lookup column.1) = values.map some ∧
      column.2.items = values.rtake s.maxlen
  length_eq : ∀ column ∈ s.injected, column.2.length = s.buffer.length

/-- The step lemma. -/
theorem BatchedWindowedState.buffered_update {s : BatchedWindowedState}
    {inputs : List InjectedBar} {input : InjectedBar}
    (h : Buffered s.maxlen s.buffer s.frame (inputs.map Prod.fst))
    (hcomputes : s.Computes handlers input) :
    (s.call handlers input).2 = none ∧
      (s.call handlers input).1.injected = pushInjected s.injected input.2 ∧
      (s.call handlers input).1.maxlen = s.maxlen ∧
      Buffered s.maxlen (s.call handlers input).1.buffer
        (s.call handlers input).1.frame ((inputs ++ [input]).map Prod.fst) := by
  rw [List.map_append, List.map_singleton]
  rcases s.update_cases handlers input with
    ⟨hshort, hupdate⟩ | ⟨rows, values, hlong, hparses, -, hupdate⟩ | ⟨hnot, -⟩
  · rw [hupdate]
    exact ⟨rfl, rfl, rfl, h.push hshort⟩
  · rw [hupdate]
    exact ⟨rfl, rfl, rfl, h.extend hlong hparses (bars_injectColumns _ rows)⟩
  · exact absurd hcomputes hnot

/-! ## §5 Runs -/

/-- **When the windows keep up with the bars they accept.** In a run of calls
that parse their timestamps and compute, the buffer, the frame and the injected
columns hold, after each call, the last of the bars accepted and their values.
Any other call raises, and its bar and values stay where they were appended. -/
theorem update_transactional (handlers : Handlers) :
    (∀ name maxlen bars,
      Along (leaves (WindowedIndicatorState.update handlers))
        (WindowedIndicatorState.Computes handlers) (.init name maxlen) bars →
      Transactional (WindowedIndicatorState.update handlers) WindowedIndicatorState.Aligned
        (.init name maxlen) bars) ∧
    (∀ names maxlen columns inputs,
      Along (leaves (BatchedWindowedState.call handlers))
        (fun s input => s.Computes handlers input ∧ s.Supplies input)
        (.init names maxlen columns) inputs →
      Transactional (BatchedWindowedState.call handlers) BatchedWindowedState.Aligned
        (.init names maxlen columns) inputs) ∧
    (∀ (s : WindowedIndicatorState) bar, ¬ s.Computes handlers bar →
      (s.update handlers bar).2 ≠ none ∧
        (s.update handlers bar).1.buffer = s.buffer.push bar) ∧
    (∀ (s : BatchedWindowedState) input, ¬ s.Computes handlers input →
      (s.call handlers input).2 ≠ none ∧
        (s.call handlers input).1.buffer = s.buffer.push input.1 ∧
        (s.call handlers input).1.injected = pushInjected s.injected input.2) := by
  refine ⟨?windowed, ?batched, fun s bar => s.update_of_not_computes,
    fun s input => s.update_of_not_computes⟩
  case windowed =>
    intro name maxlen bars hcomputes
    refine Transactional.of_returns
      (I := fun s bars => Buffered s.maxlen s.buffer s.frame bars)
      (fun s seen bar hbuffered h => ?_) (fun s seen hbuffered => ?_) hcomputes
      (buffered_empty maxlen)
    · exact WindowedIndicatorState.buffered_update hbuffered h
    · exact ⟨hbuffered.items, fun rows hrows => (hbuffered.frame rows hrows).2⟩
  case batched =>
    intro names maxlen columns inputs hcomputes
    refine Transactional.of_returns
      (I := fun s inputs => Buffered s.maxlen s.buffer s.frame (inputs.map Prod.fst) ∧
        Injected s.maxlen s.injected inputs)
      (fun s seen input hI h => ?_) (fun s seen hI => ?_) hcomputes
      ⟨buffered_empty maxlen, injected_empty (max maxlen 1) columns⟩
    · obtain ⟨hbuffered, hinjected⟩ := hI
      obtain ⟨hreturns, hcolumns, hmaxlen, hnext⟩ :=
        BatchedWindowedState.buffered_update hbuffered h.1
      refine ⟨hreturns, ?_, ?_⟩
      · show Buffered (s.call handlers input).1.maxlen _ _ _
        rw [hmaxlen]
        exact hnext
      · show Injected (s.call handlers input).1.maxlen (s.call handlers input).1.injected _
        rw [hmaxlen, hcolumns]
        exact hinjected.push h.2
    · obtain ⟨hbuffered, hinjected⟩ := hI
      exact ⟨hbuffered.items, fun rows hrows => (hbuffered.frame rows hrows).2,
        fun column hcolumn => (hinjected column hcolumn).2,
        fun column hcolumn => hinjected.length_eq hbuffered hcolumn⟩

/-- The bearish gap at the last row: the low two rows before is above its high. -/
def bearishGap (rows : List FrameRow) : PyValue :=
  match rows.reverse with
  | last :: _ :: first :: _ => .bool (decide (last.bar.high < first.bar.low))
  | _ => .bool false

/-- `to_datetime` of finite numbers; anything else raises. -/
def numbersToDatetime (unit : Option String) (values : List PyValue) :
    Except PyError (BarIndex values.length) :=
  let scale : ℚ := if unit = some "ms" then 10 ^ 6 else 10 ^ 9
  let instant : PyValue → Option ℤ
    | .num (.fin q) => some ⌊q * scale⌋
    | _ => none
  if values.all fun value => (instant value).isSome then
    .ok ⟨values.map instant, List.length_map _⟩
  else .error (.valueError { template := "non convertible value" })

/-- Handlers that compute `bearish_fvg`. -/
def gapHandlers : Handlers where
  toDatetime := numbersToDatetime
  windowed := fun _ rows => .ok (bearishGap rows)
  batched := fun names _ rows => .ok (names.map fun name => (name, bearishGap rows))
  derived := fun _ _ _ => .ok []
  causal := fun _ _ => .ok nan
  rollingVp := fun _ _ _ => .ok nan

/-- A bar of one price, with a timestamp in seconds or none. -/
def barAt (seconds : Option ℚ) (price : ℚ) : StreamBar where
  openPrice := price
  high := price
  low := price
  close := price
  volume := 10
  timestamp := seconds.map PyValue.ofRat

/-- Two bars with timestamps, alone and with a level each. -/
theorem update_transactional_two :
    Transactional (WindowedIndicatorState.update gapHandlers) WindowedIndicatorState.Aligned
        (.init "bearish_fvg" 10)
        [barAt (some 1781566200) 100, barAt (some 1781566260) 101] ∧
      Transactional (BatchedWindowedState.call gapHandlers) BatchedWindowedState.Aligned
        (.init ["bearish_fvg"] 10 ["vp_poc"])
        [(barAt (some 1781566200) 100, [("vp_poc", .ofRat 100)]),
          (barAt (some 1781566260) 101, [("vp_poc", .ofRat 101)])] := by
  refine ⟨(update_transactional gapHandlers).1 _ _ _ ⟨?_, ?_, trivial⟩,
    (update_transactional gapHandlers).2.1 _ _ _ _ ⟨⟨?_, ?_⟩, ⟨?_, ?_⟩, trivial⟩⟩
  · exact WindowedIndicatorState.computes_of_update rfl
  · exact WindowedIndicatorState.computes_of_update rfl
  · exact BatchedWindowedState.computes_of_call rfl
  · intro column hcolumn
    obtain rfl := List.mem_singleton.mp hcolumn
    rfl
  · exact BatchedWindowedState.computes_of_call rfl
  · intro column hcolumn
    obtain rfl := List.mem_singleton.mp hcolumn
    rfl

/-- A bar without timestamp raises and stays in the buffer: a bar that returns
when the first was not offered raises as well. -/
theorem rejected_bar_stays :
    ¬ Transactional (WindowedIndicatorState.update gapHandlers) WindowedIndicatorState.Aligned
        (.init "bearish_fvg" 10)
        [barAt (some 1781566200) 100, barAt none 101, barAt (some 1781566260) 102] ∧
      (WindowedIndicatorState.update gapHandlers
        (run (leaves (WindowedIndicatorState.update gapHandlers)) (.init "bearish_fvg" 10)
          [barAt (some 1781566200) 100, barAt none 101]) (barAt (some 1781566260) 102)).2 =
        some (windowTimestampError "bearish_fvg") ∧
      (WindowedIndicatorState.update gapHandlers
        (run (leaves (WindowedIndicatorState.update gapHandlers)) (.init "bearish_fvg" 10)
          [barAt (some 1781566200) 100]) (barAt (some 1781566260) 102)).2 = none := by
  refine ⟨?_, rfl, rfl⟩
  intro h
  have hrestored := h.restores.2.1 (Option.some_ne_none _)
  exact absurd (congrArg (fun s => s.buffer.length) hrestored) (by decide)

end Finbar.Streaming
