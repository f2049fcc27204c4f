/-
Finbar.Derivatives.MergerTheorems — what a bar can see of the derivatives rows.

The merge of a job makes every row available one job interval after its
timestamp, and a bar shows the last row available. Whether that row is complete
depends on the row's own interval, which the merge does not read: a daily row is
shown to hourly bars on its own day. No frame sees the future when the rows are in
step (`RowsInStep`), as they are when every row carries the job's interval, and
otherwise some frame does (`noLookahead_iff`).

No `sorry`, no `axiom`.
-/
import Finbar.Derivatives.Merger
import Finbar.Enrichment.MergeTheorems
import Finbar.Lib.Run

namespace Finbar.Derivatives

open Lib Lib.Python Lib.AsOf Lib.Run Finbar.Enrichment Finbar.IndicatorJobs

/-! ## §1 The law -/

/-- The rows with their timestamps, and the zone of these. -/
structure ParsedRows where
  zone : Option Zone
  entries : List Entry

/-- The rows as the merge reads them. -/
def parseRows (pandas : Pandas) (rows : List DerivativesMetrics) : Except PyError ParsedRows := do
  let timestamps ← pandas.toDatetime (rows.map DerivativesMetrics.timestamp)
  return { zone := timestamps.zone, entries := List.zipWith Entry.mk rows timestamps.times }

/-- When an interval from the row's timestamp is over, in the comparison of rows
in `zone` with bars in `frameZone`. -/
def timeAfter (zone frameZone : Option Zone) (interval : String) (entry : Entry) :
    Option Timestamp :=
  match intervalOffset interval with
  | .ok offset => (rowClock zone frameZone (entry.timestamp + offset)).toOption
  | .error _ => none

/-- When the row's own interval is over. -/
def completion (zone frameZone : Option Zone) (entry : Entry) : Option Timestamp :=
  timeAfter zone frameZone entry.row.interval entry

/-- The entry's time has come at `t`, and no other entry's has come later. -/
def LastBy (time : Entry → Option Timestamp) (entries : List Entry) (t : Timestamp)
    (entry : Entry) : Prop :=
  ∃ u, time entry = some u ∧ u ≤ t ∧
    ∀ other ∈ entries, ∀ u', time other = some u' → u' ≤ t → u' ≤ u

/-- Some field of the row has a value. -/
def HasValue (entry : Entry) : Prop :=
  ∃ field, (getFloat entry.row field).isSome

/-- **No look-ahead.** A row that is shown with a value at a bar is complete by
its own interval, and the last row that is. -/
def NoLookahead (parsed : ParsedRows) (frameZone : Option Zone) (shown : List ShownRow) : Prop :=
  ∀ bar ∈ shown, ∀ entry, bar.entry = some entry → HasValue entry →
    LastBy (completion parsed.zone frameZone) parsed.entries bar.time entry

/-! ## §2 Duplicates -/

section Duplicates

variable {α : Type} {entries : List (Timestamp × α)}

theorem dropDuplicated_sublist (entries : List (Timestamp × α)) :
    (dropDuplicated entries).Sublist entries := by
  induction entries with
  | nil => exact .slnil
  | cons entry entries ih =>
      rw [dropDuplicated]
      split
      · exact ih.cons entry
      · exact ih.cons_cons entry

/-- Of every time one entry remains. -/
theorem exists_mem_dropDuplicated {entry : Timestamp × α} (h : entry ∈ entries) :
    ∃ kept ∈ dropDuplicated entries, kept.1 = entry.1 := by
  induction entries generalizing entry with
  | nil => cases h
  | cons first entries ih =>
      rw [dropDuplicated]
      rcases List.mem_cons.mp h with rfl | hmem
      · split
        · rename_i hany
          obtain ⟨later, hlater, heq⟩ := List.any_eq_true.mp hany
          obtain ⟨kept, hkept, hkeptTime⟩ := ih hlater
          exact ⟨kept, hkept, hkeptTime.trans (of_decide_eq_true heq)⟩
        · exact ⟨entry, List.mem_cons_self, rfl⟩
      · obtain ⟨kept, hkept, htime⟩ := ih hmem
        split
        · exact ⟨kept, hkept, htime⟩
        · exact ⟨kept, List.mem_cons_of_mem _ hkept, htime⟩

/-- It is the last one of its time. -/
theorem mem_dropDuplicated_iff {entry : Timestamp × α} :
    entry ∈ dropDuplicated entries ↔
      ∃ before after, entries = before ++ entry :: after ∧ ∀ later ∈ after, later.1 ≠ entry.1 := by
  induction entries with
  | nil =>
      refine iff_of_false List.not_mem_nil ?_
      rintro ⟨before, after, hsplit, -⟩
      cases before <;> cases hsplit
  | cons first entries ih =>
      have hlater : (∃ before after, first :: entries = before ++ entry :: after ∧
          ∀ later ∈ after, later.1 ≠ entry.1) ↔
          (entry = first ∧ ∀ later ∈ entries, later.1 ≠ first.1) ∨
            entry ∈ dropDuplicated entries := by
        rw [ih]
        constructor
        · rintro ⟨before, after, hsplit, hlast⟩
          cases before with
          | nil =>
              obtain ⟨rfl, rfl⟩ := List.cons.inj hsplit
              exact .inl ⟨rfl, hlast⟩
          | cons other before =>
              obtain ⟨rfl, hrest⟩ := List.cons.inj hsplit
              exact .inr ⟨before, after, hrest, hlast⟩
        · rintro (⟨rfl, hlast⟩ | ⟨before, after, rfl, hlast⟩)
          · exact ⟨[], entries, rfl, hlast⟩
          · exact ⟨first :: before, after, rfl, hlast⟩
      rw [hlater, dropDuplicated]
      split
      · rename_i hany
        obtain ⟨later, hmem, heq⟩ := List.any_eq_true.mp hany
        refine (or_iff_right ?_).symm
        rintro ⟨-, hlast⟩
        exact hlast later hmem (of_decide_eq_true heq)
      · rename_i hany
        rw [List.mem_cons, and_iff_left]
        intro later hmem heq
        exact hany (List.any_eq_true.mpr ⟨later, hmem, decide_eq_true heq⟩)

/-- … and only one. -/
theorem eq_of_mem_dropDuplicated {e f : Timestamp × α} (he : e ∈ dropDuplicated entries)
    (hf : f ∈ dropDuplicated entries) (h : e.1 = f.1) : e = f := by
  induction entries with
  | nil => cases he
  | cons first entries ih =>
      rw [dropDuplicated] at he hf
      split at he
      · rename_i hany
        rw [if_pos hany] at hf
        exact ih he hf
      · rename_i hany
        rw [if_neg hany] at hf
        have hfirst : ∀ g ∈ dropDuplicated entries, g.1 ≠ first.1 := by
          intro g hg heq
          refine hany (List.any_eq_true.mpr ⟨g, ?_, decide_eq_true heq⟩)
          exact (dropDuplicated_sublist entries).subset hg
        rcases List.mem_cons.mp he with rfl | he'
        · rcases List.mem_cons.mp hf with rfl | hf'
          · rfl
          · exact absurd h.symm (hfirst f hf')
        · rcases List.mem_cons.mp hf with rfl | hf'
          · exact absurd h (hfirst e he')
          · exact ih he' hf'

/-- What a forward fill over an index without duplicates finds: an entry whose
time has come, and no entry's comes later. -/
theorem asOf_dropDuplicated_iff (h : Sorted entries) {t : Timestamp} {entry : Timestamp × α} :
    asOf (dropDuplicated entries) t = some entry ↔
      entry ∈ dropDuplicated entries ∧ entry.1 ≤ t ∧
        ∀ other ∈ entries, other.1 ≤ t → other.1 ≤ entry.1 := by
  have hsorted : Sorted (dropDuplicated entries) := h.sublist (dropDuplicated_sublist entries)
  rcases asOf_cases (dropDuplicated entries) t with
    ⟨hnone, hall⟩ | ⟨earlier, found, later, hsplit, hfound, hle, hlater⟩
  · rw [hnone]
    refine iff_of_false (fun hc => nomatch hc) ?_
    rintro ⟨hmem, hle, -⟩
    exact absurd hle (not_le.mpr (hall entry hmem))
  · have hmem : found ∈ dropDuplicated entries := by
      rw [hsplit]
      simp
    -- Every entry up to `t` has a time that remains, and that is not after the one found.
    have hlast : ∀ other ∈ entries, other.1 ≤ t → other.1 ≤ found.1 := by
      intro other hother hotherLe
      obtain ⟨kept, hkept, htime⟩ := exists_mem_dropDuplicated hother
      rw [← htime] at hotherLe ⊢
      rw [hsplit] at hkept hsorted
      rcases List.mem_append.mp hkept with hearlier | hrest
      · exact (List.pairwise_append.mp hsorted).2.2 kept hearlier found List.mem_cons_self
      · rcases List.mem_cons.mp hrest with rfl | hafter
        · exact le_rfl
        · exact absurd hotherLe (not_le.mpr (hlater kept hafter))
    rw [hfound]
    constructor
    · rintro heq
      obtain rfl := Option.some.inj heq
      exact ⟨hmem, hle, hlast⟩
    · rintro ⟨hentry, hentryLe, hentryLast⟩
      have htime : entry.1 = found.1 :=
        le_antisymm (hlast entry ((dropDuplicated_sublist entries).subset hentry) hentryLe)
          (hentryLast found ((dropDuplicated_sublist entries).subset hmem) hle)
      exact congrArg some (eq_of_mem_dropDuplicated hmem hentry htime.symm)

end Duplicates

/-! ## §3 What a bar shows -/

/-- The rows by their availability: the job's interval after their timestamps. -/
def timedEntries (zone frameZone : Option Zone) (interval : String) (entries : List Entry) :
    List (Timestamp × Entry) :=
  entries.filterMap fun entry =>
    (timeAfter zone frameZone interval entry).map fun time => (time, entry)

theorem mem_timedEntries {zone frameZone : Option Zone} {interval : String}
    {entries : List Entry} {time : Timestamp} {entry : Entry} :
    (time, entry) ∈ timedEntries zone frameZone interval entries ↔
      entry ∈ entries ∧ timeAfter zone frameZone interval entry = some time := by
  unfold timedEntries
  rw [List.mem_filterMap]
  constructor
  · rintro ⟨other, hmem, hmap⟩
    obtain ⟨time', htime, heq⟩ := Option.map_eq_some_iff.mp hmap
    obtain ⟨rfl, rfl⟩ := Prod.mk.inj heq
    exact ⟨hmem, htime⟩
  · rintro ⟨hmem, htime⟩
    exact ⟨entry, hmem, by rw [htime]; rfl⟩

/-- The availability that the merge computes, row by row. -/
theorem zip_availability {zone frameZone : Option Zone} {interval : String} {offset : ℤ}
    (hoffset : intervalOffset interval = .ok offset) (rows : List DerivativesMetrics)
    {times availability : List Timestamp}
    (h : (times.mapM fun t => rowClock zone frameZone (t + offset)) = .ok availability) :
    availability.zip (List.zipWith Entry.mk rows times)
      = timedEntries zone frameZone interval (List.zipWith Entry.mk rows times) := by
  induction times generalizing rows availability with
  | nil => simp [timedEntries]
  | cons t times ih =>
      rw [List.mapM_cons] at h
      obtain ⟨time, htime, h⟩ := bind_eq_ok.mp h
      obtain ⟨rest, hrest, h⟩ := bind_eq_ok.mp h
      obtain rfl := Except.ok.inj h
      cases rows with
      | nil => simp [timedEntries]
      | cons row rows =>
          have hafter : timeAfter zone frameZone interval { row := row, timestamp := t }
              = some time := by
            unfold timeAfter
            simp only [hoffset, htime]
            rfl
          rw [List.zipWith_cons_cons, List.zip_cons_cons, ih rows hrest, timedEntries,
            timedEntries, List.filterMap_cons_some (by rw [hafter]; rfl)]

/-- The rows that the merge keeps, one of every availability. -/
def keptEntries (pandas : Pandas) (parsed : ParsedRows) (frameZone : Option Zone)
    (interval : String) : List Entry :=
  (dropDuplicated (pandas.sortIndex.sort
    (timedEntries parsed.zone frameZone interval parsed.entries))).map Prod.snd

/-- A bar shows the kept row that is last by the job's interval. -/
theorem asOf_kept_iff (pandas : Pandas) (parsed : ParsedRows) (frameZone : Option Zone)
    (interval : String) (t : Timestamp) (entry : Entry) :
    (asOf (dropDuplicated (pandas.sortIndex.sort
        (timedEntries parsed.zone frameZone interval parsed.entries))) t).map Prod.snd
      = some entry ↔
      entry ∈ keptEntries pandas parsed frameZone interval ∧
        LastBy (timeAfter parsed.zone frameZone interval) parsed.entries t entry := by
  have hsorted := pandas.sortIndex.sorted
    (timedEntries parsed.zone frameZone interval parsed.entries)
  have hmem : ∀ time other,
      (time, other) ∈ pandas.sortIndex.sort
          (timedEntries parsed.zone frameZone interval parsed.entries) ↔
        other ∈ parsed.entries ∧ timeAfter parsed.zone frameZone interval other = some time :=
    fun time other => (pandas.sortIndex.perm _).mem_iff.trans mem_timedEntries
  unfold keptEntries
  constructor
  · intro h
    obtain ⟨⟨u, found⟩, hfound, rfl⟩ := Option.map_eq_some_iff.mp h
    obtain ⟨hkept, hle, hlast⟩ := (asOf_dropDuplicated_iff hsorted).mp hfound
    obtain ⟨-, htime⟩ := (hmem u found).mp ((dropDuplicated_sublist _).subset hkept)
    refine ⟨List.mem_map.mpr ⟨(u, found), hkept, rfl⟩, u, htime, hle, ?_⟩
    intro other hother u' hu' hle'
    exact hlast (u', other) ((hmem u' other).mpr ⟨hother, hu'⟩) hle'
  · rintro ⟨hentry, u, htime, hle, hlast⟩
    obtain ⟨⟨u', found⟩, hkept, rfl⟩ := List.mem_map.mp hentry
    obtain ⟨-, htime'⟩ := (hmem u' found).mp ((dropDuplicated_sublist _).subset hkept)
    obtain rfl : u' = u := Option.some.inj (htime'.symm.trans htime)
    have hfound : asOf (dropDuplicated (pandas.sortIndex.sort
        (timedEntries parsed.zone frameZone interval parsed.entries))) t
          = some (u', found) := by
      refine (asOf_dropDuplicated_iff hsorted).mpr ⟨hkept, hle, ?_⟩
      rintro ⟨u'', other⟩ hother hle''
      obtain ⟨hotherMem, hu''⟩ := (hmem u'' other).mp hother
      exact hlast other hotherMem u'' hu'' hle''
    rw [hfound]
    rfl

/-- The columns of one cell per shown row. -/
theorem get_shownColumns (columns : OrderedDict String (List PyValue)) (shown : List ShownRow)
    (field : DerivativesField) :
    (columns.assignAll (DerivativesField.all.map fun field =>
      (field.name, shown.map (shownCell field)))).get field.name
        = some (shown.map (shownCell field)) := by
  have hget := OrderedDict.get_assignAll_map (fun field => shown.map (shownCell field))
    DerivativesField.nodup_names (DerivativesField.mem_all field) columns
  exact hget

/-- **A merge that returns**: the columns hold the cells of the shown rows, one
for every bar, and each bar shows the kept row that is last by the given
interval. -/
theorem mergeDerivativesAsof_eq_ok {pandas : Pandas} {frame : OhlcvFrame}
    {rows : List DerivativesMetrics} (hrows : rows ≠ []) {interval : String}
    {merged : MergedFrame} (h : mergeDerivativesAsof pandas frame rows interval = .ok merged)
    {parsed : ParsedRows} (hparsed : parseRows pandas rows = .ok parsed) :
    (∀ field : DerivativesField, merged.frame.columns.get field.name
      = some (merged.shown.map (shownCell field))) ∧
    frame.index.times.mapM (frameClock parsed.zone frame.index.zone)
      = .ok (merged.shown.map ShownRow.time) ∧
    ∀ bar ∈ merged.shown, ∀ entry, bar.entry = some entry ↔
      entry ∈ keptEntries pandas parsed frame.index.zone interval ∧
        LastBy (timeAfter parsed.zone frame.index.zone interval) parsed.entries bar.time
          entry := by
  unfold mergeDerivativesAsof at h
  rw [if_neg hrows] at h
  obtain ⟨offset, hoffset, h⟩ := bind_eq_ok.mp h
  obtain ⟨timestamps, htimestamps, h⟩ := bind_eq_ok.mp h
  obtain ⟨availability, havailability, h⟩ := bind_eq_ok.mp h
  obtain ⟨resultIndex, hresult, h⟩ := bind_eq_ok.mp h
  obtain rfl := Except.ok.inj h
  unfold parseRows at hparsed
  rw [htimestamps] at hparsed
  obtain rfl := Except.ok.inj hparsed
  refine ⟨fun field => get_shownColumns _ _ field, ?_, ?_⟩
  · rw [hresult, List.map_map]
    exact congrArg Except.ok (List.map_id resultIndex).symm
  · intro bar hbar entry
    rw [buildAvailabilityFrame, zip_availability hoffset rows havailability] at hbar
    obtain ⟨t, -, rfl⟩ := List.mem_map.mp hbar
    exact asOf_kept_iff pandas
      { zone := timestamps.zone, entries := List.zipWith Entry.mk rows timestamps.times }
      frame.index.zone interval t entry

/-! ## §4 The merge of a job -/

/-- The interval that the merge of a job counts with. -/
def mergeInterval (job : IndicatorJob) : String :=
  if job.interval = "" then "1d" else job.interval

/-- Whether a derivatives indicator is asked for. -/
def derivativesRequested (indicators : List String) : Bool :=
  indicators.any derivativesIndicators.contains

/-- Of the rows that become available at `u`, in the order of `sort_index`, `entry` is the
last. -/
def LastAvailable (pandas : Pandas) (parsed : ParsedRows) (frameZone : Option Zone)
    (interval : String) (u : Timestamp) (entry : Entry) : Prop :=
  ∃ before after,
    pandas.sortIndex.sort (timedEntries parsed.zone frameZone interval parsed.entries) =
      before ++ (u, entry) :: after ∧ ∀ later ∈ after, later.1 ≠ u

/-- **Rows in step with an interval.** A row with a value is over, by its own interval, no later
than the interval after its timestamp; and no row is over later than it before another one has
become available. -/
def RowsInStep (pandas : Pandas) (parsed : ParsedRows) (frameZone : Option Zone)
    (interval : String) : Prop :=
  ∀ u entry, LastAvailable pandas parsed frameZone interval u entry → HasValue entry →
    ∃ c, completion parsed.zone frameZone entry = some c ∧ c ≤ u ∧
      ∀ other ∈ parsed.entries, ∀ c', completion parsed.zone frameZone other = some c' → c < c' →
        ∃ next ∈ parsed.entries, ∃ v,
          timeAfter parsed.zone frameZone interval next = some v ∧ u < v ∧ v ≤ c'

/-- Rows that carry the interval are in step with it. -/
theorem rowsInStep_of_interval {pandas : Pandas} {parsed : ParsedRows} {frameZone : Option Zone}
    {interval : String}
    (h : ∀ entry ∈ parsed.entries, intervalOffset entry.row.interval = intervalOffset interval) :
    RowsInStep pandas parsed frameZone interval := by
  have hsame : ∀ entry ∈ parsed.entries, completion parsed.zone frameZone entry
      = timeAfter parsed.zone frameZone interval entry := by
    intro entry hentry
    unfold completion timeAfter
    rw [h entry hentry]
  rintro u entry ⟨before, after, hsplit, -⟩ -
  have hmem : (u, entry) ∈ timedEntries parsed.zone frameZone interval parsed.entries := by
    rw [← (pandas.sortIndex.perm _).mem_iff, hsplit]
    exact List.mem_append_right _ List.mem_cons_self
  obtain ⟨hentry, htime⟩ := mem_timedEntries.mp hmem
  refine ⟨u, (hsame entry hentry).trans htime, le_rfl, fun other hother c' hc' hlt => ?_⟩
  exact ⟨other, hother, c', (hsame other hother).symm.trans hc', hlt, le_rfl⟩

/-- The merge keeps the last rows of their availabilities. -/
theorem mem_keptEntries_iff {pandas : Pandas} {parsed : ParsedRows} {frameZone : Option Zone}
    {interval : String} {entry : Entry} :
    entry ∈ keptEntries pandas parsed frameZone interval ↔
      ∃ u, timeAfter parsed.zone frameZone interval entry = some u ∧
        LastAvailable pandas parsed frameZone interval u entry := by
  have htime : ∀ {u}, (u, entry) ∈ pandas.sortIndex.sort
      (timedEntries parsed.zone frameZone interval parsed.entries) →
      timeAfter parsed.zone frameZone interval entry = some u := fun hmem =>
    (mem_timedEntries.mp ((pandas.sortIndex.perm _).mem_iff.mp hmem)).2
  unfold keptEntries
  rw [List.mem_map]
  constructor
  · rintro ⟨⟨u, found⟩, hkept, rfl⟩
    exact ⟨u, htime ((dropDuplicated_sublist _).subset hkept), mem_dropDuplicated_iff.mp hkept⟩
  · rintro ⟨u, -, hlast⟩
    exact ⟨(u, entry), mem_dropDuplicated_iff.mpr hlast, rfl⟩

/-- What a merged frame holds: a column of every field, with the cell of the row
that each bar shows. -/
structure Holds (merged : MergedFrame) (parsed : ParsedRows) (index : DatetimeIndex) :
    Prop where
  columns : ∀ field : DerivativesField, merged.frame.columns.get field.name
    = some (merged.shown.map (shownCell field))
  times : index.times.mapM (frameClock parsed.zone index.zone)
    = .ok (merged.shown.map ShownRow.time)

/-- The merge of a job with rows that asks for derivatives. -/
theorem mergeDerivativesIfNeeded_merges {pandas : Pandas}
    {find : String → List DerivativesMetrics} {job : IndicatorJob} {frame : OhlcvFrame}
    {indicators : List String} (hrequested : derivativesRequested indicators = true)
    (hrows : find job.symbol ≠ []) :
    mergeDerivativesIfNeeded pandas (some find) job frame indicators
      = mergeDerivativesAsof pandas frame (find job.symbol) (mergeInterval job) := by
  unfold derivativesRequested at hrequested
  unfold mergeDerivativesIfNeeded mergeInterval
  cases hfound : find job.symbol with
  | nil => exact absurd hfound hrows
  | cons row rows => simp only [hrequested, Bool.not_true, Bool.false_eq_true, if_false, hfound]

/-- Any other leaves the frame as it is. -/
theorem mergeDerivativesIfNeeded_skips {pandas : Pandas}
    {find : String → List DerivativesMetrics} {job : IndicatorJob} {frame : OhlcvFrame}
    {indicators : List String}
    (h : ¬(derivativesRequested indicators = true ∧ find job.symbol ≠ [])) :
    mergeDerivativesIfNeeded pandas (some find) job frame indicators
      = .ok { frame := frame } := by
  unfold derivativesRequested at h
  unfold mergeDerivativesIfNeeded
  dsimp only
  split
  · rfl
  · rename_i hrequested
    rw [Bool.not_eq_true', Bool.not_eq_false] at hrequested
    cases hfound : find job.symbol with
    | nil => rfl
    | cons row rows => exact absurd ⟨hrequested, hfound ▸ List.cons_ne_nil row rows⟩ h

/-- Whatever is last available at a bar is complete, and last, if the rows are in step. -/
theorem RowsInStep.lastBy {pandas : Pandas} {parsed : ParsedRows} {frameZone : Option Zone}
    {interval : String} (h : RowsInStep pandas parsed frameZone interval) {t : Timestamp}
    {entry : Entry} (hkept : entry ∈ keptEntries pandas parsed frameZone interval)
    (hvalue : HasValue entry)
    (hlast : LastBy (timeAfter parsed.zone frameZone interval) parsed.entries t entry) :
    LastBy (completion parsed.zone frameZone) parsed.entries t entry := by
  obtain ⟨u, htime, havailable⟩ := mem_keptEntries_iff.mp hkept
  obtain ⟨c, hc, hcu, hstep⟩ := h u entry havailable hvalue
  obtain ⟨u', htime', hle, hlatest⟩ := hlast
  obtain rfl : u = u' := Option.some.inj (htime.symm.trans htime')
  refine ⟨c, hc, hcu.trans hle, fun other hother c' hc' hle' => not_lt.mp fun hlt => ?_⟩
  obtain ⟨next, hnext, v, hv, huv, hvc⟩ := hstep other hother c' hc' hlt
  exact absurd (hlatest next hnext v hv (hvc.trans hle')) (not_le.mpr huv)

/-- If whatever is last available at any time is complete, and last, the rows are in step. -/
theorem rowsInStep_of_lastBy {pandas : Pandas} {parsed : ParsedRows} {frameZone : Option Zone}
    {interval : String}
    (h : ∀ t, ∀ entry ∈ keptEntries pandas parsed frameZone interval, HasValue entry →
      LastBy (timeAfter parsed.zone frameZone interval) parsed.entries t entry →
        LastBy (completion parsed.zone frameZone) parsed.entries t entry) :
    RowsInStep pandas parsed frameZone interval := by
  intro u entry havailable hvalue
  have hmem : (u, entry) ∈ timedEntries parsed.zone frameZone interval parsed.entries := by
    obtain ⟨before, after, hsplit, -⟩ := havailable
    rw [← (pandas.sortIndex.perm _).mem_iff, hsplit]
    exact List.mem_append_right _ List.mem_cons_self
  obtain ⟨-, htime⟩ := mem_timedEntries.mp hmem
  have hkept := mem_keptEntries_iff.mpr ⟨u, htime, havailable⟩
  -- At its own availability the row is shown.
  obtain ⟨c, hc, hcu, -⟩ := h u entry hkept hvalue ⟨u, htime, le_rfl, fun _ _ _ _ hle => hle⟩
  refine ⟨c, hc, hcu, fun other hother c' hc' hlt => ?_⟩
  by_contra hnone
  -- It is shown until the other row is over, if no row becomes available in between.
  have hlast : LastBy (timeAfter parsed.zone frameZone interval) parsed.entries (max u c')
      entry := by
    refine ⟨u, htime, le_max_left u c', fun next hnext v hv hle => not_lt.mp fun huv => ?_⟩
    rcases le_max_iff.mp hle with hvu | hvc
    · exact absurd huv (not_lt.mpr hvu)
    · exact hnone ⟨next, hnext, v, hv, huv, hvc⟩
  obtain ⟨c'', hc'', -, hlatest⟩ := h (max u c') entry hkept hvalue hlast
  obtain rfl : c = c'' := Option.some.inj (hc.symm.trans hc'')
  exact absurd (hlatest other hother c' hc' (le_max_right u c')) (not_le.mpr hlt)

/-- A frame of one bar in the zone of another is merged if the other is, and shows what is last
available at the bar. -/
theorem exists_merge_of_bar {pandas : Pandas} {rows : List DerivativesMetrics} {interval : String}
    {frame : OhlcvFrame} {merged : MergedFrame} {parsed : ParsedRows} (hrows : rows ≠ [])
    (hmerge : mergeDerivativesAsof pandas frame rows interval = .ok merged)
    (hparsed : parseRows pandas rows = .ok parsed) {bar t : Timestamp}
    (hclock : frameClock parsed.zone frame.index.zone bar = .ok t) :
    ∃ single : MergedFrame,
      mergeDerivativesAsof pandas { index := { zone := frame.index.zone, times := [bar] } } rows
        interval = .ok single ∧ ∃ shown ∈ single.shown, shown.time = t := by
  unfold mergeDerivativesAsof at hmerge ⊢
  rw [if_neg hrows] at hmerge ⊢
  obtain ⟨offset, hoffset, hmerge⟩ := bind_eq_ok.mp hmerge
  obtain ⟨timestamps, htimestamps, hmerge⟩ := bind_eq_ok.mp hmerge
  obtain ⟨availability, havailability, -⟩ := bind_eq_ok.mp hmerge
  unfold parseRows at hparsed
  rw [htimestamps] at hparsed
  obtain rfl := Except.ok.inj hparsed
  have hsingle : [bar].mapM (frameClock timestamps.zone frame.index.zone) = .ok [t] := by
    rw [List.mapM_cons]
    exact bind_eq_ok.mpr ⟨t, hclock, rfl⟩
  refine ⟨_, bind_eq_ok.mpr ⟨offset, hoffset, bind_eq_ok.mpr ⟨timestamps, htimestamps,
    bind_eq_ok.mpr ⟨availability, havailability, bind_eq_ok.mpr ⟨[t], hsingle, rfl⟩⟩⟩⟩, ?_⟩
  exact ⟨_, List.mem_singleton.mpr rfl, rfl⟩

/-- Only a naive frame with rows in a zone may miss moments. -/
theorem frameClock_onto {zone frameZone : Option Zone} (h : zone = none ∨ frameZone ≠ none)
    (t : Timestamp) : ∃ bar, frameClock zone frameZone bar = .ok t := by
  refine ⟨t, ?_⟩
  unfold frameClock
  rcases h with rfl | h
  · rfl
  · obtain ⟨found, rfl⟩ := Option.ne_none_iff_exists'.mp h
    cases zone <;> rfl

/-- **What the merge of a job shows.** A frame of a job that asks for derivatives holds the rows
that its bars show, and any other stays as it is. No bar sees the future if the rows are in step
with the job's interval, as they are if they carry it, whatever bars there are. If they are not
in step, some frame in the same zone sees it, as long as every moment can be the time of a bar:
so it is unless the frame is naive and the rows have a zone. -/
theorem noLookahead_iff {pandas : Pandas} {find : String → List DerivativesMetrics}
    {job : IndicatorJob} {frame : OhlcvFrame} {indicators : List String}
    {merged : MergedFrame} {parsed : ParsedRows}
    (hmerge : mergeDerivativesIfNeeded pandas (some find) job frame indicators = .ok merged)
    (hparsed : parseRows pandas (find job.symbol) = .ok parsed) :
    (derivativesRequested indicators = true ∧ find job.symbol ≠ [] →
      Holds merged parsed frame.index) ∧
    (¬(derivativesRequested indicators = true ∧ find job.symbol ≠ []) →
      merged = { frame := frame }) ∧
    ((derivativesRequested indicators = true →
        RowsInStep pandas parsed frame.index.zone (mergeInterval job)) →
      NoLookahead parsed frame.index.zone merged.shown) ∧
    ((∀ entry ∈ parsed.entries,
        intervalOffset entry.row.interval = intervalOffset (mergeInterval job)) →
      RowsInStep pandas parsed frame.index.zone (mergeInterval job)) ∧
    (parsed.zone = none ∨ frame.index.zone ≠ none →
      ∀ t, ∃ bar, frameClock parsed.zone frame.index.zone bar = .ok t) ∧
    ((∀ t, ∃ bar, frameClock parsed.zone frame.index.zone bar = .ok t) →
      ((∀ (frame' : OhlcvFrame) (merged' : MergedFrame), frame'.index.zone = frame.index.zone →
          frame'.index.times.Pairwise (· ≤ ·) →
          mergeDerivativesIfNeeded pandas (some find) job frame' indicators = .ok merged' →
          NoLookahead parsed frame.index.zone merged'.shown) ↔
        (derivativesRequested indicators = true →
          RowsInStep pandas parsed frame.index.zone (mergeInterval job)))) := by
  have hsound : ∀ (frame' : OhlcvFrame) (merged' : MergedFrame),
      frame'.index.zone = frame.index.zone →
      mergeDerivativesIfNeeded pandas (some find) job frame' indicators = .ok merged' →
      (derivativesRequested indicators = true →
        RowsInStep pandas parsed frame.index.zone (mergeInterval job)) →
      NoLookahead parsed frame.index.zone merged'.shown := by
    intro frame' merged' hzone hmerge' hstep
    by_cases hmerges : derivativesRequested indicators = true ∧ find job.symbol ≠ []
    · rw [mergeDerivativesIfNeeded_merges hmerges.1 hmerges.2] at hmerge'
      obtain ⟨-, -, hshown⟩ := mergeDerivativesAsof_eq_ok hmerges.2 hmerge' hparsed
      rw [hzone] at hshown
      intro shown hmem entry hentry hvalue
      obtain ⟨hkept, hlast⟩ := (hshown shown hmem entry).mp hentry
      exact (hstep hmerges.1).lastBy hkept hvalue hlast
    · rw [mergeDerivativesIfNeeded_skips hmerges] at hmerge'
      obtain rfl := Except.ok.inj hmerge'
      intro shown hmem
      cases hmem
  by_cases hmerges : derivativesRequested indicators = true ∧ find job.symbol ≠ []
  · have hmergeAsof := hmerge
    rw [mergeDerivativesIfNeeded_merges hmerges.1 hmerges.2] at hmergeAsof
    obtain ⟨hcolumns, htimes, -⟩ := mergeDerivativesAsof_eq_ok hmerges.2 hmergeAsof hparsed
    refine ⟨fun _ => ⟨hcolumns, htimes⟩, fun h => absurd hmerges h, hsound frame merged rfl hmerge,
      rowsInStep_of_interval, frameClock_onto,
      fun hclock => ⟨fun hlaw _ => ?_, fun hstep frame' merged' hzone _ hmerge' =>
        hsound frame' merged' hzone hmerge' hstep⟩⟩
    refine rowsInStep_of_lastBy fun t entry hkept hvalue hlast => ?_
    obtain ⟨bar, hbar⟩ := hclock t
    obtain ⟨single, hsingle, shown, hmem, rfl⟩ :=
      exists_merge_of_bar hmerges.2 hmergeAsof hparsed hbar
    obtain ⟨-, -, hshown⟩ := mergeDerivativesAsof_eq_ok hmerges.2 hsingle hparsed
    refine hlaw { index := { zone := frame.index.zone, times := [bar] } } single rfl
      (List.pairwise_singleton _ bar) ?_ shown hmem entry
      ((hshown shown hmem entry).mpr ⟨hkept, hlast⟩) hvalue
    rw [mergeDerivativesIfNeeded_merges hmerges.1 hmerges.2, hsingle]
  · have hskips := @mergeDerivativesIfNeeded_skips pandas find job frame indicators hmerges
    refine ⟨fun h => absurd h hmerges, fun _ => Except.ok.inj (hmerge.symm.trans hskips),
      hsound frame merged rfl hmerge, rowsInStep_of_interval, frameClock_onto,
      fun _ => ⟨fun _ hrequested => ?_,
        fun hstep frame' merged' hzone _ hmerge' => hsound frame' merged' hzone hmerge' hstep⟩⟩
    have hrows : find job.symbol = [] := by
      by_contra hrows
      exact hmerges ⟨hrequested, hrows⟩
    rw [hrows] at hparsed
    obtain ⟨timestamps, -, hparsed⟩ := bind_eq_ok.mp hparsed
    obtain rfl := Except.ok.inj hparsed
    exact rowsInStep_of_interval fun entry hentry => absurd hentry List.not_mem_nil

/-! ## §5 Rows of an hour and of a day -/

/-- A stable `sort_index`. -/
def stableSort (α : Type) : IndexSort α where
  sort := List.insertionSort fun e f => e.1 ≤ f.1
  perm := List.perm_insertionSort _
  sorted := fun entries =>
    haveI : Std.Total fun e f : Timestamp × α => e.1 ≤ f.1 := ⟨fun e f => le_total e.1 f.1⟩
    haveI : IsTrans (Timestamp × α) fun e f => e.1 ≤ f.1 := ⟨fun _ _ _ => le_trans⟩
    List.pairwise_insertionSort _ entries
  stays := fun _ => List.Pairwise.insertionSort_eq

/-- pandas, on times in UTC. -/
def utcPandas : Pandas where
  toDatetime := fun texts => do
    let times ← texts.mapM fun text =>
      match [("2024-01-01T00:00:00+00:00", 1704067200000000000),
          ("2024-01-01T01:00:00+00:00", 1704070800000000000)].lookup text with
      | some time => .ok time
      | none => .error (.valueError { template := "Unknown datetime string format" })
    return { zone := some { localize := .ok }, times := times }
  sortIndex := stableSort Entry

/-- A job on hourly bars. -/
def hourlyJob : IndicatorJob where
  symbol := "BTC"
  source := "hyperliquid"
  interval := "1h"

/-- The bars of 00:00 and 01:00. -/
def hourlyFrame : OhlcvFrame where
  index :=
    { zone := some { localize := .ok }, times := [1704067200000000000, 1704070800000000000] }

/-- A funding rate from midnight on, for an hour or a day. -/
def fundingRow (interval : String) : DerivativesMetrics where
  symbol := "BTC"
  timestamp := "2024-01-01T00:00:00+00:00"
  interval := interval
  fields := [(.fundingRate, .fin (1 / 100))]

/-- The row with its time. -/
def fundingEntry (interval : String) : Entry where
  row := fundingRow interval
  timestamp := 1704067200000000000

/-- What the merge reads of it. -/
def fundingParsed (interval : String) : ParsedRows where
  zone := some { localize := .ok }
  entries := [fundingEntry interval]

/-- What the two bars show: the second one the row, of either interval. -/
def fundingShown (interval : String) : List ShownRow :=
  [{ time := 1704067200000000000, entry := none },
    { time := 1704070800000000000, entry := some (fundingEntry interval) }]

theorem noLookahead_iff_hourly :
    Ensures (mergeDerivativesIfNeeded utcPandas (some (findMetrics [fundingRow "1h"])) hourlyJob
      hourlyFrame ["funding_rate"])
      (fun merged => merged.shown = fundingShown "1h" ∧
        Holds merged (fundingParsed "1h") hourlyFrame.index ∧
        NoLookahead (fundingParsed "1h") hourlyFrame.index.zone merged.shown) := by
  have hrun : Ensures (mergeDerivativesIfNeeded utcPandas (some (findMetrics [fundingRow "1h"]))
      hourlyJob hourlyFrame ["funding_rate"]) (fun merged => merged.shown = fundingShown "1h") :=
    Ensures.of_run (by decide +kernel)
  obtain ⟨merged, hmerged, hshown⟩ := hrun
  obtain ⟨hholds, -, hlaw, -⟩ :=
    noLookahead_iff hmerged (show _ = Except.ok (fundingParsed "1h") from rfl)
  refine ⟨merged, hmerged, hshown, hholds ⟨by decide, by decide⟩, hlaw fun _ => ?_⟩
  refine rowsInStep_of_interval fun entry hentry => ?_
  rw [List.mem_singleton.mp hentry]
  rfl

/-- **A day's row on hourly bars.** The funding rate of a day is shown to the bar
of 01:00 of that day. -/
theorem dayRow_shown_early :
    Ensures (mergeDerivativesIfNeeded utcPandas (some (findMetrics [fundingRow "1d"])) hourlyJob
      hourlyFrame ["funding_rate"])
      (fun merged =>
        ((merged.frame.columns.get "funding_rate").map fun cells =>
          cells.map fun cell => numericCell (some cell)) = some [.nan, .fin (1 / 100)] ∧
        ¬NoLookahead (fundingParsed "1d") hourlyFrame.index.zone merged.shown) := by
  have hrun : Ensures (mergeDerivativesIfNeeded utcPandas (some (findMetrics [fundingRow "1d"]))
      hourlyJob hourlyFrame ["funding_rate"])
      (fun merged =>
        ((merged.frame.columns.get "funding_rate").map fun cells =>
          cells.map fun cell => numericCell (some cell)) = some [.nan, .fin (1 / 100)] ∧
        merged.shown = fundingShown "1d") :=
    Ensures.of_run (by decide +kernel)
  refine hrun.mono fun merged h => ⟨h.1, fun hlaw => ?_⟩
  rw [h.2] at hlaw
  have hvalue : HasValue (fundingEntry "1d") := ⟨.fundingRate, by decide⟩
  obtain ⟨u, hu, hle, -⟩ := hlaw _ (List.mem_cons_of_mem _ List.mem_cons_self) _ rfl hvalue
  -- The day is over at midnight.
  have hover : completion (fundingParsed "1d").zone hourlyFrame.index.zone (fundingEntry "1d")
      = some 1704153600000000000 := by decide +kernel
  obtain rfl := Option.some.inj (hover.symm.trans hu)
  revert hle
  decide

end Finbar.Derivatives
