/-
Finbar.Fetch.HyperliquidTheorems — what the two paginations return of a history.

The forward pagination returns the candles of its range in order, each once
(`dateRange_complete`). The backward one turns the concatenated chunks around as
a whole, and with them the candles of every chunk, so that it is in order only
if no two candles are new in one chunk (`maxHistory_complete_iff`). Both rest on
the pages of `Lib.Paging`; what ties bars to candles is that a timestamp's text
determines the time.

No `sorry`, no `axiom`.
-/
import Finbar.Fetch.Hyperliquid
import Finbar.Lib.Run

namespace Finbar.Fetch

open Lib.Python Lib.Calendar Lib.Paging Lib.Run Finbar.Simulation

/-! ## §1 Timestamps -/

theorem dateOf_year_lt {n : ℕ} (h : n < 3652059) : (dateOf n).year < 10000 := by
  obtain ⟨n400, n100, n4, n1, h100, h4, h1, hyear, hn⟩ := splitYear_periods n
  have hdate : (dateOf n).year = (splitYear n).1 + 1 := rfl
  omega

/-- **The text of a timestamp determines the time.** -/
theorem timestampText_injective {s t : ℤ} (hs : inDatetimeRange s = true)
    (ht : inDatetimeRange t = true) (h : timestampText s = timestampText t) : s = t := by
  obtain ⟨hs0, hs⟩ := of_decide_eq_true hs
  obtain ⟨ht0, ht⟩ := of_decide_eq_true ht
  have hlist := String.ofList_injective h
  -- The fields have fixed widths, so equal texts have equal fields.
  obtain ⟨hyear, hlist⟩ := List.append_inj hlist (by simp)
  obtain ⟨hmonth, hlist⟩ := List.append_inj (List.cons.inj hlist).2 (by simp)
  obtain ⟨hday, hlist⟩ := List.append_inj (List.cons.inj hlist).2 (by simp)
  obtain ⟨hhour, hlist⟩ := List.append_inj (List.cons.inj hlist).2 (by simp)
  obtain ⟨hminute, hlist⟩ := List.append_inj (List.cons.inj hlist).2 (by simp)
  obtain ⟨hsecond, hlist⟩ := List.append_inj (List.cons.inj hlist).2 (by simp)
  have hmicro := (List.cons.inj hlist).2
  have hdate : dateOf (daysTo s).toNat = dateOf (daysTo t).toNat := by
    refine Date.ext ?_ ?_ ?_
    · exact digits_injective (dateOf_year_lt (by omega)) (dateOf_year_lt (by omega)) hyear
    · exact digits_injective (dateOf_month_lt _) (dateOf_month_lt _) hmonth
    · exact digits_injective (dateOf_day_lt _) (dateOf_day_lt _) hday
  have hdays := dateOf_injective hdate
  have hhour := digits_injective (by omega) (by omega) hhour
  have hminute := digits_injective (by omega) (by omega) hminute
  have hsecond := digits_injective (by omega) (by omega) hsecond
  have hmicro := digits_injective (by omega) (by omega) hmicro
  unfold daysTo at *
  omega

/-- What a candle that becomes a bar has. -/
theorem processCandle_eq_some {symbol interval : String} {candle : Candle} {bar : PriceBar}
    (h : processCandle symbol interval candle = .ok (some bar)) :
    ∃ t, candle.t = some t ∧ inDatetimeRange t = true ∧ bar.timestamp = timestampText t := by
  unfold processCandle at h
  cases ht : candle.t with
  | none =>
      rw [ht] at h
      cases h
  | some t =>
      rw [ht] at h
      dsimp only at h
      split at h
      · cases h
      · rename_i hok
        refine ⟨t, rfl, by simpa using (not_or.mp hok).2, ?_⟩
        split at h
        · cases h
        · obtain ⟨volume, -, h⟩ := bind_eq_ok.mp h
          cases volume with
          | none => cases h
          | some v =>
              dsimp only at h
              split at h
              · cases h
              · obtain rfl := Option.some.inj (Except.ok.inj h)
                rfl

/-! ## §2 Histories -/

/-- A candle of the exchange that becomes a bar, with its open time. -/
structure ValidCandle (symbol interval : String) where
  candle : Candle
  time : ℤ
  bar : PriceBar
  time_pos : 0 < time
  t_eq : candle.t = some time
  processed : processCandle symbol interval candle = .ok (some bar)

variable {symbol interval : String} {info : Info}
  {history : List (ValidCandle symbol interval)}

/-- The exchange returns all candles from the start to the end of a request. -/
def Answers (info : Info) (history : List (ValidCandle symbol interval)) : Prop :=
  ∀ startMs endMs, requestCandles info symbol interval startMs endMs
    = .ok ((between ValidCandle.time history startMs endMs).map ValidCandle.candle)

theorem ValidCandle.timestamp_eq (c : ValidCandle symbol interval) :
    c.bar.timestamp = timestampText c.time ∧ inDatetimeRange c.time = true := by
  obtain ⟨t, ht, hrange, htext⟩ := processCandle_eq_some c.processed
  obtain rfl := Option.some.inj (c.t_eq.symm.trans ht)
  exact ⟨htext, hrange⟩

/-- Bars of one timestamp are of one time. -/
theorem ValidCandle.timestamp_eq_iff (c d : ValidCandle symbol interval) :
    c.bar.timestamp = d.bar.timestamp ↔ c.time = d.time := by
  rw [c.timestamp_eq.1, d.timestamp_eq.1]
  constructor
  · exact timestampText_injective c.timestamp_eq.2 d.timestamp_eq.2
  · intro h
    rw [h]

theorem processCandles_map (candles : List (ValidCandle symbol interval)) :
    processCandles (candles.map ValidCandle.candle) symbol interval
      = .ok (candles.map ValidCandle.bar) := by
  have hmap : (candles.map ValidCandle.candle).mapM (processCandle symbol interval)
      = .ok (candles.map fun c => some c.bar) := by
    induction candles with
    | nil => rfl
    | cons c candles ih =>
        rw [List.map_cons, List.mapM_cons, c.processed, ih]
        rfl
  unfold processCandles
  rw [hmap]
  refine congrArg Except.ok ?_
  rw [List.filterMap_map]
  exact congrFun (@List.filterMap_eq_map _ _ ValidCandle.bar) candles

/-- A chunk of an exchange that answers. -/
theorem fetchChunk_eq (h : Answers info history) (startMs endMs : ℤ) :
    fetchChunk info symbol interval startMs endMs
      = some ((between ValidCandle.time history startMs endMs).map ValidCandle.bar) := by
  unfold fetchChunk
  rw [h]
  dsimp only
  rw [processCandles_map]
  rfl

theorem deduplicateBars_map (candles : List (ValidCandle symbol interval)) :
    deduplicateBars (candles.map ValidCandle.bar)
      = (keepFirst ValidCandle.time [] candles).map ValidCandle.bar :=
  @keepFirst_map _ _ _ _ _ _ PriceBar.timestamp ValidCandle.bar ValidCandle.time [] candles
    fun c _ d _ => c.timestamp_eq_iff d

/-- Entries of the history with the same bars are the same. -/
theorem map_bar_inj (hasc : Ascending ValidCandle.time history)
    {cs ds : List (ValidCandle symbol interval)} (hcs : cs ⊆ history) (hds : ds ⊆ history) :
    cs.map ValidCandle.bar = ds.map ValidCandle.bar ↔ cs = ds := by
  refine ⟨fun h => ?_, congrArg _⟩
  induction cs generalizing ds with
  | nil => exact (List.map_eq_nil_iff.mp h.symm).symm
  | cons c cs ih =>
      cases ds with
      | nil => cases h
      | cons d ds =>
          obtain ⟨hhead, htail⟩ := List.cons.inj h
          have htime : c.time = d.time :=
            (c.timestamp_eq_iff d).mp (congrArg PriceBar.timestamp hhead)
          obtain rfl := List.inj_on_of_nodup_map hasc.nodup (hcs List.mem_cons_self)
            (hds List.mem_cons_self) htime
          rw [ih (List.subset_of_cons_subset hcs) (List.subset_of_cons_subset hds) htail]

/-! ## §3 Backwards -/

/-- The loop collects the pages backwards. A chunk can only be empty within a
chunk's length of the epoch, where its start is a `datetime`. -/
theorem maxHistoryLoop_eq (h : Answers info history) (n : ℕ) {hi : ℤ}
    (hlo : -chunkMs interval ≤ hi) (hhi : inDatetimeRange (max hi 0) = true)
    (temp : List PriceBar) :
    maxHistoryLoop info symbol interval n hi temp
      = .ok (temp ++ (backward (between ValidCandle.time history) (chunkMs interval) n hi).map
          ValidCandle.bar) := by
  obtain ⟨hchunk, hbound⟩ := chunkMs_bounds interval
  induction n generalizing hi temp with
  | zero => simp [maxHistoryLoop, backward]
  | succ n ih =>
      rw [maxHistoryLoop, fetchChunk_eq h, backward]
      cases hpage : between ValidCandle.time history (hi - chunkMs interval) hi with
      | nil =>
          have hstart : inDatetimeRange (hi - chunkMs interval) = true := by
            unfold inDatetimeRange daysTo at *
            rw [decide_eq_true_eq] at *
            omega
          simp [hstart]
      | cons c page =>
          have hc : c ∈ between ValidCandle.time history (hi - chunkMs interval) hi := by
            rw [hpage]
            exact List.mem_cons_self
          have hpos := c.time_pos
          have hle := (mem_between.mp hc).2.2
          have hnext : inDatetimeRange (max (hi - chunkMs interval) 0) = true := by
            unfold inDatetimeRange daysTo at *
            rw [decide_eq_true_eq] at *
            omega
          rw [if_neg (List.cons_ne_nil c page)]
          rw [List.map_cons]
          dsimp only
          rw [ih (by omega) hnext, List.map_append, List.map_cons, List.append_assoc]

/-- The candles of the `maxChunks` chunks up to a time. -/
def recentCandles (history : List (ValidCandle symbol interval)) (nowMs : ℤ) :
    List (ValidCandle symbol interval) :=
  between ValidCandle.time history (nowMs - maxChunks * chunkMs interval) nowMs

/-- The backward pagination returns the candles up to its chunk limit, each once
and in order of time. -/
def MaxHistoryComplete (info : Info) (history : List (ValidCandle symbol interval)) (now : ℚ) :
    Prop :=
  fetchMaxHistory info now symbol interval
    = .ok ((recentCandles history (truncate (now * 1000))).map ValidCandle.bar)

/-- No two candles are new in one chunk, and the latest chunk has a candle if
any has. -/
def OneNewPerChunk (history : List (ValidCandle symbol interval)) (nowMs : ℤ) : Prop :=
  (recentCandles history nowMs = [] ∨
    between ValidCandle.time history (nowMs - chunkMs interval) nowMs ≠ []) ∧
  (recentCandles history nowMs).Pairwise fun c d =>
    pageOf (chunkMs interval) (maxChunks - 1) nowMs c.time
      ≠ pageOf (chunkMs interval) (maxChunks - 1) nowMs d.time

/-- What the backward pagination returns. -/
theorem fetchMaxHistory_eq (h : Answers info history) {now : ℚ} (hnow : 0 ≤ now)
    (hrange : inDatetimeRange (truncate (now * 1000)) = true) :
    fetchMaxHistory info now symbol interval
      = .ok ((keepFirst ValidCandle.time []
          (backward (between ValidCandle.time history) (chunkMs interval) maxChunks
            (truncate (now * 1000))).reverse).map ValidCandle.bar) := by
  have hms : 0 ≤ truncate (now * 1000) := by
    unfold truncate
    rw [if_pos (by positivity)]
    exact Int.floor_nonneg.mpr (by positivity)
  have hchunk := (chunkMs_bounds interval).1
  unfold fetchMaxHistory
  rw [maxHistoryLoop_eq h maxChunks (by omega) (by rwa [max_eq_left hms]), List.nil_append]
  change Except.ok (deduplicateBars _) = _
  rw [← List.map_reverse, deduplicateBars_map]

/-- **Backwards**: complete and in order exactly if no two candles are new in one
chunk. -/
theorem maxHistory_complete_iff (hasc : Ascending ValidCandle.time history)
    (hgapless : Gapless ValidCandle.time history (chunkMs interval)) (h : Answers info history)
    {now : ℚ} (hnow : 0 ≤ now) (hrange : inDatetimeRange (truncate (now * 1000)) = true) :
    MaxHistoryComplete info history now ↔ OneNewPerChunk history (truncate (now * 1000)) := by
  have hchunk := (chunkMs_bounds interval).1
  unfold MaxHistoryComplete OneNewPerChunk recentCandles
  rw [fetchMaxHistory_eq h hnow hrange, Except.ok.injEq, map_bar_inj hasc ?_ ?_]
  · exact backward_eq_iff hasc hgapless hchunk 199 (truncate (now * 1000))
  · intro c hc
    have hread := (keepFirst_sublist _ _).subset hc
    exact (mem_backward hchunk.le (List.mem_reverse.mp hread)).1
  · intro c hc
    exact (mem_between.mp hc).1

/-! ## §4 Forwards -/

/-- The candles of the first `k` chunks from a start, those on a boundary twice. -/
def fetchedCount (history : List (ValidCandle symbol interval)) (startMs : ℤ) (k : ℕ) : ℕ :=
  ((List.range k).map fun i : ℕ => (between ValidCandle.time history
    (startMs + i * chunkMs interval) (startMs + (i + 1) * chunkMs interval)).length).sum

/-- The forward pagination stops at the end of the range, or after the chunk with
which it has more candles than its limit. -/
def StopsAt (history : List (ValidCandle symbol interval)) (startMs endMs stop : ℤ) : Prop :=
  stop = endMs ∨
    ∃ k : ℕ, stop = startMs + k * chunkMs interval ∧ stop < endMs ∧
      barLimit < fetchedCount history startMs k

/-- **The loop forwards.** From candles that go on to what is read, it reads up to
where it stops. -/
theorem dateRangeLoop_eq (hasc : Ascending ValidCandle.time history) (h : Answers info history)
    {startMs endMs current : ℤ} (hstart : startMs ≤ current) (hend : current < endMs) {k : ℕ}
    (hk : current = startMs + k * chunkMs interval) {read : List (ValidCandle symbol interval)}
    (hcount : read.length = fetchedCount history startMs k)
    (hread : ∀ next, current ≤ next →
      keepFirst ValidCandle.time [] (read ++ between ValidCandle.time history current next)
        = between ValidCandle.time history startMs next) :
    ∃ stop all, StopsAt history startMs endMs stop ∧
      dateRangeLoop info symbol interval endMs current (read.map ValidCandle.bar)
        = .ok (all.map ValidCandle.bar) ∧
      keepFirst ValidCandle.time [] all = between ValidCandle.time history startMs stop := by
  have hchunk := (chunkMs_bounds interval).1
  induction hsteps : (endMs - current).toNat using Nat.strong_induction_on
    generalizing current k read with
  | _ steps ih =>
      have hnext : current ≤ min (current + chunkMs interval) endMs := by omega
      rw [dateRangeLoop, if_pos hend, fetchChunk_eq h]
      dsimp only
      rw [← List.map_append, List.length_map]
      by_cases hlast : endMs ≤ current + chunkMs interval
      · -- the last chunk
        rw [min_eq_right hlast]
        refine ⟨endMs, _, .inl rfl, ?_, hread endMs hend.le⟩
        rw [dateRangeLoop, if_neg (lt_irrefl endMs), ite_self]
      · have hlast : current + chunkMs interval < endMs := not_le.mp hlast
        have hk' : current + chunkMs interval = startMs + (k + 1 : ℕ) * chunkMs interval := by
          push_cast
          rw [hk]
          ring
        have hcount' : (read ++ between ValidCandle.time history current
            (current + chunkMs interval)).length = fetchedCount history startMs (k + 1) := by
          unfold fetchedCount at hcount ⊢
          rw [List.range_succ, List.map_append, List.sum_append, List.length_append, hcount,
            List.map_singleton, List.sum_singleton, hk, add_assoc startMs, add_one_mul]
        have hread' := hread _ (by omega : current ≤ current + chunkMs interval)
        rw [min_eq_left hlast.le]
        split
        · rename_i hlimit
          rw [hcount'] at hlimit
          exact ⟨_, _, .inr ⟨k + 1, hk', hlast, hlimit⟩, rfl, hread'⟩
        · refine ih _ ?_ (by omega) hlast hk' hcount' ?_ rfl
          · omega
          · intro next hle
            exact keepFirst_append_page hasc (by omega) hle hread'

theorem truncate_mono {x y : ℚ} (h : x ≤ y) : truncate x ≤ truncate y := by
  unfold truncate
  split
  · rename_i hx
    rw [if_pos (hx.trans h)]
    exact Int.floor_mono h
  · rename_i hx
    have hceil : ⌈x⌉ ≤ 0 := Int.ceil_le.mpr (by simpa using (not_le.mp hx).le)
    split
    · rename_i hy
      exact hceil.trans (Int.floor_nonneg.mpr hy)
    · exact Int.ceil_mono h

/-- The forward pagination returns the candles of its range up to where it
stops, each once and in order of time. -/
def DateRangeComplete (info : Info) (history : List (ValidCandle symbol interval))
    (fromisoformat : String → Option DateTime) (startDate endDate : String)
    (startMs endMs : ℤ) : Prop :=
  ∃ stop, StopsAt history startMs endMs stop ∧
    fetchDateRange info fromisoformat symbol interval startDate endDate
      = .ok ((between ValidCandle.time history startMs stop).map ValidCandle.bar)

/-- The pagination of a range is its loop. -/
theorem fetchDateRange_eq {fromisoformat : String → Option DateTime} {startDate endDate : String}
    {start stop : DateTime} (hstart : fromisoformat startDate = some start)
    (hstop : fromisoformat endDate = some stop) (hlt : start.seconds < stop.seconds) :
    fetchDateRange info fromisoformat symbol interval startDate endDate
      = (dateRangeLoop info symbol interval (truncate (stop.seconds * 1000))
          (truncate (start.seconds * 1000)) []).map deduplicateBars := by
  unfold fetchDateRange toUtc
  rw [hstart, hstop]
  refine (if_neg (not_le.mpr hlt)).trans ?_
  dsimp only
  cases dateRangeLoop info symbol interval (truncate (stop.seconds * 1000))
    (truncate (start.seconds * 1000)) [] with
  | error e => rfl
  | ok bars => rfl

/-- **Forwards**: complete and in order, unless the range begins and ends in one
millisecond that a candle opens in. -/
theorem dateRange_complete_iff (hasc : Ascending ValidCandle.time history)
    (h : Answers info history) {fromisoformat : String → Option DateTime}
    {startDate endDate : String} {start stop : DateTime}
    (hstart : fromisoformat startDate = some start) (hstop : fromisoformat endDate = some stop)
    (hlt : start.seconds < stop.seconds) :
    DateRangeComplete info history fromisoformat startDate endDate
        (truncate (start.seconds * 1000)) (truncate (stop.seconds * 1000)) ↔
      (truncate (start.seconds * 1000) < truncate (stop.seconds * 1000) ∨
        ∀ c ∈ history, c.time ≠ truncate (start.seconds * 1000)) := by
  have hle : truncate (start.seconds * 1000) ≤ truncate (stop.seconds * 1000) :=
    truncate_mono (by linarith)
  unfold DateRangeComplete
  rw [fetchDateRange_eq hstart hstop hlt]
  generalize truncate (start.seconds * 1000) = startMs at hle ⊢
  generalize truncate (stop.seconds * 1000) = endMs at hle ⊢
  rcases lt_or_eq_of_le hle with hrange | rfl
  · refine iff_of_true ?_ (.inl hrange)
    obtain ⟨last, all, hstops, hloop, hall⟩ :=
      @dateRangeLoop_eq _ _ _ _ hasc h startMs endMs startMs le_rfl hrange 0 (by simp) []
        (by simp [fetchedCount]) fun next _ => by
          rw [List.nil_append, keepFirst_of_nodup (hasc.between startMs next).nodup]
          simp
    refine ⟨last, hstops, ?_⟩
    rw [List.map_nil] at hloop
    rw [hloop, ← hall, ← deduplicateBars_map]
    rfl
  · rw [dateRangeLoop, if_neg (lt_irrefl startMs), or_iff_right (lt_irrefl startMs)]
    have hchunk := (chunkMs_bounds interval).1
    constructor
    · rintro ⟨last, hstops, heq⟩ c hc htime
      have hlast : last = startMs := by
        rcases hstops with rfl | ⟨k, rfl, hk, -⟩
        · rfl
        · have hpages : 0 ≤ (k : ℤ) * chunkMs interval := by positivity
          omega
      have hempty := List.map_eq_nil_iff.mp (Except.ok.inj heq).symm
      have hmem : c ∈ between ValidCandle.time history startMs last :=
        mem_between.mpr ⟨hc, htime.ge, by omega⟩
      rw [hempty] at hmem
      cases hmem
    · intro hnone
      refine ⟨startMs, .inl rfl, ?_⟩
      have hempty : between ValidCandle.time history startMs startMs = [] := by
        refine List.filter_eq_nil_iff.mpr fun c hc => ?_
        have hne := hnone c hc
        simp only [decide_eq_true_eq]
        omega
      rw [hempty]
      rfl

/-! ## §5 Both paginations -/

/-- The exchange with a history. -/
def exchangeOf (history : List (ValidCandle symbol interval)) : Info where
  candlesSnapshot _ _ startMs endMs :=
    .ok ((between ValidCandle.time history startMs endMs).map ValidCandle.candle)
  postCandleSnapshot _ _ startMs endMs :=
    .ok (some ((between ValidCandle.time history startMs endMs).map ValidCandle.candle))

theorem answers_exchangeOf (history : List (ValidCandle symbol interval)) :
    Answers (exchangeOf history) history := by
  intro startMs endMs
  unfold requestCandles
  dsimp only
  split
  · rfl
  · rfl

/-- The candle of a day, at a constant price. -/
def dayCandle (day : ℕ) : Candle :=
  { t := some ((day : ℤ) * 86400000), o := .str "100.0", h := .str "100.0", l := .str "100.0"
    c := .str "100.0", v := .str "1.5" }

/-- Its bar. -/
def dayBar (day : ℕ) : PriceBar :=
  { symbol := "BTC", source := "hyperliquid", interval := "1d"
    timestamp := timestampText (day * 86400000), openPrice := .fin 100, high := .fin 100
    low := .fin 100, close := .fin 100, volume := some 1 }

theorem processCandle_dayCandle {day : ℕ} (hpos : 0 < day) (hday : day < 2932897) :
    processCandle "BTC" "1d" (dayCandle day) = .ok (some (dayBar day)) := by
  have hrange : inDatetimeRange (day * 86400000) = true := by
    unfold inDatetimeRange daysTo
    rw [decide_eq_true_eq]
    omega
  have hcandle : ¬((day : ℤ) * 86400000 = 0 ∨ (!inDatetimeRange (day * 86400000)) = true) := by
    rw [hrange]
    simp only [Bool.not_true, Bool.false_eq_true, or_false]
    omega
  have hfloat : floatOfText "100.0" = some (.fin 100) := by decide +kernel
  have hvolume : floatOfText "1.5" = some (.fin (3 / 2)) := by decide +kernel
  have hprices : readPrices (dayCandle day) = .ok (.fin 100, .fin 100, .fin 100, .fin 100) := by
    unfold readPrices dayCandle
    simp only [PyValue.toFloat, hfloat]
    rfl
  have hread : readVolume (dayCandle day).v = .ok (some (some 1)) := by
    unfold readVolume dayCandle
    simp only [PyValue.toFloat, hvolume]
    rw [show truncate (3 / 2) = 1 by decide +kernel]
  have hvalid : validateBar (.fin 100) (.fin 100) (.fin 100) (.fin 100) (some 1) = true := by
    decide +kernel
  have ht : (dayCandle day).t = some ((day : ℤ) * 86400000) := rfl
  unfold processCandle
  rw [ht]
  dsimp only
  rw [if_neg hcandle, hprices, hread]
  change (if (!validateBar (.fin 100) (.fin 100) (.fin 100) (.fin 100) (some 1)) = true
    then Except.ok none else Except.ok (some (dayBar day))) = Except.ok (some (dayBar day))
  rw [hvalid]
  rfl

/-- A valid candle of a day. -/
def validDay (day : ℕ) (hpos : 0 < day) (hday : day < 2932897) : ValidCandle "BTC" "1d" where
  candle := dayCandle day
  time := day * 86400000
  bar := dayBar day
  time_pos := by omega
  t_eq := rfl
  processed := processCandle_dayCandle hpos hday

/-- Two days in neighbouring chunks. -/
def sparseHistory : List (ValidCandle "BTC" "1d") :=
  [validDay 14950 (by decide) (by decide), validDay 19900 (by decide) (by decide)]

/-- The first two days of 2024. -/
def twoDays : List (ValidCandle "BTC" "1d") :=
  [validDay 19723 (by decide) (by decide), validDay 19724 (by decide) (by decide)]

/-- The dates of a range, as `fromisoformat` reads them. -/
def rangeDates (text : String) : Option DateTime :=
  [("2010-12-07", { seconds := 1291680000, aware := false : DateTime }),
    ("2024-10-04", { seconds := 1728000000, aware := false })].lookup text

/-- **The paginations of a history.** The backward one returns the candles up to
its chunk limit, each once and in order of time, exactly if no two of them are
new in one chunk; the forward one those of its range, unless this begins and
ends in one millisecond that a candle opens in. -/
theorem paginations_complete_iff (hasc : Ascending ValidCandle.time history)
    (hgapless : Gapless ValidCandle.time history (chunkMs interval)) (h : Answers info history)
    {now : ℚ} (hnow : 0 ≤ now) (hrange : inDatetimeRange (truncate (now * 1000)) = true)
    {fromisoformat : String → Option DateTime} {startDate endDate : String}
    {start stop : DateTime} (hstart : fromisoformat startDate = some start)
    (hstop : fromisoformat endDate = some stop) (hlt : start.seconds < stop.seconds) :
    (MaxHistoryComplete info history now ↔ OneNewPerChunk history (truncate (now * 1000))) ∧
    (DateRangeComplete info history fromisoformat startDate endDate
        (truncate (start.seconds * 1000)) (truncate (stop.seconds * 1000)) ↔
      (truncate (start.seconds * 1000) < truncate (stop.seconds * 1000) ∨
        ∀ c ∈ history, c.time ≠ truncate (start.seconds * 1000))) :=
  ⟨maxHistory_complete_iff hasc hgapless h hnow hrange,
    dateRange_complete_iff hasc h hstart hstop hlt⟩

theorem paginations_complete_iff_sparse :
    MaxHistoryComplete (exchangeOf sparseHistory) sparseHistory 1728000000 ∧
    DateRangeComplete (exchangeOf sparseHistory) sparseHistory rangeDates "2010-12-07" "2024-10-04"
      1291680000000 1728000000000 := by
  have hnow : truncate (1728000000 * 1000) = 1728000000000 := by decide +kernel
  have hstart : truncate (1291680000 * 1000) = 1291680000000 := by decide +kernel
  have hasc : Ascending ValidCandle.time sparseHistory := by
    unfold Ascending
    decide +kernel
  have hgapless : Gapless ValidCandle.time sparseHistory (chunkMs "1d") := by
    unfold Gapless
    decide +kernel
  have hboth := paginations_complete_iff hasc hgapless (answers_exchangeOf sparseHistory)
    (show (0 : ℚ) ≤ 1728000000 by decide +kernel) (by decide +kernel)
    (show rangeDates "2010-12-07" = some { seconds := 1291680000, aware := false } by decide)
    (show rangeDates "2024-10-04" = some { seconds := 1728000000, aware := false } by decide)
    (by decide +kernel)
  rw [hnow, hstart] at hboth
  refine ⟨hboth.1.mpr ⟨.inr ?_, ?_⟩, hboth.2.mpr (.inl (by decide))⟩
  · refine List.ne_nil_of_mem (mem_between.mpr ⟨List.mem_cons_of_mem _ List.mem_cons_self, ?_⟩)
    decide +kernel
  · decide +kernel

/-- **Two days of one chunk.** The backward pagination returns the later day
first. -/
theorem maxHistory_descends :
    Ascending ValidCandle.time twoDays ∧
    Gapless ValidCandle.time twoDays (chunkMs "1d") ∧
    Answers (exchangeOf twoDays) twoDays ∧
    Ensures (fetchMaxHistory (exchangeOf twoDays) 1704240000 "BTC" "1d")
      (fun bars => bars.map PriceBar.timestamp
        = ["2024-01-02T00:00:00.000000", "2024-01-01T00:00:00.000000"]) ∧
    ¬MaxHistoryComplete (exchangeOf twoDays) twoDays 1704240000 := by
  have hrun : Ensures (fetchMaxHistory (exchangeOf twoDays) 1704240000 "BTC" "1d")
      (fun bars => bars.map PriceBar.timestamp
        = ["2024-01-02T00:00:00.000000", "2024-01-01T00:00:00.000000"]) :=
    Ensures.of_run (by decide +kernel)
  refine ⟨?_, ?_, answers_exchangeOf twoDays, hrun, fun hcomplete => ?_⟩
  · unfold Ascending
    decide +kernel
  · unfold Gapless
    decide +kernel
  · obtain ⟨bars, hbars, htimes⟩ := hrun
    obtain rfl := Except.ok.inj (hbars.symm.trans hcomplete)
    revert htimes
    decide +kernel

end Finbar.Fetch
