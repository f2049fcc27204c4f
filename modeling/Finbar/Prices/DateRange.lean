/-
Finbar.Prices.DateRange — the times of cached bars, and queries by date.

Both fetchers write a bar's time as `%Y-%m-%dT%H:%M:%S.%f`, and the cache compares these
texts with each other and with the dates of a query. Texts of that form are in order of
time (`timestampText_lt_iff`), and a date in ISO form comes before every time of its day
(`dateText_le_iff`, `le_dateText_iff`): a query leaves out the bars of its last date, though its
contract calls `end_date` inclusive (`query_dates`).

No `sorry`, no `axiom`.
-/
import Finbar.Fetch.HyperliquidTheorems
import Finbar.Prices.CacheTheorems
import Mathlib.Data.Set.List

namespace Finbar.Prices

open Lib.Python Lib.Calendar Lib.Paging Lib.Steps Lib.Table Finbar.Fetch Finbar.Simulation

/-! ## §1 The Hyperliquid fetcher -/

/-- `API_LIMIT_DAYS`. -/
def apiLimitDays : List (String × ℚ) :=
  [("5min", 17), ("30min", 90), ("1h", 208), ("1d", 1095), ("1w", 1095)]

/-- What `fetch` asks of `datetime`. -/
structure Clock where
  fromisoformat : String → Option DateTime
  /-- `isoformat`; `none` if the time is before the year 1, so that the subtraction that
  gives it raises. -/
  isoformat : DateTime → Option String
  /-- `datetime.now(UTC)`, in seconds. -/
  now : ℚ

/-- `_resolve_date_range`. -/
def resolveDateRange (clock : Clock) (interval : String) (startDate endDate : Option String) :
    Except FetchError (String × String) := do
  let stop ← match given endDate with
    | some date => toUtc clock.fromisoformat date
    | none => .ok { seconds := clock.now, aware := true }
  let start ← match given startDate with
    | some date => toUtc clock.fromisoformat date
    | none =>
        let lookbackDays := (apiLimitDays.lookup interval).getD 30
        .ok { stop with seconds := stop.seconds - lookbackDays * 86400 }
  match clock.isoformat start, clock.isoformat stop with
  | some startText, some stopText => return (startText, stopText)
  | _, _ => throw (.valueError { template := "date value out of range" })

/-- `HyperliquidFetcher.fetch`: no bars after any exception. -/
def hyperliquidFetch (info : Info) (clock : Clock) : Fetcher :=
  fun symbol interval startDate endDate =>
    let fetched : Except FetchError (List PriceBar) :=
      if (given startDate).isSome || (given endDate).isSome then do
        let range ← resolveDateRange clock interval startDate endDate
        fetchDateRange info clock.fromisoformat symbol interval range.1 range.2
      else fetchMaxHistory info clock.now symbol interval
    match fetched with
    | .ok bars => .ok bars
    | .error _ => .ok []

/-- A bar with a time, in the format of both fetchers. -/
def Stamped (bar : PriceBar) : Prop :=
  ∃ t, inDatetimeRange t = true ∧ bar.timestamp = timestampText t

theorem stamped_processCandles {candles : List Candle} {symbol interval : String}
    {bars : List PriceBar} (h : processCandles candles symbol interval = .ok bars) :
    ∀ bar ∈ bars, Stamped bar := by
  obtain ⟨read, hread, hbars⟩ := Lib.Run.bind_eq_ok.mp h
  obtain rfl := Except.ok.inj hbars
  intro bar hbar
  have hmem : some bar ∈ read := by simpa using hbar
  obtain ⟨candle, -, hcandle⟩ := (Lib.Run.mem_of_mapM_eq_ok hread).mp hmem
  obtain ⟨t, -, hrange, htext⟩ := processCandle_eq_some hcandle
  exact ⟨t, hrange, htext⟩

theorem stamped_fetchChunk {info : Info} {symbol interval : String} {startMs endMs : ℤ}
    {bars : List PriceBar} (h : fetchChunk info symbol interval startMs endMs = some bars) :
    ∀ bar ∈ bars, Stamped bar := by
  unfold fetchChunk at h
  split at h
  · cases h
  · next candles _ =>
      cases hread : processCandles candles symbol interval with
      | error exc => simp [hread, Except.toOption] at h
      | ok read =>
          obtain rfl : read = bars := by simpa [hread, Except.toOption] using h
          exact stamped_processCandles hread

theorem stamped_append {bars bars' : List PriceBar} (h : ∀ bar ∈ bars, Stamped bar)
    (h' : ∀ bar ∈ bars', Stamped bar) : ∀ bar ∈ bars ++ bars', Stamped bar := by
  intro bar hbar
  exact (List.mem_append.mp hbar).elim (h bar) (h' bar)

theorem stamped_maxHistoryLoop {info : Info} {symbol interval : String} {n : ℕ} {chunkEnd : ℤ}
    {temp bars : List PriceBar} (htemp : ∀ bar ∈ temp, Stamped bar)
    (h : maxHistoryLoop info symbol interval n chunkEnd temp = .ok bars) :
    ∀ bar ∈ bars, Stamped bar := by
  induction n generalizing chunkEnd temp with
  | zero =>
      obtain rfl := Except.ok.inj h
      exact htemp
  | succ n ih =>
      rw [maxHistoryLoop] at h
      split at h
      · cases h
      · split at h
        · obtain rfl := Except.ok.inj h
          exact htemp
        · cases h
      · next first later hchunk =>
          exact ih (stamped_append htemp (stamped_fetchChunk hchunk)) h

theorem stamped_dateRangeLoop {info : Info} {symbol interval : String} {endMs currentStart : ℤ}
    {allBars bars : List PriceBar} (hall : ∀ bar ∈ allBars, Stamped bar)
    (h : dateRangeLoop info symbol interval endMs currentStart allBars = .ok bars) :
    ∀ bar ∈ bars, Stamped bar := by
  fun_induction dateRangeLoop info symbol interval endMs currentStart allBars with
  | case1 => cases h
  | case2 _ _ _ _ hchunk _ =>
      obtain rfl := Except.ok.inj h
      exact stamped_append hall (stamped_fetchChunk hchunk)
  | case3 _ _ _ _ hchunk _ ih => exact ih (stamped_append hall (stamped_fetchChunk hchunk)) h
  | case4 =>
      obtain rfl := Except.ok.inj h
      exact hall

/-- **Whatever the exchange answers**, the bars have times. -/
theorem stamped_hyperliquidFetch {info : Info} {clock : Clock} {symbol interval : String}
    {startDate endDate : Option String} {bars : List PriceBar}
    (h : hyperliquidFetch info clock symbol interval startDate endDate = .ok bars) :
    ∀ bar ∈ bars, Stamped bar := by
  have hnone : ∀ bar ∈ ([] : List PriceBar), Stamped bar := by simp
  have hunique (kept : List PriceBar) (hkept : ∀ bar ∈ kept, Stamped bar) :
      ∀ bar ∈ deduplicateBars kept, Stamped bar :=
    fun bar hbar => hkept bar ((keepFirst_sublist [] kept).mem hbar)
  unfold hyperliquidFetch at h
  simp only at h
  split at h
  · next fetched hfetched =>
      obtain rfl := Except.ok.inj h
      split at hfetched
      · obtain ⟨range, -, hrange⟩ := Lib.Run.bind_eq_ok.mp hfetched
        unfold fetchDateRange at hrange
        obtain ⟨start, -, hrange⟩ := Lib.Run.bind_eq_ok.mp hrange
        obtain ⟨stop, -, hrange⟩ := Lib.Run.bind_eq_ok.mp hrange
        dsimp only at hrange
        split at hrange
        · cases hrange
        · obtain ⟨kept, hkept, hpure⟩ := Lib.Run.bind_eq_ok.mp hrange
          obtain rfl := Except.ok.inj hpure
          exact hunique kept (stamped_dateRangeLoop hnone hkept)
      · obtain ⟨temp, htemp, hpure⟩ := Lib.Run.bind_eq_ok.mp hfetched
        obtain rfl := Except.ok.inj hpure
        refine hunique temp.reverse fun bar hbar => ?_
        exact stamped_maxHistoryLoop hnone htemp bar (List.mem_reverse.mp hbar)
  · obtain rfl := Except.ok.inj h
    exact hnone

/-! ## §2 The order of the texts -/

/-- The date of a day, and what is written after it. -/
def dateThen (day : ℕ) (rest : List Char) : List Char :=
  digits 4 (dateOf day).year ++ '-' ::
    (digits 2 (dateOf day).month ++ '-' :: (digits 2 (dateOf day).day ++ rest))

/-- A date in ISO form: `%Y-%m-%d`. -/
def dateText (day : ℕ) : String :=
  String.ofList (dateThen day [])

theorem lex_dateThen {m n : ℕ} {c d : List Char} (hn : n < 3652059)
    (h : m < n ∨ m = n ∧ List.Lex (· < ·) c d) :
    List.Lex (· < ·) (dateThen m c) (dateThen n d) := by
  have hyears := dateOf_year_lt hn
  have hmonths : (dateOf n).month < 10 ^ 2 := dateOf_month_lt n
  have hdays : (dateOf n).day < 10 ^ 2 := dateOf_day_lt n
  rcases h with hlt | ⟨rfl, hrest⟩
  · rcases dateOf_lt hlt with hyear | ⟨hyear, hmonth | ⟨hmonth, hday⟩⟩
    · exact lex_digits hyears (.inl hyear)
    · exact lex_digits hyears (.inr ⟨hyear, .cons (lex_digits hmonths (.inl hmonth))⟩)
    · have hlex := lex_digits (c := c) (d := d) hdays (.inl hday)
      exact lex_digits hyears
        (.inr ⟨hyear, .cons (lex_digits hmonths (.inr ⟨hmonth, .cons hlex⟩))⟩)
  · have hlex := lex_digits hdays (.inr ⟨rfl, hrest⟩)
    exact lex_digits hyears (.inr ⟨rfl, .cons (lex_digits hmonths (.inr ⟨rfl, .cons hlex⟩))⟩)

/-- The time of a day, in milliseconds. -/
def clockChars (clock : ℕ) : List Char :=
  digits 2 (clock / 3600000) ++ ':' :: (digits 2 (clock / 60000 % 60) ++
    ':' :: (digits 2 (clock / 1000 % 60) ++ '.' :: digits 6 (clock % 1000 * 1000)))

theorem timestampText_eq (ms : ℤ) : timestampText ms =
    String.ofList (dateThen (daysTo ms).toNat ('T' :: clockChars (ms % 86400000).toNat)) := rfl

theorem lex_clockChars {m n : ℕ} (h : m < n) (hn : n < 86400000) :
    List.Lex (· < ·) (clockChars m) (clockChars n) := by
  have hfields : m / 3600000 < n / 3600000 ∨ m / 3600000 = n / 3600000 ∧
      (m / 60000 % 60 < n / 60000 % 60 ∨ m / 60000 % 60 = n / 60000 % 60 ∧
        (m / 1000 % 60 < n / 1000 % 60 ∨ m / 1000 % 60 = n / 1000 % 60 ∧
          m % 1000 * 1000 < n % 1000 * 1000)) := by omega
  have hmicros : n % 1000 * 1000 < 10 ^ 6 := by omega
  unfold clockChars
  refine lex_digits (by omega) (hfields.imp_right fun ⟨hhour, hfields⟩ => ⟨hhour, ?_⟩)
  refine .cons (lex_digits (by omega) (hfields.imp_right fun ⟨hminute, hfields⟩ => ⟨hminute, ?_⟩))
  refine .cons (lex_digits (by omega) (hfields.imp_right fun ⟨hsecond, hmicro⟩ => ⟨hsecond, ?_⟩))
  exact .cons (digits_lt hmicro hmicros)

theorem ofList_lt {cs ds : List Char} (h : List.Lex (· < ·) cs ds) :
    String.ofList cs < String.ofList ds := by
  rw [String.lt_iff_toList_lt, String.toList_ofList, String.toList_ofList]
  exact h

/-- The texts of two times are in the order of the times. -/
theorem timestampText_lt {s t : ℤ} (hs : inDatetimeRange s = true) (ht : inDatetimeRange t = true)
    (h : s < t) : timestampText s < timestampText t := by
  have hsdays := of_decide_eq_true hs
  have htdays := of_decide_eq_true ht
  rw [timestampText_eq, timestampText_eq]
  refine ofList_lt (lex_dateThen (by omega) ?_)
  rcases (by unfold daysTo; omega :
    daysTo s < daysTo t ∨ daysTo s = daysTo t ∧ s % 86400000 < t % 86400000) with hlt | ⟨heq, hlt⟩
  · exact .inl (by omega)
  · exact .inr ⟨by rw [heq], .cons (lex_clockChars (by omega) (by omega))⟩

theorem timestampText_lt_iff {s t : ℤ} (hs : inDatetimeRange s = true)
    (ht : inDatetimeRange t = true) : timestampText s < timestampText t ↔ s < t := by
  refine ⟨fun h => ?_, timestampText_lt hs ht⟩
  by_contra hle
  rcases (not_lt.mp hle).lt_or_eq with hlt | rfl
  · exact lt_asymm h (timestampText_lt ht hs hlt)
  · exact lt_irrefl _ h

theorem dateText_lt {day : ℕ} {t : ℤ} (ht : inDatetimeRange t = true) (h : (day : ℤ) ≤ daysTo t) :
    dateText day < timestampText t := by
  have htdays := of_decide_eq_true ht
  rw [timestampText_eq]
  refine ofList_lt (lex_dateThen (by omega) ?_)
  rcases (by omega : day < (daysTo t).toNat ∨ day = (daysTo t).toNat) with hlt | heq
  · exact .inl hlt
  · exact .inr ⟨heq, .nil⟩

theorem lt_dateText {day : ℕ} {t : ℤ} (hday : day < 3652059) (ht : inDatetimeRange t = true)
    (h : daysTo t < day) : timestampText t < dateText day := by
  have htdays := of_decide_eq_true ht
  rw [timestampText_eq]
  exact ofList_lt (lex_dateThen hday (.inl (by omega)))

/-- A date comes before the times of its day and of every later day. -/
theorem dateText_le_iff {day : ℕ} {t : ℤ} (hday : day < 3652059) (ht : inDatetimeRange t = true) :
    dateText day ≤ timestampText t ↔ (day : ℤ) ≤ daysTo t := by
  refine ⟨fun h => ?_, fun h => (dateText_lt ht h).le⟩
  by_contra hlt
  exact (lt_dateText hday ht (not_le.mp hlt)).not_ge h

/-- It comes after the times of earlier days alone. -/
theorem le_dateText_iff {day : ℕ} {t : ℤ} (hday : day < 3652059) (ht : inDatetimeRange t = true) :
    timestampText t ≤ dateText day ↔ daysTo t < day := by
  refine ⟨fun h => ?_, fun h => (lt_dateText hday ht h).le⟩
  by_contra hle
  exact (dateText_lt ht (not_lt.mp hle)).not_ge h

/-! ## §3 Queries by date -/

variable {upper : String → String}

/-- The bars that a call fetches have times. -/
def Action.Stamps : Action → Prop
  | .fetchPrices fetcher _ request =>
      ∀ bars, fetcher request.symbol request.interval request.startDate request.endDate = .ok bars →
        ∀ bar ∈ bars, Stamped bar
  | .deleteCachedPrices .. => True

theorem stamps_hyperliquidFetch (info : Info) (clock : Clock) (fault : Option PyError)
    (request : FetchPricesRequest) :
    (Action.fetchPrices (hyperliquidFetch info clock) fault request).Stamps :=
  fun _ => stamped_hyperliquidFetch

theorem stamped_of_standing {actions : List Action} (h : ∀ action ∈ actions, action.Stamps)
    {bar : PriceBar} (hbar : Standing uniqueKey (writesOf upper actions) bar) : Stamped bar := by
  obtain ⟨before, later, hsplit, -⟩ := hbar
  have hput : Write.put bar ∈ writesOf upper actions := by simp [hsplit]
  obtain ⟨action, haction, hwrites⟩ := List.mem_flatMap.mp hput
  have hstamps := h action haction
  cases action with
  | fetchPrices fetcher fault request =>
      simp only [Action.writes] at hwrites
      split at hwrites
      · next bars _ hfetched =>
          unfold savedWrites at hwrites
          split at hwrites
          · obtain ⟨fetched, hmem, heq⟩ := List.mem_map.mp hwrites
            obtain rfl := Write.put.inj heq
            exact hstamps bars hfetched fetched hmem
          · exact absurd hwrites List.not_mem_nil
      · exact absurd hwrites List.not_mem_nil
  | deleteCachedPrices fault symbol source interval beforeDate =>
      simp only [Action.writes] at hwrites
      split at hwrites
      · simp at hwrites
      · simp at hwrites

theorem given_dateText (date : Option ℕ) : given (date.map dateText) = date.map dateText := by
  have hne (day : ℕ) : dateText day ≠ "" := by
    intro h
    have hlength := congrArg (fun text => text.toList.length) h
    simp [dateText, dateThen] at hlength
  cases date with
  | none => rfl
  | some day => simp [given, hne]

/-- A time that a bar can have. -/
abbrev BarTime : Type := {t : ℤ // inDatetimeRange t = true}

/-- **Queries by date**, of a cache that bars with times were fetched into in any order. The
answer is in order of time, each time once. It has the bars of the series that stand, from
the first date on and until the last date: no bar of the last date. -/
theorem query_dates (upper : String → String) {actions : List Action}
    (h : ∀ action ∈ actions, action.Stamps) (symbol source interval : String)
    {first last : Option ℕ} (hfirst : ∀ day ∈ first, day < 3652059)
    (hlast : ∀ day ∈ last, day < 3652059) :
    (∃ times : List BarTime,
      (queryBars upper symbol source interval (first.map dateText) (last.map dateText)
        (cacheAfter upper actions)).map PriceBar.timestamp =
          times.map (fun t => timestampText t.val) ∧
      times.Pairwise (· < ·)) ∧
    ∀ (bar : PriceBar) (t : BarTime), bar.timestamp = timestampText t.val →
      (bar ∈ queryBars upper symbol source interval (first.map dateText) (last.map dateText)
          (cacheAfter upper actions) ↔
        Standing uniqueKey (writesOf upper actions) bar ∧
          ofSeries upper symbol source interval bar = true ∧
          (∀ day ∈ first, (day : ℤ) ≤ daysTo t.val) ∧ ∀ day ∈ last, daysTo t.val < day) := by
  set bars := queryBars upper symbol source interval (first.map dateText) (last.map dateText)
    (cacheAfter upper actions) with hbars
  have hstrict : bars.Pairwise fun a b => a.timestamp < b.timestamp :=
    strict_queryBars actions symbol source interval (first.map dateText) (last.map dateText)
  constructor
  · have htexts : bars.map PriceBar.timestamp ∈
        Set.range (List.map fun t : BarTime => timestampText t.val) := by
      rw [Set.range_list_map]
      intro text htext
      obtain ⟨bar, hbar, rfl⟩ := List.mem_map.mp htext
      obtain ⟨t, ht, heq⟩ := stamped_of_standing h (mem_queryBars.mp hbar).1
      exact ⟨⟨t, ht⟩, heq.symm⟩
    obtain ⟨times, htimes⟩ := htexts
    refine ⟨times, htimes.symm, ?_⟩
    have hsorted : (times.map fun t : BarTime => timestampText t.val).Pairwise (· < ·) := by
      rw [htimes]
      exact List.pairwise_map.mpr hstrict
    exact (List.pairwise_map.mp hsorted).imp fun {s t} hlt =>
      (timestampText_lt_iff s.property t.property).mp hlt
  · intro bar t htext
    rw [mem_queryBars, given_dateText, given_dateText, htext]
    refine and_congr_right' (and_congr_right' (and_congr ?_ ?_))
    · cases first with
      | none => simp
      | some day => simpa using dateText_le_iff (hfirst day rfl) t.property
    · cases last with
      | none => simp
      | some day => simpa using le_dateText_iff (hlast day rfl) t.property

/-- A clock on the third of January 2024. -/
def sampleClock : Clock where
  fromisoformat := rangeDates
  isoformat _ := none
  now := 1704240000

/-- A fetch of all candles of an exchange with two days of history. -/
def fetchTwoDays : Action :=
  .fetchPrices (hyperliquidFetch (exchangeOf twoDays) sampleClock) none
    { symbol := "BTC", source := "hyperliquid", interval := "1d" }

/-- The fetcher returns the later day first; a query of the cache until the second of
January, the day that has number 738886, answers the first of January. -/
theorem query_dates_two_days :
    (queryBars id "BTC" "hyperliquid" "1d" none (some (dateText 738886))
      (cacheAfter id [fetchTwoDays])).map PriceBar.timestamp = ["2024-01-01T00:00:00.000000"] ∧
    ∀ bar ∈ queryBars id "BTC" "hyperliquid" "1d" none (some (dateText 738886))
      (cacheAfter id [fetchTwoDays]), ∀ t : BarTime, bar.timestamp = timestampText t.val →
        daysTo t.val < 738886 := by
  have hquery := @query_dates id [fetchTwoDays] ?_ "BTC" "hyperliquid" "1d" none (some 738886)
    (by simp) (by simp)
  · refine ⟨by decide +kernel, fun bar hbar t htext => ?_⟩
    exact ((hquery.2 bar t htext).mp hbar).2.2.2 738886 rfl
  · intro action haction
    rw [List.mem_singleton.mp haction]
    exact stamps_hyperliquidFetch _ _ _ _

end Finbar.Prices
