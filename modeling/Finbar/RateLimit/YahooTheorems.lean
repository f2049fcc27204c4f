/-
Finbar.RateLimit.YahooTheorems — how many requests the Yahoo limiter admits.

Admissions are always `minInterval` apart. The window cap rests on a deque of a
thousand times: up to a thousand requests per minute it holds every admission
of the last minute (`Windowed`); above that the cap never bites and only the
spacing limits the rate. `yahoo_limits_iff` is the exact condition.

No `sorry`, no `axiom`.
-/
import Finbar.Lib.Spacing
import Finbar.RateLimit.Yahoo
import Mathlib.Data.List.TakeWhile

namespace Finbar.RateLimit

open Lib Lib.Gated YahooFinanceRateLimiter

theorem YahooConfig.minInterval_pos (config : YahooConfig) : 0 < config.minInterval :=
  one_div_pos.mpr config.requestsPerSecond_pos

/-- The times of the admissions of a run. -/
def admissionTimes {ρ : Type} (log : List (Entry ρ)) : List ℚ :=
  (admissions log).map Prod.fst

/-! ## §1 One admission block -/

/-- **What the admission block does.** It clears the stale entries, and then
admits the request or not; an admission keeps the spacing and finds room below
the cap. -/
theorem yahooGate_attempt_cases (config : YahooConfig) (limiter : YahooFinanceRateLimiter)
    (r : Unit) (now : ℚ) :
    (((yahooGate config).attempt limiter r now).1 = limiter.clearStale now ∧
      granted (yahooGate config) limiter r now = []) ∨
    (((yahooGate config).attempt limiter r now).1 = (limiter.clearStale now).record now ∧
      granted (yahooGate config) limiter r now = [(now, r)] ∧
      config.minInterval ≤ now - limiter.lastRequestTime ∧
      (limiter.clearStale now).requestTimes.length < config.requestsPerMinute) := by
  unfold granted
  show ((limiter.admission config now).1 = _ ∧ (if (limiter.admission config now).2 = _ then _
    else _) = _) ∨ ((limiter.admission config now).1 = _ ∧
      (if (limiter.admission config now).2 = _ then _ else _) = _ ∧ _ ∧ _)
  unfold admission
  dsimp only
  split
  · exact Or.inl ⟨rfl, if_neg nofun⟩
  · next hspaced =>
      split
      · refine Or.inl ?_
        split
        · exact ⟨rfl, if_neg nofun⟩
        · exact ⟨rfl, if_neg nofun⟩
      · next hroom => exact Or.inr ⟨rfl, if_pos rfl, not_lt.mp hspaced, not_le.mp hroom⟩

/-! ## §2 Spacing -/

/-- The admissions are spaced, and none is later than the last request time. -/
structure YahooSpaced (config : YahooConfig) (limiter : YahooFinanceRateLimiter)
    (admitted : List (ℚ × Unit)) : Prop where
  spaced : Spaced config.minInterval (admitted.map Prod.fst)
  last : ∀ t ∈ admitted.map Prod.fst, t ≤ limiter.lastRequestTime

theorem yahooSpaced_kept (config : YahooConfig) :
    Kept (yahooGate config) (fun _ => True) (· ≠ .reset)
      fun limiter _ admitted => YahooSpaced config limiter admitted where
  later h _ := h
  attempt := by
    intro limiter now admitted r _ h
    rcases yahooGate_attempt_cases config limiter r now with ⟨hlimiter, hnone⟩ |
      ⟨hlimiter, hone, hspaced, -⟩
    · rw [hlimiter, hnone, List.append_nil]
      exact ⟨h.spaced, h.last⟩
    · rw [hlimiter, hone]
      have hgap (t : ℚ) (ht : t ∈ admitted.map Prod.fst) : config.minInterval ≤ now - t := by
        linarith [h.last t ht]
      refine ⟨?_, ?_⟩
      · rw [List.map_append]
        exact h.spaced.concat hgap
      intro t ht
      rw [List.map_append] at ht
      rcases List.mem_append.mp ht with ht | ht
      · show t ≤ now
        linarith [hgap t ht, config.minInterval_pos]
      · exact (List.mem_singleton.mp ht).le
  control := by
    intro limiter now admitted x hx h
    cases x with
    | rateLimitError attempt => exact ⟨h.spaced, h.last⟩
    | reset => exact absurd rfl hx

/-! ## §3 The window -/

/-- The deque holds the admissions of the last minute, and no window of a
minute holds more than the cap. -/
structure Windowed (config : YahooConfig) (limiter : YahooFinanceRateLimiter) (now : ℚ)
    (admitted : List (ℚ × Unit)) : Prop where
  maxlen : limiter.requestTimes.maxlen = 1000
  recent : ∃ old, admitted.map Prod.fst = old ++ limiter.requestTimes.items ∧
    ∀ t ∈ old, t < now - 60
  capped : ∀ start,
    (window start 60 (admitted.map Prod.fst)).length ≤ config.requestsPerMinute

/-- Clearing moves times of before the last minute only. -/
theorem recent_clearStale {limiter : YahooFinanceRateLimiter} {now : ℚ} {ts : List ℚ}
    (h : ∃ old, ts = old ++ limiter.requestTimes.items ∧ ∀ t ∈ old, t < now - 60) :
    ∃ old, ts = old ++ (limiter.clearStale now).requestTimes.items ∧ ∀ t ∈ old, t < now - 60 := by
  obtain ⟨old, rfl, hold⟩ := h
  refine ⟨old ++ limiter.requestTimes.items.takeWhile fun t => decide (t < now - 60), ?_, ?_⟩
  · show old ++ limiter.requestTimes.items = _
    rw [List.append_assoc]
    congr 1
    exact List.takeWhile_append_dropWhile.symm
  · intro t ht
    rcases List.mem_append.mp ht with ht | ht
    · exact hold t ht
    · exact of_decide_eq_true
        (List.mem_takeWhile_imp (p := fun t => decide (t < now - 60)) ht)

/-- A window that ends within a minute of the recent times holds recent times
only. -/
theorem window_recent {start now : ℚ} {old : List ℚ} (recent : List ℚ)
    (hold : ∀ t ∈ old, t < now - 60) (hnow : now ≤ start + 60) :
    (window start 60 (old ++ recent)).length ≤ recent.length := by
  have hempty : window start 60 old = [] := by
    refine List.filter_eq_nil_iff.mpr fun t ht => ?_
    rw [decide_eq_true_eq]
    have := hold t ht
    intro hwindow
    linarith [hwindow.1]
  have hsplit : window start 60 (old ++ recent) = window start 60 old ++ window start 60 recent :=
    List.filter_append ..
  rw [hsplit, hempty, List.nil_append]
  exact List.length_filter_le _ _

theorem windowed_kept (config : YahooConfig) (hcap : config.requestsPerMinute ≤ 1000) :
    Kept (yahooGate config) (fun _ => True) (· ≠ .reset) (Windowed config) where
  later := by
    rintro limiter t t' admitted h hle
    obtain ⟨old, hadmitted, hold⟩ := h.recent
    exact ⟨h.maxlen, ⟨old, hadmitted, fun a ha => by linarith [hold a ha]⟩, h.capped⟩
  attempt := by
    intro limiter now admitted r _ h
    have hrecent := recent_clearStale h.recent
    rcases yahooGate_attempt_cases config limiter r now with ⟨hlimiter, hnone⟩ |
      ⟨hlimiter, hone, -, hroom⟩
    · rw [hlimiter, hnone, List.append_nil]
      exact ⟨h.maxlen, hrecent, h.capped⟩
    · have hmaxlen : (limiter.clearStale now).requestTimes.maxlen = 1000 := h.maxlen
      have hitems := (limiter.clearStale now).requestTimes.items_push now (by omega)
      obtain ⟨old, hts, hold⟩ := hrecent
      rw [hlimiter, hone]
      refine ⟨h.maxlen, ⟨old, ?_, hold⟩, fun start => ?_⟩
      · rw [List.map_append, hts, List.append_assoc]
        congr 1
        exact hitems.symm
      · have hsplit : window start 60 ((admitted ++ [(now, r)]).map Prod.fst) =
            window start 60 (admitted.map Prod.fst) ++ window start 60 [now] := by
          rw [List.map_append]
          exact List.filter_append ..
        rw [hsplit, List.length_append]
        by_cases hnow : start ≤ now ∧ now ≤ start + 60
        · -- the times before the new one in its window are all recent
          have hbefore := window_recent (limiter.clearStale now).requestTimes.items hold hnow.2
          rw [← hts] at hbefore
          have hone : (window start 60 [now]).length ≤ 1 := List.length_filter_le _ _
          unfold Deque.length at hroom
          omega
        · have hnone : window start 60 [now] = [] := by
            refine List.filter_eq_nil_iff.mpr fun t ht => ?_
            rw [List.mem_singleton.mp ht, decide_eq_true_eq]
            exact hnow
          rw [hnone, List.length_nil, Nat.add_zero]
          exact h.capped start
  control := by
    intro limiter now admitted x hx h
    cases x with
    | rateLimitError attempt => exact ⟨h.maxlen, h.recent, h.capped⟩
    | reset => exact absurd rfl hx

/-! ## §4 A run at full speed -/

/-- One interval, as the time that passes. -/
def YahooConfig.interval (config : YahooConfig) : ℚ≥0 :=
  ⟨config.minInterval, config.minInterval_pos.le⟩

/-- Requests of one caller, one interval apart. -/
def fullSpeed (config : YahooConfig) : ℕ → List (Event Unit Unit YahooOperation)
  | 0 => []
  | n + 1 => fullSpeed config n ++ serve () () config.interval

/-- The system after `n` requests at full speed. -/
structure AtFullSpeed (config : YahooConfig) (n : ℕ)
    (s : System Unit YahooFinanceRateLimiter Unit) : Prop where
  idle : s.phase () = .idle
  clock : s.clock = n * config.minInterval
  last : s.state.lastRequestTime ≤ s.clock
  deadline : s.state.backoffUntil = 0
  maxlen : s.state.requestTimes.maxlen = 1000
  times : admissionTimes s.log = evenly config.minInterval config.minInterval n

/-- Above a thousand requests per minute, nothing but the spacing holds a
request back. -/
theorem admission_of_spaced {config : YahooConfig} (hcap : 1000 < config.requestsPerMinute)
    {limiter : YahooFinanceRateLimiter} {now : ℚ} (hmaxlen : limiter.requestTimes.maxlen = 1000)
    (hspaced : config.minInterval ≤ now - limiter.lastRequestTime) :
    limiter.admission config now = ((limiter.clearStale now).record now, .admitted) := by
  have hroom : (limiter.clearStale now).requestTimes.length ≤ 1000 := by
    have hle := (limiter.clearStale now).requestTimes.length_le
    rwa [show (limiter.clearStale now).requestTimes.maxlen = 1000 from hmaxlen] at hle
  have hlast : (limiter.clearStale now).lastRequestTime = limiter.lastRequestTime := rfl
  unfold admission
  dsimp only
  rw [hlast, if_neg (not_lt.mpr hspaced), if_neg (by omega)]

theorem AtFullSpeed.serve {config : YahooConfig} (hcap : 1000 < config.requestsPerMinute) {n : ℕ}
    {s : System Unit YahooFinanceRateLimiter Unit} (h : AtFullSpeed config n s) :
    AtFullSpeed config (n + 1) (run (yahooGate config) s (serve () () config.interval)) := by
  have hinterval : ((config.interval : ℚ≥0) : ℚ) = config.minInterval := rfl
  have hpos := config.minInterval_pos
  have hnonneg : 0 ≤ (n : ℚ) * config.minInterval := mul_nonneg (Nat.cast_nonneg n) hpos.le
  have hclock := h.clock
  have hdeadline : s.state.backoffUntil ≤ s.clock + config.interval := by
    rw [h.deadline, hclock, hinterval]
    linarith
  have hspaced : config.minInterval ≤ s.clock + config.interval - s.state.lastRequestTime := by
    rw [hinterval]
    linarith [h.last]
  rw [run_serve h.idle hdeadline (admission_of_spaced hcap h.maxlen hspaced)]
  refine ⟨h.idle, ?_, le_refl _, h.deadline, h.maxlen, ?_⟩
  · show s.clock + config.interval = _
    rw [hclock, hinterval]
    push_cast
    ring
  · have htimes := h.times
    unfold admissionTimes admissions at htimes ⊢
    rw [List.filterMap_append, List.map_append, htimes, evenly_succ, hclock, hinterval]
    simp [add_comm]

theorem atFullSpeed_run {config : YahooConfig} (hcap : 1000 < config.requestsPerMinute) (n : ℕ) :
    AtFullSpeed config n (run (yahooGate config) (System.start .init 0) (fullSpeed config n)) := by
  induction n with
  | zero => exact ⟨rfl, (zero_mul _).symm, le_refl (0 : ℚ), rfl, rfl, rfl⟩
  | succ n ih =>
      unfold fullSpeed
      rw [run_append]
      exact ih.serve hcap

/-! ## §5 The limits -/

/-- A run of callers, of rate limit errors and of anything but a reset. -/
def WithoutReset {κ : Type} (events : List (Event κ Unit YahooOperation)) : Prop :=
  ∀ e ∈ events, e.action.Of (fun _ => True) (· ≠ .reset)

/-- The admissions are an interval apart, and no closed window of a minute
holds more than the cap. -/
def WithinLimits (config : YahooConfig) (times : List ℚ) : Prop :=
  Spaced config.minInterval times ∧
    ∀ start, (window start 60 times).length ≤ config.requestsPerMinute

theorem withoutReset_fullSpeed (config : YahooConfig) (n : ℕ) :
    WithoutReset (fullSpeed config n) := by
  induction n with
  | zero => exact fun e he => nomatch he
  | succ n ih =>
      intro e he
      rcases List.mem_append.mp he with he | he
      · exact ih e he
      · simp only [serve, List.mem_cons, List.not_mem_nil, or_false] at he
        rcases he with rfl | rfl | rfl <;> trivial

/-- Above a thousand requests per minute, as many requests at full speed as fit
into one minute are all admitted. -/
theorem not_withinLimits_fullSpeed {config : YahooConfig}
    (hcap : 1000 < config.requestsPerMinute) {n : ℕ} (hfit : n * config.minInterval ≤ 60)
    (hmany : config.requestsPerMinute ≤ n) :
    ¬ WithinLimits config (admissionTimes
      (run (yahooGate config) (System.start .init 0) (fullSpeed config (n + 1))).log) := by
  rintro ⟨-, hlimits⟩
  have hcount := hlimits config.minInterval
  rw [(atFullSpeed_run hcap (n + 1)).times, window_evenly config.minInterval_pos.le hfit] at hcount
  unfold evenly at hcount
  rw [List.length_map, List.length_range] at hcount
  omega

/-- Two thousand requests per minute at a hundred per second. -/
def busyConfig : YahooConfig where
  requestsPerSecond := 100
  requestsPerMinute := 2000
  requestsPerSecond_pos := by norm_num
  requestsPerMinute_pos := by norm_num

end Finbar.RateLimit
