/-
Finbar.RateLimit.CoinGlassTheorems — what the CoinGlass limiter keeps while its limit changes.

The limit follows the headers of the responses, so a run has no limit of its own: every
admission is held to the one in force when it is made. The deque of a thousand times
remembers the admissions (`Logged`), also while a limit above a thousand is in force and it
forgets some of the last minute; a limit of at most a thousand that comes after that is
kept again.

No `sorry`, no `axiom`.
-/
import Finbar.Lib.SlidingLog
import Finbar.RateLimit.CoinGlass
import Finbar.RateLimit.YahooTheorems

namespace Finbar.RateLimit

open Lib Lib.Gated CoinGlassRateLimiter

variable {reading : HeaderReading} {config : CoinGlassConfig}

theorem CoinGlassConfig.minInterval_nonneg (config : CoinGlassConfig) : 0 ≤ config.minInterval := by
  unfold CoinGlassConfig.minInterval
  split
  · next hpos => exact (one_div_pos.mpr hpos).le
  · exact le_refl 0

/-! ## §1 One admission block -/

/-- **What the admission block does.** -/
theorem coinGlassGate_attempt_cases (reading : HeaderReading) (config : CoinGlassConfig)
    (limiter : CoinGlassRateLimiter) (r : Unit) (now : ℚ) :
    (((coinGlassGate reading config).attempt limiter r now).1 = limiter.clearStale now ∧
      granted (coinGlassGate reading config) limiter r now = []) ∨
    (((coinGlassGate reading config).attempt limiter r now).1 =
        (limiter.clearStale now).record now ∧
      granted (coinGlassGate reading config) limiter r now = [(now, r)] ∧
      (0 < config.minInterval → config.minInterval ≤ now - limiter.lastRequestTime) ∧
      ((limiter.clearStale now).requestTimes.length : ℤ) < limiter.maxPerMinute) := by
  unfold granted
  show ((limiter.admission config now).1 = _ ∧ (if (limiter.admission config now).2 = _ then _
    else _) = _) ∨ ((limiter.admission config now).1 = _ ∧
      (if (limiter.admission config now).2 = _ then _ else _) = _ ∧ _ ∧ _)
  unfold admission
  dsimp only
  split
  · exact .inl ⟨rfl, if_neg nofun⟩
  · next hspaced =>
      split
      · refine .inl ?_
        split
        · exact ⟨rfl, if_neg nofun⟩
        · exact ⟨rfl, if_neg nofun⟩
      · next hroom =>
          refine .inr ⟨rfl, if_pos rfl, fun hpos => ?_, not_le.mp hroom⟩
          exact not_lt.mp fun hearly => hspaced ⟨hpos, hearly⟩

/-- No admission moves the deadline. -/
theorem coinGlassGate_deadline (limiter : CoinGlassRateLimiter) (r : Unit) (now : ℚ) :
    (coinGlassGate reading config).deadline
        ((coinGlassGate reading config).attempt limiter r now).1 =
      (coinGlassGate reading config).deadline limiter := by
  rcases coinGlassGate_attempt_cases reading config limiter r now with ⟨hlimiter, -⟩ |
    ⟨hlimiter, -⟩
  · rw [hlimiter]
    rfl
  · rw [hlimiter]
    rfl

/-! ## §2 What is remembered -/

/-- The admissions are spaced and past, and the deque remembers those of the last minute. -/
structure Logged (config : CoinGlassConfig) (limiter : CoinGlassRateLimiter) (now : ℚ)
    (admitted : List (ℚ × Unit)) : Prop where
  spaced : Spaced config.minInterval (admitted.map Prod.fst)
  last : ∀ t ∈ admitted.map Prod.fst, t ≤ limiter.lastRequestTime
  past : ∀ t ∈ admitted.map Prod.fst, t ≤ now
  maxlen : limiter.requestTimes.maxlen = 1000
  remembers : Remembers (admitted.map Prod.fst) limiter.requestTimes (now - 60)

theorem Logged.clearStale {limiter : CoinGlassRateLimiter} {now : ℚ} {admitted : List (ℚ × Unit)}
    (h : Logged config limiter now admitted) :
    Logged config (limiter.clearStale now) now admitted where
  spaced := h.spaced
  last := h.last
  past := h.past
  maxlen := h.maxlen
  remembers := by
    refine Remembers.popWhile ?_ h.remembers
    exact (h.spaced.pairwise config.minInterval_nonneg).imp fun hgap =>
      sub_nonneg.mp (config.minInterval_nonneg.trans hgap)

theorem logged_kept (reading : HeaderReading) (config : CoinGlassConfig) :
    Kept (coinGlassGate reading config) (fun _ => True) (· ≠ .reset) (Logged config) where
  later := by
    intro limiter now now' admitted h hle
    exact { h with
      past := fun t ht => (h.past t ht).trans hle
      remembers := h.remembers.mono (by linarith) }
  attempt := by
    intro limiter now admitted r _ h
    rcases coinGlassGate_attempt_cases reading config limiter r now with ⟨hlimiter, hnone⟩ |
      ⟨hlimiter, hone, hspaced, -⟩
    · rw [hlimiter, hnone, List.append_nil]
      exact h.clearStale
    · have hgap : ∀ t ∈ admitted.map Prod.fst, config.minInterval ≤ now - t := by
        intro t ht
        rcases config.minInterval_nonneg.lt_or_eq with hpos | hzero
        · linarith [hspaced hpos, h.last t ht]
        · linarith [h.past t ht]
      have hpast : ∀ t ∈ (admitted ++ [(now, r)]).map Prod.fst, t ≤ now := by
        intro t ht
        rw [List.map_append] at ht
        exact (List.mem_append.mp ht).elim (h.past t) fun ht => (List.mem_singleton.mp ht).le
      rw [hlimiter, hone]
      refine ⟨?_, hpast, hpast, h.maxlen, ?_⟩
      · rw [List.map_append]
        exact h.spaced.concat hgap
      · rw [List.map_append]
        exact h.clearStale.remembers.push now
  control := by
    intro limiter now admitted x hx h
    cases x with
    | header key value =>
        have hsame : ∃ limit, (coinGlassGate reading config).control limiter (.header key value) now =
            { limiter with maxPerMinute := limit } := by
          show ∃ limit, readHeader reading limiter key value = _
          unfold readHeader
          split
          · split
            · exact ⟨_, rfl⟩
            · exact ⟨limiter.maxPerMinute, rfl⟩
          · exact ⟨limiter.maxPerMinute, rfl⟩
        obtain ⟨limit, heq⟩ := hsame
        rw [heq]
        exact { h with }
    | rateLimitError attempt => exact { h with }
    | reset => exact absurd rfl hx

/-! ## §3 The limits -/

/-- Events that are anything but a reset. -/
def NoReset {κ : Type} (events : List (Event κ Unit CoinGlassOperation)) : Prop :=
  ∀ e ∈ events, e.action.Of (fun _ => True) (· ≠ .reset)

/-- A limit that the deque is long enough for, or that the spacing keeps by itself. -/
def Enforceable (config : CoinGlassConfig) (limit : ℤ) : Prop :=
  limit ≤ 1000 ∨ 0 < config.minInterval ∧ ⌊60 / config.minInterval⌋ + 1 ≤ limit

/-- The step admits a request, at that time. -/
def AdmitsAt {κ σ : Type} (s s' : System κ σ Unit) (t : ℚ) : Prop :=
  s'.log = s.log ++ [.admitted t ()]

/-- The times up to an admission, seen from the step that makes it. -/
theorem AdmitsAt.times {κ σ : Type} {s s' : System κ σ Unit} {t : ℚ} (h : AdmitsAt s s' t) :
    admissionTimes s'.log = admissionTimes s.log ++ [t] := by
  rw [h, admissionTimes, admissions, List.filterMap_append, List.map_append]
  rfl

/-- **A step that admits** finds room below the limit in force. -/
theorem Logged.room {κ : Type} [DecidableEq κ] {s : System κ CoinGlassRateLimiter Unit}
    (h : Logged config s.state s.clock (admissions s.log)) {e : Event κ Unit CoinGlassOperation}
    {t : ℚ} (hadmits : AdmitsAt s (step (coinGlassGate reading config) s e) t) :
    t = s.reading e ∧ ∃ times : Deque ℚ, times.maxlen = 1000 ∧
      Remembers (admissionTimes s.log) times (t - 60) ∧
      (times.length : ℤ) < s.state.maxPerMinute := by
  have hlater := (logged_kept reading config).later h (le_reading s e)
  unfold AdmitsAt at hadmits
  rcases step_moved (coinGlassGate reading config) s e with ⟨-, hlog, -⟩ |
    ⟨c, r, -, hstate, hlog, -⟩ | ⟨x, -, -, hlog, -⟩
  · rw [hlog] at hadmits
    simp at hadmits
  · rw [hlog, List.append_right_inj] at hadmits
    split at hadmits
    · next hverdict =>
        obtain rfl : s.reading e = t := by simpa using hadmits
        refine ⟨rfl, (s.state.clearStale (s.reading e)).requestTimes, h.maxlen,
          hlater.clearStale.remembers, ?_⟩
        rcases coinGlassGate_attempt_cases reading config s.state r (s.reading e) with
          ⟨-, hnone⟩ | ⟨-, -, -, hroom⟩
        · rw [granted, if_pos hverdict] at hnone
          simp at hnone
        · exact hroom
    · simp at hadmits
  · rw [hlog, List.append_right_inj] at hadmits
    split at hadmits <;> simp at hadmits

theorem length_window_concat (start span : ℚ) (times : List ℚ) (t : ℚ) :
    (window start span (times ++ [t])).length ≤ (window start span times).length + 1 := by
  rw [window, List.filter_append, List.length_append]
  exact Nat.add_le_add_left (List.length_filter_le _ [t]) _

/-- **The limits of CoinGlass**, in every run without a reset, of any callers, header updates
and errors. The admissions are spaced. An admission and those of the minute before it are
no more than the limit in force when it is made, whatever the limits before it were, if the
limit is at most a thousand or slower than the spacing. And in an orderly run nothing is
admitted before a deadline announced earlier. -/
theorem coinGlass_limits (reading : HeaderReading) (config : CoinGlassConfig) {κ : Type}
    [DecidableEq κ] (clock : ℚ) {events : List (Event κ Unit CoinGlassOperation)}
    (hevents : NoReset events) :
    Spaced config.minInterval
      (admissionTimes (run (coinGlassGate reading config) (System.start (.init config) clock)
        events).log) ∧
    (∀ before e after, events = before ++ e :: after → ∀ t,
      AdmitsAt (run (coinGlassGate reading config) (System.start (.init config) clock) before)
        (run (coinGlassGate reading config) (System.start (.init config) clock) (before ++ [e]))
        t →
      Enforceable config (run (coinGlassGate reading config)
        (System.start (.init config) clock) before).state.maxPerMinute →
      ((window (t - 60) 60 (admissionTimes (run (coinGlassGate reading config)
          (System.start (.init config) clock) (before ++ [e])).log)).length : ℤ) ≤
        (run (coinGlassGate reading config)
          (System.start (.init config) clock) before).state.maxPerMinute) ∧
    (Steps.Along (step (coinGlassGate reading config)) (Orderly (coinGlassGate reading config))
        (System.start (.init config) clock) events →
      Respected (run (coinGlassGate reading config) (System.start (.init config) clock)
        events).log) := by
  have hstart : Logged config (.init config) clock [] :=
    { spaced := List.isChain_nil, last := nofun, past := nofun, maxlen := rfl
      remembers := .empty 1000 _ }
  have hlogged (part : List (Event κ Unit CoinGlassOperation)) (hpart : NoReset part) :=
    (logged_kept reading config).run hstart hpart
  refine ⟨(hlogged events hevents).spaced, ?_,
    respected_of_orderly _ coinGlassGate_deadline _ clock⟩
  rintro before e after rfl t hadmits hlimit
  have hbefore : NoReset before := fun e' he' => hevents e' (by simp [he'])
  have hboth : NoReset (before ++ [e]) := fun e' he' => hevents e' (by
    rcases List.mem_append.mp he' with he' | he'
    · simp [he']
    · simp [List.mem_singleton.mp he'])
  rcases hlimit with hshort | ⟨hpos, hslow⟩
  · -- the deque is not full, so that it holds the minute before
    have hstep := hadmits
    rw [run_append] at hstep
    obtain ⟨-, times, hmaxlen, hremembers, hroom⟩ := (hlogged before hbefore).room hstep
    have hcount := hremembers.length_window (by omega) 60
    have hconcat := length_window_concat (t - 60) 60
      (admissionTimes (run (coinGlassGate reading config) (System.start (.init config) clock)
        before).log) t
    rw [hadmits.times]
    omega
  · have hcount := (hlogged (before ++ [e]) hboth).spaced.window_length_le hpos (t - 60)
      (by norm_num : (0 : ℚ) ≤ 60)
    exact hcount.trans hslow

/-- A caller is admitted, a header lowers the limit to one, and the caller waits. -/
def loweredLimit : List (Event Unit Unit CoinGlassOperation) :=
  serve () () 53 ++ [⟨1, .control (.header "API-KEY-MAX-LIMIT" "1")⟩] ++ serve () () 1

/-- How the headers of these runs are read. -/
def sampleReading : HeaderReading where
  lower text := String.ofList (text.toList.map Char.toLower)
  int text := if text = "1" then some 1 else none

/-- The second request waits: the limit in force is the lowered one. -/
theorem coinGlass_limits_lowered :
    admissionTimes (run (coinGlassGate sampleReading {}) (System.start (.init {}) 0)
      loweredLimit).log = [53] ∧
    Spaced 1 (admissionTimes (run (coinGlassGate sampleReading {}) (System.start (.init {}) 0)
      loweredLimit).log) := by
  have hevents : NoReset loweredLimit := by
    intro e he
    simp only [loweredLimit, serve, List.cons_append, List.nil_append, List.mem_cons,
      List.not_mem_nil, or_false] at he
    rcases he with rfl | rfl | rfl | rfl | rfl | rfl | rfl
    all_goals simp [Action.Of]
  have hlimits := (coinGlass_limits sampleReading {} 0 hevents).1
  exact ⟨by decide +kernel, by simpa [CoinGlassConfig.minInterval] using hlimits⟩

end Finbar.RateLimit
