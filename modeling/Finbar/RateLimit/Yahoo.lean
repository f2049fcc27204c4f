/-
Finbar.RateLimit.Yahoo — `rate_limiter.py`: the sliding-window limiter of Yahoo
Finance requests, as a two-phase gate.

The clock readings are `time.time()`, in exact arithmetic. The lock-protected
blocks of `wait`, `on_rate_limit_error` and `reset` are one step each; the
sleeps between them are whatever time passes.

No `sorry`, no `axiom`.
-/
import Finbar.Lib.Deque
import Finbar.Lib.Gate

namespace Finbar.RateLimit

open Lib Lib.Gated

/-- The arguments of the constructor. -/
structure YahooConfig where
  requestsPerSecond : ℚ := 2
  requestsPerMinute : ℕ := 60
  baseBackoff : ℚ := 2
  requestsPerSecond_pos : 0 < requestsPerSecond
  requestsPerMinute_pos : 1 ≤ requestsPerMinute

/-- `self.min_interval`. -/
def YahooConfig.minInterval (config : YahooConfig) : ℚ :=
  1 / config.requestsPerSecond

/-- The mutable attributes of `YahooFinanceRateLimiter`. -/
structure YahooFinanceRateLimiter where
  lastRequestTime : ℚ
  requestTimes : Deque ℚ
  backoffUntil : ℚ

namespace YahooFinanceRateLimiter

/-- The limiter after `__init__`. -/
def init : YahooFinanceRateLimiter where
  lastRequestTime := 0
  requestTimes := .empty 1000
  backoffUntil := 0

/-- The stale entries are cleared from the sliding window. -/
def clearStale (limiter : YahooFinanceRateLimiter) (now : ℚ) : YahooFinanceRateLimiter :=
  { limiter with requestTimes := limiter.requestTimes.popWhile fun t => decide (t < now - 60) }

/-- An admitted request is recorded. -/
def record (limiter : YahooFinanceRateLimiter) (now : ℚ) : YahooFinanceRateLimiter :=
  { limiter with
    lastRequestTime := now
    requestTimes := limiter.requestTimes.push now }

/-- The block of the admission phase of `wait`. -/
def admission (config : YahooConfig) (limiter : YahooFinanceRateLimiter) (now : ℚ) :
    YahooFinanceRateLimiter × Verdict :=
  let limiter := limiter.clearStale now
  let elapsedSinceLast := now - limiter.lastRequestTime
  if elapsedSinceLast < config.minInterval then
    (limiter, .waits (config.minInterval - elapsedSinceLast))
  else if config.requestsPerMinute ≤ limiter.requestTimes.length then
    match limiter.requestTimes.items.head? with
    | some oldest => (limiter, .waits (max 0 (60 - (now - oldest))))
    | none => (limiter, .raised)
  else
    (limiter.record now, .admitted)

/-- `on_rate_limit_error`. -/
def onRateLimitError (config : YahooConfig) (limiter : YahooFinanceRateLimiter) (attempt : ℤ)
    (now : ℚ) : YahooFinanceRateLimiter :=
  let backoff := config.baseBackoff * (2 : ℚ) ^ min attempt 10
  { limiter with backoffUntil := now + backoff }

/-- `reset`. -/
def reset (limiter : YahooFinanceRateLimiter) : YahooFinanceRateLimiter where
  lastRequestTime := 0
  requestTimes := limiter.requestTimes.clear
  backoffUntil := 0

end YahooFinanceRateLimiter

/-- The operations beside `wait`. -/
inductive YahooOperation where
  | rateLimitError (attempt : ℤ)
  | reset
  deriving DecidableEq

/-- The limiter as a gate. -/
def yahooGate (config : YahooConfig) : Gate YahooFinanceRateLimiter Unit YahooOperation where
  deadline limiter := limiter.backoffUntil
  attempt limiter _ now := limiter.admission config now
  control limiter operation now :=
    match operation with
    | .rateLimitError attempt => limiter.onRateLimitError config attempt now
    | .reset => limiter.reset
  announces
    | .rateLimitError _ => true
    | .reset => false

end Finbar.RateLimit
