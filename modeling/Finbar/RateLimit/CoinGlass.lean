/-
Finbar.RateLimit.CoinGlass — `coinglass_rate_limiter.py`: the sliding-window limiter of
CoinGlass requests, whose limit follows the headers of the responses, as a two-phase gate.

The clock readings are `time.time()`, in exact arithmetic. The lock-protected blocks of
`wait`, `on_rate_limit_error` and `reset` are one step each, and so is every header that
`update_from_headers` reads, which takes no lock.

No `sorry`, no `axiom`.
-/
import Finbar.Lib.Deque
import Finbar.Lib.Gate

namespace Finbar.RateLimit

open Lib Lib.Gated

/-- The arguments of the constructor. -/
structure CoinGlassConfig where
  requestsPerSecond : ℚ := 1
  requestsPerMinute : ℤ := 30
  baseBackoff : ℚ := 2

/-- `self.min_interval`. -/
def CoinGlassConfig.minInterval (config : CoinGlassConfig) : ℚ :=
  if 0 < config.requestsPerSecond then 1 / config.requestsPerSecond else 0

/-- How headers are read: `str.lower`, and `int`, if it does not raise. -/
structure HeaderReading where
  lower : String → String
  int : String → Option ℤ

/-- The mutable attributes of `CoinGlassRateLimiter`. -/
structure CoinGlassRateLimiter where
  maxPerMinute : ℤ
  lastRequestTime : ℚ
  requestTimes : Deque ℚ
  backoffUntil : ℚ

namespace CoinGlassRateLimiter

/-- The limiter after `__init__`. -/
def init (config : CoinGlassConfig) : CoinGlassRateLimiter where
  maxPerMinute := config.requestsPerMinute
  lastRequestTime := 0
  requestTimes := .empty 1000
  backoffUntil := 0

/-- One pass of the loop of `update_from_headers`. -/
def readHeader (reading : HeaderReading) (limiter : CoinGlassRateLimiter) (key value : String) :
    CoinGlassRateLimiter :=
  if reading.lower key = "api-key-max-limit" then
    match reading.int value with
    | some limit => { limiter with maxPerMinute := max 1 limit }
    | none => limiter
  else limiter

/-- The stale entries are cleared from the sliding window. -/
def clearStale (limiter : CoinGlassRateLimiter) (now : ℚ) : CoinGlassRateLimiter :=
  { limiter with requestTimes := limiter.requestTimes.popWhile fun t => decide (t < now - 60) }

/-- An admitted request is recorded. -/
def record (limiter : CoinGlassRateLimiter) (now : ℚ) : CoinGlassRateLimiter :=
  { limiter with
    lastRequestTime := now
    requestTimes := limiter.requestTimes.push now }

/-- The block of the admission phase of `wait`. -/
def admission (config : CoinGlassConfig) (limiter : CoinGlassRateLimiter) (now : ℚ) :
    CoinGlassRateLimiter × Verdict :=
  let limiter := limiter.clearStale now
  let elapsed := now - limiter.lastRequestTime
  if 0 < config.minInterval ∧ elapsed < config.minInterval then
    (limiter, .waits (config.minInterval - elapsed))
  else if limiter.maxPerMinute ≤ limiter.requestTimes.length then
    match limiter.requestTimes.items.head? with
    | some oldest => (limiter, .waits (max 0 (60 - (now - oldest))))
    | none => (limiter, .raised)
  else
    (limiter.record now, .admitted)

/-- `on_rate_limit_error`. -/
def onRateLimitError (config : CoinGlassConfig) (limiter : CoinGlassRateLimiter) (attempt : ℤ)
    (now : ℚ) : CoinGlassRateLimiter :=
  let backoff := config.baseBackoff * (2 : ℚ) ^ min attempt 10
  { limiter with backoffUntil := now + backoff }

/-- `reset`. -/
def reset (limiter : CoinGlassRateLimiter) : CoinGlassRateLimiter :=
  { limiter with
    lastRequestTime := 0
    requestTimes := limiter.requestTimes.clear
    backoffUntil := 0 }

end CoinGlassRateLimiter

/-- The operations beside `wait`. -/
inductive CoinGlassOperation where
  | header (key value : String)
  | rateLimitError (attempt : ℤ)
  | reset
  deriving DecidableEq

/-- The limiter as a gate. -/
def coinGlassGate (reading : HeaderReading) (config : CoinGlassConfig) :
    Gate CoinGlassRateLimiter Unit CoinGlassOperation where
  deadline limiter := limiter.backoffUntil
  attempt limiter _ now := limiter.admission config now
  control limiter operation now :=
    match operation with
    | .header key value => limiter.readHeader reading key value
    | .rateLimitError attempt => limiter.onRateLimitError config attempt now
    | .reset => limiter.reset
  announces
    | .rateLimitError _ => true
    | _ => false

end Finbar.RateLimit
