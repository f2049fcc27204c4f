/-
Finbar.RateLimit.Hyperliquid — `hyperliquid_rate_limiter.py`: the token bucket
of Hyperliquid requests, as a two-phase gate.

The clock readings are `time.monotonic()`, in exact arithmetic. The
lock-protected blocks of `wait`, `on_rate_limit_error` and `on_success` are one
step each; the sleeps between them are whatever time passes.

No `sorry`, no `axiom`.
-/
import Finbar.Lib.Gate
import Finbar.Lib.Python
import Mathlib.Order.Interval.Set.Defs

namespace Finbar.RateLimit

open Lib Lib.Gated Lib.Python

/-- The arguments of the constructor, which divides by the requests per
minute. -/
structure HyperliquidConfig where
  requestsPerMinute : ℤ := 1000
  maxWeight : ℤ := 1200
  safetyMargin : ℚ := 8 / 10
  requestsPerMinute_ne_zero : requestsPerMinute ≠ 0

namespace HyperliquidConfig

/-- `self.max_weight`: the weight per minute, less the safety margin. -/
def capacity (config : HyperliquidConfig) : ℤ :=
  truncate (config.maxWeight * config.safetyMargin)

/-- `self.replenish_rate`. -/
def replenishRate (config : HyperliquidConfig) : ℚ :=
  config.maxWeight / 60

/-- `self.min_interval`. -/
def minInterval (config : HyperliquidConfig) : ℚ :=
  60 / config.requestsPerMinute

end HyperliquidConfig

/-- The mutable attributes of `HyperliquidRateLimiter`. -/
structure HyperliquidRateLimiter where
  currentWeight : ℚ
  lastUpdate : ℚ
  lastRequestTime : ℚ
  consecutive429Errors : ℕ
  backoffUntil : ℚ
  totalRequests : ℕ
  totalWeightUsed : ℤ

namespace HyperliquidRateLimiter

/-- The limiter after `__init__` at a clock reading. -/
def init (now : ℚ) : HyperliquidRateLimiter where
  currentWeight := 0
  lastUpdate := now
  lastRequestTime := 0
  consecutive429Errors := 0
  backoffUntil := 0
  totalRequests := 0
  totalWeightUsed := 0

/-- The weight that time has replenished. -/
def replenish (config : HyperliquidConfig) (limiter : HyperliquidRateLimiter) (now : ℚ) :
    HyperliquidRateLimiter :=
  { limiter with
    currentWeight :=
      max 0 (limiter.currentWeight - (now - limiter.lastUpdate) * config.replenishRate)
    lastUpdate := now }

/-- An admitted request is consumed and recorded. -/
def consume (limiter : HyperliquidRateLimiter) (weight : ℤ) (now : ℚ) : HyperliquidRateLimiter :=
  { limiter with
    currentWeight := limiter.currentWeight + weight
    lastRequestTime := now
    totalRequests := limiter.totalRequests + 1
    totalWeightUsed := limiter.totalWeightUsed + weight }

/-- The block of the admission phase of `wait`. -/
def admission (config : HyperliquidConfig) (limiter : HyperliquidRateLimiter) (weight : ℤ)
    (now : ℚ) : HyperliquidRateLimiter × Verdict :=
  let limiter := limiter.replenish config now
  if config.capacity < limiter.currentWeight + weight then
    -- without replenishment the wait cannot be computed
    if config.replenishRate = 0 then (limiter, .raised)
    else
      let needed := limiter.currentWeight + weight - config.capacity
      (limiter, .waits (needed / config.replenishRate))
  else
    let timeSinceLast := now - limiter.lastRequestTime
    if 0 < config.minInterval ∧ timeSinceLast < config.minInterval then
      (limiter, .waits (config.minInterval - timeSinceLast))
    else
      let limiter := limiter.consume weight now
      -- every hundredth request logs the utilization, a quotient by the capacity
      if limiter.totalRequests % 100 = 0 ∧ config.capacity = 0 then (limiter, .raised)
      else (limiter, .admitted)

/-- `on_rate_limit_error`; `draw` is the place of the jitter between its
bounds. -/
def onRateLimitError (limiter : HyperliquidRateLimiter) (draw : Set.Icc (0 : ℚ) 1) (now : ℚ) :
    HyperliquidRateLimiter :=
  let count := limiter.consecutive429Errors + 1
  let baseBackoff := min ((2 : ℚ) ^ count) 60
  let jitter := baseBackoff * (1 / 4) * draw
  let backoff := baseBackoff + jitter
  { limiter with
    consecutive429Errors := count
    backoffUntil := now + backoff }

/-- `on_success`. -/
def onSuccess (limiter : HyperliquidRateLimiter) : HyperliquidRateLimiter :=
  if 0 < limiter.consecutive429Errors then
    { limiter with
      consecutive429Errors := 0
      backoffUntil := 0 }
  else limiter

end HyperliquidRateLimiter

/-- The operations beside `wait`. -/
inductive HyperliquidOperation where
  | rateLimitError (draw : Set.Icc (0 : ℚ) 1)
  | success

/-- The limiter as a gate for request weights. -/
def hyperliquidGate (config : HyperliquidConfig) :
    Gate HyperliquidRateLimiter ℤ HyperliquidOperation where
  deadline limiter := limiter.backoffUntil
  attempt limiter weight now := limiter.admission config weight now
  control limiter operation now :=
    match operation with
    | .rateLimitError draw => limiter.onRateLimitError draw now
    | .success => limiter.onSuccess
  announces
    | .rateLimitError _ => true
    | .success => false

end Finbar.RateLimit
