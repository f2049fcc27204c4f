/-
Finbar.RateLimit.BackoffTheorems — when the limiters hold every request back
until the latest announced deadline.

The look at the deadline and the admission are two steps, and the deadline is
one variable that every error overwrites, so an error that comes between the
two steps of a caller, or that announces less than is in force, opens the gate
(`late_announcement_ignored`). `backoff_respected` says that nothing else does.

No `sorry`, no `axiom`.
-/
import Finbar.RateLimit.Hyperliquid
import Finbar.RateLimit.Yahoo

namespace Finbar.RateLimit

open Lib Lib.Gated

/-- No admission moves the deadline of the Hyperliquid limiter. -/
theorem hyperliquidGate_deadline (config : HyperliquidConfig) (limiter : HyperliquidRateLimiter)
    (weight : ℤ) (now : ℚ) :
    (hyperliquidGate config).deadline ((hyperliquidGate config).attempt limiter weight now).1 =
      (hyperliquidGate config).deadline limiter := by
  show (limiter.admission config weight now).1.backoffUntil = limiter.backoffUntil
  unfold HyperliquidRateLimiter.admission
  dsimp only
  split
  · split <;> rfl
  · split
    · rfl
    · split <;> rfl

/-- No admission moves the deadline of the Yahoo limiter. -/
theorem yahooGate_deadline (config : YahooConfig) (limiter : YahooFinanceRateLimiter) (r : Unit)
    (now : ℚ) :
    (yahooGate config).deadline ((yahooGate config).attempt limiter r now).1 =
      (yahooGate config).deadline limiter := by
  show (limiter.admission config now).1.backoffUntil = limiter.backoffUntil
  unfold YahooFinanceRateLimiter.admission
  dsimp only
  split
  · rfl
  · split
    · split <;> rfl
    · rfl

/-- **Both limiters admit nothing before a deadline announced earlier**, in
every run in which an error announces its deadline while no caller stands
between its look at the deadline and its admission, and announces no less than
is in force. -/
theorem backoff_respected (κ : Type) [DecidableEq κ] :
    (∀ (config : HyperliquidConfig) (clock : ℚ) (events : List (Event κ ℤ HyperliquidOperation)),
      Steps.Along (step (hyperliquidGate config)) (Orderly (hyperliquidGate config))
        (System.start (.init clock) clock) events →
      Respected (run (hyperliquidGate config) (System.start (.init clock) clock) events).log) ∧
    (∀ (config : YahooConfig) (clock : ℚ) (events : List (Event κ Unit YahooOperation)),
      Steps.Along (step (yahooGate config)) (Orderly (yahooGate config))
        (System.start .init clock) events →
      Respected (run (yahooGate config) (System.start .init clock) events).log) := by
  constructor
  · intro config clock events h
    exact respected_of_orderly _ (hyperliquidGate_deadline config) _ clock h
  · intro config clock events h
    exact respected_of_orderly _ (yahooGate_deadline config) _ clock h

/-- The default Yahoo limiter. -/
def defaultYahooConfig : YahooConfig where
  requestsPerSecond_pos := by norm_num
  requestsPerMinute_pos := by norm_num

/-- A caller is admitted, and then an error is announced. -/
def announcedAfter : List (Event Unit Unit YahooOperation) :=
  serve () () 1 ++ [⟨1, .control (.rateLimitError 0)⟩]

theorem backoff_respected_after :
    Respected (run (yahooGate defaultYahooConfig) (System.start .init 100) announcedAfter).log := by
  refine (backoff_respected Unit).2 defaultYahooConfig 100 announcedAfter ?_
  refine ⟨nofun, nofun, nofun, ?_, trivial⟩
  intro x hx
  cases hx
  refine ⟨fun c r hphase => ?_, by decide +kernel⟩
  have hidle : (run (yahooGate defaultYahooConfig) (System.start .init 100)
      (serve () () 1)).phase () = .idle := by
    decide +kernel
  exact nomatch hidle.symm.trans hphase

/-- A caller looks at the deadline, an error announces one two seconds away, and
the caller is admitted at once. -/
def overtaken : List (Event Unit Unit YahooOperation) :=
  [⟨100, .call () ()⟩, ⟨0, .check ()⟩, ⟨0, .control (.rateLimitError 0)⟩, ⟨0, .attempt ()⟩]

theorem late_announcement_ignored :
    ¬ Respected (run (yahooGate defaultYahooConfig) (System.start .init 0) overtaken).log := by
  have hlog : (run (yahooGate defaultYahooConfig) (System.start .init 0) overtaken).log =
      [.announced 102, .admitted 100 ()] := by
    decide +kernel
  rw [hlog]
  intro h
  have hle := (List.pairwise_cons.mp h).1 _ List.mem_cons_self
  exact absurd hle (by show ¬ (102 : ℚ) ≤ 100; norm_num)

end Finbar.RateLimit
