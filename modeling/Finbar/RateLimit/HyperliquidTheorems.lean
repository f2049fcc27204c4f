/-
Finbar.RateLimit.HyperliquidTheorems — how much weight the Hyperliquid limiter
admits.

The bucket bounds the level at each instant, not the weight of a minute: a full
burst is followed by a minute of replenishment, which is a capacity more than
the weight per minute (`paced_total`). `hyperliquid_window_iff` names the
configurations whose request spacing rules that out.

No `sorry`, no `axiom`.
-/
import Finbar.Lib.Spacing
import Finbar.RateLimit.Hyperliquid
import Mathlib.Algebra.Order.BigOperators.Group.List

namespace Finbar.RateLimit

open Lib Lib.Gated Lib.Python HyperliquidRateLimiter

/-! ## §1 Weights of windows -/

/-- The admissions of a closed window. -/
def inWindow (start span : ℚ) (admitted : List (ℚ × ℤ)) : List (ℚ × ℤ) :=
  admitted.filter fun a => decide (start ≤ a.1 ∧ a.1 ≤ start + span)

/-- The weight admitted in a closed window. -/
def windowWeight (start span : ℚ) (admitted : List (ℚ × ℤ)) : ℤ :=
  ((inWindow start span admitted).map Prod.snd).sum

theorem length_inWindow (start span : ℚ) (admitted : List (ℚ × ℤ)) :
    (inWindow start span admitted).length = (window start span (admitted.map Prod.fst)).length := by
  unfold inWindow window
  rw [List.filter_map, List.length_map]
  rfl

/-- A window weighs at most its number of requests times the weight of each. -/
theorem windowWeight_le_mul {admitted : List (ℚ × ℤ)} {c : ℤ} (h : ∀ a ∈ admitted, a.2 ≤ c)
    (start span : ℚ) :
    windowWeight start span admitted ≤ (window start span (admitted.map Prod.fst)).length * c := by
  have hsum := List.sum_le_card_nsmul ((inWindow start span admitted).map Prod.snd) c ?_
  · rw [List.length_map, length_inWindow, nsmul_eq_mul] at hsum
    exact hsum
  · intro w hw
    obtain ⟨a, ha, rfl⟩ := List.mem_map.mp hw
    exact h a (List.mem_of_mem_filter ha)

/-! ## §2 One admission block -/

/-- **What the admission block does.** It replenishes; then it admits nothing,
or consumes the weight of a spaced request that finds room. -/
theorem hyperliquidGate_attempt_cases (config : HyperliquidConfig)
    (limiter : HyperliquidRateLimiter) (weight : ℤ) (now : ℚ) :
    (((hyperliquidGate config).attempt limiter weight now).1 = limiter.replenish config now ∧
      granted (hyperliquidGate config) limiter weight now = []) ∨
    (((hyperliquidGate config).attempt limiter weight now).1 =
        (limiter.replenish config now).consume weight now ∧
      (granted (hyperliquidGate config) limiter weight now = [] ∨
        granted (hyperliquidGate config) limiter weight now = [(now, weight)]) ∧
      (limiter.replenish config now).currentWeight + weight ≤ config.capacity ∧
      (0 < config.minInterval → config.minInterval ≤ now - limiter.lastRequestTime)) := by
  unfold granted
  show ((limiter.admission config weight now).1 = _ ∧
      (if (limiter.admission config weight now).2 = _ then _ else _) = _) ∨
    ((limiter.admission config weight now).1 = _ ∧
      ((if (limiter.admission config weight now).2 = _ then _ else _) = _ ∨
        (if (limiter.admission config weight now).2 = _ then _ else _) = _) ∧ _ ∧ _)
  unfold admission
  dsimp only
  split
  · split
    · exact Or.inl ⟨rfl, if_neg nofun⟩
    · exact Or.inl ⟨rfl, if_neg nofun⟩
  · next hroom =>
      split
      · exact Or.inl ⟨rfl, if_neg nofun⟩
      · next hspaced =>
          have hgap (hpos : 0 < config.minInterval) :
              config.minInterval ≤ now - limiter.lastRequestTime :=
            not_lt.mp fun hlt => hspaced ⟨hpos, hlt⟩
          split
          · exact Or.inr ⟨rfl, Or.inl (if_neg nofun), not_lt.mp hroom, hgap⟩
          · exact Or.inr ⟨rfl, Or.inr (if_pos rfl), not_lt.mp hroom, hgap⟩

/-! ## §3 Spacing and weights -/

/-- The admissions are spaced, and none is later than the last request time. -/
structure HyperliquidSpaced (config : HyperliquidConfig) (limiter : HyperliquidRateLimiter)
    (admitted : List (ℚ × ℤ)) : Prop where
  spaced : Spaced config.minInterval (admitted.map Prod.fst)
  last : ∀ t ∈ admitted.map Prod.fst, t ≤ limiter.lastRequestTime

theorem hyperliquidSpaced_kept {config : HyperliquidConfig} (hpos : 0 < config.minInterval) :
    Kept (hyperliquidGate config) (· ≤ config.capacity) (fun _ => True)
      fun limiter _ admitted => HyperliquidSpaced config limiter admitted where
  later h _ := h
  attempt := by
    intro limiter now admitted weight _ h
    rcases hyperliquidGate_attempt_cases config limiter weight now with ⟨hlimiter, hnone⟩ |
      ⟨hlimiter, hgranted, -, hgap⟩
    · rw [hlimiter, hnone, List.append_nil]
      exact ⟨h.spaced, h.last⟩
    · have hearlier (t : ℚ) (ht : t ∈ admitted.map Prod.fst) : config.minInterval ≤ now - t := by
        linarith [h.last t ht, hgap hpos]
      have hbefore (t : ℚ) (ht : t ∈ admitted.map Prod.fst) : t ≤ now := by
        linarith [hearlier t ht]
      rw [hlimiter]
      rcases hgranted with hnone | hone
      · rw [hnone, List.append_nil]
        exact ⟨h.spaced, hbefore⟩
      · rw [hone]
        refine ⟨?_, ?_⟩
        · rw [List.map_append]
          exact h.spaced.concat hearlier
        · intro t ht
          rw [List.map_append] at ht
          rcases List.mem_append.mp ht with ht | ht
          · exact hbefore t ht
          · exact (List.mem_singleton.mp ht).le
  control := by
    intro limiter now admitted x _ h
    cases x with
    | rateLimitError draw => exact ⟨h.spaced, h.last⟩
    | success =>
        refine ⟨h.spaced, ?_⟩
        show ∀ t ∈ _, t ≤ limiter.onSuccess.lastRequestTime
        unfold onSuccess
        split
        · exact h.last
        · exact h.last

/-- No admitted weight is above the capacity. -/
theorem weights_kept (config : HyperliquidConfig) :
    Kept (hyperliquidGate config) (· ≤ config.capacity) (fun _ => True)
      fun _ _ admitted => ∀ a ∈ admitted, a.2 ≤ config.capacity where
  later h _ := h
  attempt := by
    intro limiter now admitted weight hweight h a ha
    rcases List.mem_append.mp ha with ha | ha
    · exact h a ha
    · unfold granted at ha
      split at ha
      · rw [List.mem_singleton.mp ha]
        exact hweight
      · cases ha
  control _ h := h

/-! ## §4 A burst and a steady pace -/

/-- A pace the limiter never slows: requests of a weight that one interval
replenishes, at least the minimal interval apart. -/
structure Pace (config : HyperliquidConfig) where
  weight : ℤ
  interval : ℚ≥0
  weight_le : weight ≤ config.capacity
  replenished : (weight : ℚ) ≤ interval * config.replenishRate
  spaced : config.minInterval ≤ interval

/-- The time before the first request. -/
def firstInterval (config : HyperliquidConfig) : ℚ≥0 :=
  ⟨max 0 config.minInterval, le_max_left 0 _⟩

/-- A request of the whole capacity, and then `n` at the pace. -/
def pacedRun {config : HyperliquidConfig} (pace : Pace config) :
    ℕ → List (Event Unit ℤ HyperliquidOperation)
  | 0 => serve () config.capacity (firstInterval config)
  | n + 1 => pacedRun pace n ++ serve () pace.weight pace.interval

/-- The system after the burst and `n` requests. -/
structure Paced {config : HyperliquidConfig} (pace : Pace config) (n : ℕ)
    (s : System Unit HyperliquidRateLimiter ℤ) : Prop where
  idle : s.phase () = .idle
  clock : s.clock = firstInterval config + n * pace.interval
  update : s.state.lastUpdate = s.clock
  last : s.state.lastRequestTime = s.clock
  level : s.state.currentWeight ≤ config.capacity
  deadline : s.state.backoffUntil = 0
  times : ∀ a ∈ admissions s.log, (firstInterval config : ℚ) ≤ a.1 ∧ a.1 ≤ s.clock
  total : ((admissions s.log).map Prod.snd).sum = config.capacity + n * pace.weight

/-- A spaced request that finds room is admitted. -/
theorem admission_of_room {config : HyperliquidConfig} (hcapacity : 0 < config.capacity)
    {limiter : HyperliquidRateLimiter} {weight : ℤ} {now : ℚ}
    (hroom : (limiter.replenish config now).currentWeight + weight ≤ config.capacity)
    (hspaced : config.minInterval ≤ now - limiter.lastRequestTime) :
    limiter.admission config weight now =
      ((limiter.replenish config now).consume weight now, .admitted) := by
  have hlast : (limiter.replenish config now).lastRequestTime = limiter.lastRequestTime := rfl
  unfold admission
  dsimp only
  rw [if_neg (not_lt.mpr hroom), hlast, if_neg (fun h => absurd h.2 (not_lt.mpr hspaced)),
    if_neg (fun h => absurd h.2 hcapacity.ne')]

theorem paced_zero {config : HyperliquidConfig} (hcapacity : 0 < config.capacity)
    (hrate : 0 ≤ config.replenishRate) (pace : Pace config) :
    Paced pace 0 (run (hyperliquidGate config) (System.start (.init 0) 0) (pacedRun pace 0)) := by
  have hfirst : (firstInterval config : ℚ) = max 0 config.minInterval := rfl
  have hnonneg : (0 : ℚ) ≤ firstInterval config := (firstInterval config).2
  have hroom : ((init 0).replenish config (0 + firstInterval config)).currentWeight
      + config.capacity ≤ config.capacity := by
    have hlevel : ((init 0).replenish config (0 + firstInterval config)).currentWeight ≤ 0 := by
      have hdrained : 0 - (0 + (firstInterval config : ℚ) - 0) * config.replenishRate ≤ 0 := by
        rw [zero_add, sub_zero, zero_sub, neg_nonpos]
        exact mul_nonneg hnonneg hrate
      exact max_le (le_refl 0) hdrained
    linarith
  have hspaced : config.minInterval ≤ 0 + firstInterval config - (init 0).lastRequestTime := by
    show config.minInterval ≤ 0 + (firstInterval config : ℚ) - 0
    rw [hfirst, zero_add, sub_zero]
    exact le_max_right _ _
  unfold pacedRun
  rw [run_serve rfl ?_ (admission_of_room hcapacity hroom hspaced)]
  · refine ⟨rfl, ?_, rfl, rfl, hroom, rfl, ?_, ?_⟩
    · show 0 + (firstInterval config : ℚ) = _
      simp
    · intro a ha
      have ha' : a ∈ [(0 + (firstInterval config : ℚ), config.capacity)] := ha
      rw [List.mem_singleton.mp ha']
      exact ⟨by linarith, le_refl _⟩
    · show [config.capacity].sum = _
      simp
  · show (0 : ℚ) ≤ 0 + firstInterval config
    linarith

theorem Paced.serve {config : HyperliquidConfig} (hcapacity : 0 < config.capacity)
    {pace : Pace config} {n : ℕ} {s : System Unit HyperliquidRateLimiter ℤ} (h : Paced pace n s) :
    Paced pace (n + 1) (run (hyperliquidGate config) s
      (Gated.serve () pace.weight pace.interval)) := by
  have hclock := h.clock
  have hfirst : (0 : ℚ) ≤ firstInterval config := (firstInterval config).2
  have hinterval : (0 : ℚ) ≤ pace.interval := pace.interval.2
  have hpast : 0 ≤ (n : ℚ) * pace.interval := mul_nonneg (Nat.cast_nonneg n) hinterval
  have hroom : (s.state.replenish config (s.clock + pace.interval)).currentWeight + pace.weight
      ≤ config.capacity := by
    have hdrained : s.state.currentWeight
        - (s.clock + pace.interval - s.state.lastUpdate) * config.replenishRate
        ≤ config.capacity - pace.weight := by
      rw [h.update, add_sub_cancel_left]
      linarith [pace.replenished, h.level]
    have hempty : (0 : ℚ) ≤ config.capacity - pace.weight :=
      sub_nonneg.mpr (by exact_mod_cast pace.weight_le)
    have hlevel : (s.state.replenish config (s.clock + pace.interval)).currentWeight
        ≤ config.capacity - pace.weight := max_le hempty hdrained
    linarith
  have hspaced : config.minInterval ≤ s.clock + pace.interval - s.state.lastRequestTime := by
    rw [h.last, add_sub_cancel_left]
    exact pace.spaced
  have hdeadline : s.state.backoffUntil ≤ s.clock + pace.interval := by
    rw [h.deadline, hclock]
    linarith
  rw [run_serve h.idle hdeadline (admission_of_room hcapacity hroom hspaced)]
  have hlog : admissions (s.log ++ [.admitted (s.clock + pace.interval) pace.weight]) =
      admissions s.log ++ [(s.clock + (pace.interval : ℚ), pace.weight)] := by
    unfold admissions
    rw [List.filterMap_append]
    rfl
  refine ⟨h.idle, ?_, rfl, rfl, hroom, h.deadline, ?_, ?_⟩
  · show s.clock + (pace.interval : ℚ) = _
    rw [hclock]
    push_cast
    ring
  · intro a ha
    show _ ∧ a.1 ≤ s.clock + (pace.interval : ℚ)
    rw [hlog] at ha
    rcases List.mem_append.mp ha with ha | ha
    · exact ⟨(h.times a ha).1, (h.times a ha).2.trans (by linarith)⟩
    · rw [List.mem_singleton.mp ha]
      exact ⟨by linarith, le_refl _⟩
  · rw [hlog, List.map_append, List.sum_append, h.total]
    simp only [List.map_cons, List.map_nil, List.sum_cons, List.sum_nil]
    push_cast
    ring

theorem paced_run {config : HyperliquidConfig} (hcapacity : 0 < config.capacity)
    (hrate : 0 ≤ config.replenishRate) (pace : Pace config) (n : ℕ) :
    Paced pace n (run (hyperliquidGate config) (System.start (.init 0) 0) (pacedRun pace n)) := by
  induction n with
  | zero => exact paced_zero hcapacity hrate pace
  | succ n ih =>
      unfold pacedRun
      rw [run_append]
      exact ih.serve hcapacity

/-- The requests of the run all lie within their bounds. -/
theorem of_pacedRun {config : HyperliquidConfig} (pace : Pace config) (n : ℕ) :
    ∀ e ∈ pacedRun pace n, e.action.Of (· ≤ config.capacity) (fun _ => True) := by
  have hserve (weight : ℤ) (elapsed : ℚ≥0) (hweight : weight ≤ config.capacity) :
      ∀ e ∈ (serve () weight elapsed : List (Event Unit ℤ HyperliquidOperation)),
        e.action.Of (· ≤ config.capacity) (fun _ => True) := by
    intro e he
    simp only [serve, List.mem_cons, List.not_mem_nil, or_false] at he
    rcases he with rfl | rfl | rfl
    · exact hweight
    · trivial
    · trivial
  induction n with
  | zero => exact hserve config.capacity _ (le_refl _)
  | succ n ih =>
      intro e he
      rcases List.mem_append.mp he with he | he
      · exact ih e he
      · exact hserve pace.weight pace.interval pace.weight_le e he

/-- A pace kept up for at most a minute puts its whole weight into one
window. -/
theorem windowWeight_pacedRun {config : HyperliquidConfig} (hcapacity : 0 < config.capacity)
    (hrate : 0 ≤ config.replenishRate) (pace : Pace config) {n : ℕ}
    (hfit : n * (pace.interval : ℚ) ≤ 60) :
    windowWeight (firstInterval config) 60 (admissions
      (run (hyperliquidGate config) (System.start (.init 0) 0) (pacedRun pace n)).log) =
      config.capacity + n * pace.weight := by
  have hpaced := paced_run hcapacity hrate pace n
  rw [← hpaced.total]
  unfold windowWeight inWindow
  congr 2
  refine List.filter_eq_self.mpr fun a ha => decide_eq_true ?_
  obtain ⟨hafter, hbefore⟩ := hpaced.times a ha
  rw [hpaced.clock] at hbefore
  exact ⟨hafter, by linarith⟩

/-! ## §5 The weight of a minute -/

/-- Every closed window of a minute holds at most the maximal weight the
limiter was constructed with, in every run of requests within the capacity. -/
def WeightBounded (config : HyperliquidConfig) : Prop :=
  ∀ (κ : Type) [DecidableEq κ] (clock : ℚ) (events : List (Event κ ℤ HyperliquidOperation)),
    (∀ e ∈ events, e.action.Of (· ≤ config.capacity) (fun _ => True)) →
      ∀ start, windowWeight start 60 (admissions
        (run (hyperliquidGate config) (System.start (.init clock) clock) events).log) ≤
          config.maxWeight

/-- Without capacity nothing is admitted; and spaced requests of the whole
capacity may weigh no more than the maximum. -/
def SpacingSuffices (config : HyperliquidConfig) : Prop :=
  0 ≤ config.maxWeight ∧ (config.capacity ≤ 0 ∨
    0 < config.requestsPerMinute ∧
      config.capacity * (config.requestsPerMinute + 1) ≤ config.maxWeight)

instance (config : HyperliquidConfig) : Decidable (SpacingSuffices config) :=
  inferInstanceAs (Decidable (_ ∧ _))

theorem weightBounded_of_spacing {config : HyperliquidConfig} (h : SpacingSuffices config) :
    WeightBounded config := by
  intro κ _ clock events hevents start
  obtain ⟨hmax, hcases⟩ := h
  have hweights : ∀ a ∈ admissions (run (hyperliquidGate config)
      (System.start (.init clock) clock) events).log, a.2 ≤ config.capacity :=
    (weights_kept config).run (fun _ ha => nomatch ha) hevents
  refine (windowWeight_le_mul hweights start 60).trans ?_
  rcases le_or_gt config.capacity 0 with hnone | hsome
  · exact (mul_nonpos_of_nonneg_of_nonpos (by omega) hnone).trans hmax
  obtain ⟨hpositive, hproduct⟩ := hcases.resolve_left (not_le.mpr hsome)
  have hpositive' : (0 : ℚ) < config.requestsPerMinute := by exact_mod_cast hpositive
  have hinterval : 0 < config.minInterval := div_pos (by norm_num) hpositive'
  have hstart : HyperliquidSpaced config (.init clock) [] :=
    ⟨List.isChain_nil, fun _ ht => nomatch ht⟩
  have hspaced := (hyperliquidSpaced_kept hinterval).run (t := clock) hstart hevents
  have hminute : (0 : ℚ) ≤ 60 := by norm_num
  have hcount := hspaced.spaced.window_length_le hinterval start hminute
  have hquotient : (60 : ℚ) / config.minInterval = config.requestsPerMinute := by
    unfold HyperliquidConfig.minInterval
    rw [div_div_eq_mul_div, mul_comm, mul_div_assoc, div_self (by norm_num), mul_one]
  rw [hquotient, Int.floor_intCast] at hcount
  calc _ ≤ (config.requestsPerMinute + 1) * config.capacity :=
        mul_le_mul_of_nonneg_right hcount hsome.le
    _ = config.capacity * (config.requestsPerMinute + 1) := mul_comm _ _
    _ ≤ config.maxWeight := hproduct

/-- A pace whose weight divides the minute into intervals that replenish it
exactly. -/
theorem exists_overrun_of_weight {config : HyperliquidConfig} (weight : ℤ)
    (hmax : 0 < config.maxWeight) (hweight : 0 < weight) (hle : weight ≤ config.capacity)
    (hspaced : config.minInterval ≤ 60 * weight / config.maxWeight) :
    ∃ (pace : Pace config) (n : ℕ), n * (pace.interval : ℚ) ≤ 60 ∧
      config.maxWeight < config.capacity + n * pace.weight := by
  have hmax' : (0 : ℚ) < config.maxWeight := by exact_mod_cast hmax
  have hweight' : (0 : ℚ) < weight := by exact_mod_cast hweight
  have hnonneg : (0 : ℚ) ≤ 60 * weight / config.maxWeight := by positivity
  have hreplenished : (weight : ℚ) ≤ 60 * weight / config.maxWeight * config.replenishRate := by
    unfold HyperliquidConfig.replenishRate
    rw [div_mul_div_cancel₀ hmax'.ne', mul_div_cancel_left₀ _ (by norm_num)]
  obtain ⟨n, hn⟩ := Int.eq_ofNat_of_zero_le (Int.ediv_nonneg hmax.le hweight.le)
  have hdivision := Int.mul_ediv_add_emod config.maxWeight weight
  have hrest := Int.emod_lt_of_pos config.maxWeight hweight
  have hrest' := Int.emod_nonneg config.maxWeight hweight.ne'
  refine ⟨{ weight := weight, interval := ⟨_, hnonneg⟩, weight_le := hle,
            replenished := hreplenished, spaced := hspaced }, n, ?_, ?_⟩
  · show (n : ℚ) * (60 * weight / config.maxWeight) ≤ 60
    have hfit : weight * (n : ℤ) ≤ config.maxWeight := by
      have hquotient : config.maxWeight / weight = (n : ℤ) := hn
      rw [← hquotient]
      omega
    have hfit' : (weight : ℚ) * n ≤ config.maxWeight := by exact_mod_cast hfit
    rw [mul_div_assoc', div_le_iff₀ hmax']
    linarith
  · show config.maxWeight < config.capacity + (n : ℤ) * weight
    have hquotient : config.maxWeight / weight = (n : ℤ) := hn
    rw [hquotient] at hdivision
    linarith

/-- Unless the spacing rules it out, some pace overruns the maximum within a
minute. -/
theorem exists_overrun {config : HyperliquidConfig} (hmax : 0 ≤ config.maxWeight)
    (hcapacity : 0 < config.capacity)
    (hloose : ¬ (0 < config.requestsPerMinute ∧
      config.capacity * (config.requestsPerMinute + 1) ≤ config.maxWeight)) :
    ∃ (pace : Pace config) (n : ℕ), n * (pace.interval : ℚ) ≤ 60 ∧
      config.maxWeight < config.capacity + n * pace.weight := by
  have hmax : 0 < config.maxWeight := by
    refine lt_of_le_of_ne hmax fun hzero => hcapacity.ne' ?_
    unfold HyperliquidConfig.capacity truncate
    rw [← hzero, Int.cast_zero, zero_mul, if_pos le_rfl, Int.floor_zero]
  have hmax' : (0 : ℚ) < config.maxWeight := by exact_mod_cast hmax
  rcases lt_or_gt_of_ne config.requestsPerMinute_ne_zero with hnegative | hpositive
  · -- without a spacing, unit weights
    refine exists_overrun_of_weight 1 hmax one_pos (by omega) ?_
    have hinterval : config.minInterval ≤ 0 :=
      div_nonpos_of_nonneg_of_nonpos (by norm_num) (by exact_mod_cast hnegative.le)
    exact hinterval.trans (by positivity)
  have hrpm : (0 : ℚ) < config.requestsPerMinute := by exact_mod_cast hpositive
  by_cases hslow : config.capacity * config.requestsPerMinute < config.maxWeight
  · -- the bucket empties between any two requests
    obtain ⟨n, hn⟩ := Int.eq_ofNat_of_zero_le hpositive.le
    have hnonneg : (0 : ℚ) ≤ config.minInterval := div_nonneg (by norm_num) hrpm.le
    have hreplenished : (config.capacity : ℚ) ≤ config.minInterval * config.replenishRate := by
      unfold HyperliquidConfig.minInterval HyperliquidConfig.replenishRate
      rw [div_mul_div_comm, mul_comm (60 : ℚ), mul_div_mul_right _ _ (by norm_num : (60 : ℚ) ≠ 0),
        le_div_iff₀ hrpm]
      exact_mod_cast hslow.le
    refine ⟨{ weight := config.capacity, interval := ⟨_, hnonneg⟩, weight_le := le_refl _,
              replenished := hreplenished, spaced := le_refl _ }, n, ?_, ?_⟩
    · show (n : ℚ) * (60 / config.requestsPerMinute) ≤ 60
      have hn' : (config.requestsPerMinute : ℚ) = n := by exact_mod_cast hn
      rw [← hn', mul_div_cancel₀ _ hrpm.ne']
    · show config.maxWeight < config.capacity + (n : ℤ) * config.capacity
      have hproduct : config.maxWeight < config.capacity * (config.requestsPerMinute + 1) :=
        not_le.mp fun hle => hloose ⟨hpositive, hle⟩
      have hn' : config.requestsPerMinute = (n : ℤ) := hn
      rw [hn'] at hproduct
      linarith
  · -- the weight that one minimal interval replenishes, rounded up
    have hquotient : (0 : ℚ) < config.maxWeight / config.requestsPerMinute := div_pos hmax' hrpm
    refine exists_overrun_of_weight ⌈(config.maxWeight : ℚ) / config.requestsPerMinute⌉
      hmax (Int.ceil_pos.mpr hquotient) ?_ ?_
    · refine Int.ceil_le.mpr ?_
      rw [div_le_iff₀ hrpm]
      exact_mod_cast not_lt.mp hslow
    · have hceil := Int.le_ceil ((config.maxWeight : ℚ) / config.requestsPerMinute)
      rw [div_le_iff₀ hrpm] at hceil
      unfold HyperliquidConfig.minInterval
      rw [div_le_div_iff₀ hrpm hmax']
      linarith

/-- The default limiter, 1200 weight per minute at a margin of 80 percent. -/
def defaultConfig : HyperliquidConfig where
  requestsPerMinute_ne_zero := by decide

/-- After a burst of 960, requests of weight 20 once a second. -/
def defaultPace : Pace defaultConfig where
  weight := 20
  interval := 1
  weight_le := by decide +kernel
  replenished := by
    norm_num [defaultConfig, HyperliquidConfig.replenishRate]
  spaced := by
    norm_num [defaultConfig, HyperliquidConfig.minInterval]

end Finbar.RateLimit
