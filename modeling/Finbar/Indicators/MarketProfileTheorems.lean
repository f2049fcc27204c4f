/-
Finbar.Indicators.MarketProfileTheorems — when the value area of a market profile holds
its 68%.

`compute_session_market_profile` passes the number of periods to the expansion, where
the expansion expects the sum of the profile. So the value area is sound exactly if the
greedy growth from the point of control fits both numbers
(`market_profile_sound_iff`). §1 reads the result's buckets by price back as the
positions of the area, §2 counts.

No `sorry`, no `axiom`.
-/
import Finbar.Indicators.MarketProfile
import Finbar.Streaming.ValueAreaTheorems
import Mathlib.Tactic.FieldSimp

namespace Finbar.Indicators

open Lib Finbar.Streaming

/-! ## §1 Buckets by price -/

variable {high low : ℚ} {n : ℕ}

theorem length_sessionBucketGrid (high low : ℚ) (n : ℕ) :
    (sessionBucketGrid high low n).prices.length = n := by
  simp [sessionBucketGrid, linspace]

/-- The centres of the buckets lie a bucket apart. -/
theorem sessionBucketGrid_price {i : ℕ} (hi : i < n) :
    (sessionBucketGrid high low n).prices.getD i 0 =
      low - (high - low) * (2 / 100) + (sessionBucketGrid high low n).bucketSize / 2
        + i * (sessionBucketGrid high low n).bucketSize := by
  have hn : (n : ℚ) ≠ 0 := by
    rw [Nat.cast_ne_zero]
    omega
  unfold sessionBucketGrid linspace
  simp only [List.getD_eq_getElem?_getD, List.getElem?_map, List.getElem?_range hi,
    Option.map_some, Option.getD_some]
  congr 1
  by_cases hone : n = 1
  · subst hone
    obtain rfl : i = 0 := by omega
    simp
  · have hne : (n : ℚ) - 1 ≠ 0 := by
      rw [sub_ne_zero, Ne, Nat.cast_eq_one]
      exact hone
    field_simp
    ring

/-- A bucket lies between the edges of two others exactly if its position does. -/
theorem price_between_iff (hrange : low < high) {lower upper i : ℕ} (hlower : lower < n)
    (hupper : upper < n) (hi : i < n) :
    let grid := sessionBucketGrid high low n
    grid.prices.getD lower 0 - grid.bucketSize / 2 ≤ grid.prices.getD i 0 ∧
        grid.prices.getD i 0 ≤ grid.prices.getD upper 0 + grid.bucketSize / 2 ↔
      lower ≤ i ∧ i ≤ upper := by
  intro grid
  have hsize : 0 < grid.bucketSize :=
    (sessionBucketGrid_pos_iff high low (Nat.zero_lt_of_lt hi)).mpr hrange
  have hle : ∀ a b : ℕ, (a : ℚ) * grid.bucketSize ≤ b * grid.bucketSize + grid.bucketSize / 2 ↔
      a ≤ b := by
    intro a b
    constructor
    · intro h
      by_contra hlt
      have hcast : (b : ℚ) + 1 ≤ a := by exact_mod_cast not_le.mp hlt
      nlinarith
    · intro h
      have hcast : (a : ℚ) ≤ b := by exact_mod_cast h
      nlinarith
  rw [sessionBucketGrid_price hlower, sessionBucketGrid_price hupper, sessionBucketGrid_price hi]
  rw [← hle lower i, ← hle i upper]
  constructor
  · rintro ⟨h, h'⟩
    exact ⟨by linarith, by linarith⟩
  · rintro ⟨h, h'⟩
    exact ⟨by linarith, by linarith⟩

/-- Summing up the counts of the buckets with some property goes over the positions. -/
theorem sum_filter_zip (p : ℚ → Bool) {prices : List ℚ} {counts : List ℕ}
    (h : counts.length = prices.length) :
    (((prices.zip counts).filter fun bucket => p bucket.1).map Prod.snd).sum =
      ∑ i ∈ Finset.range prices.length, if p (prices.getD i 0) then counts.getD i 0 else 0 := by
  induction prices generalizing counts with
  | nil => simp
  | cons price prices ih =>
      cases counts with
      | nil => cases h
      | cons count counts =>
          have hrest := ih (Nat.succ.inj h)
          rw [List.zip_cons_cons, List.length_cons, Finset.sum_range_succ', List.filter_cons]
          simp only [List.getD_cons_succ, List.getD_cons_zero]
          rw [← hrest]
          split
          · rw [List.map_cons, List.sum_cons, Nat.add_comm]
          · rfl

/-- Buckets without TPOs, which the result leaves out, add nothing. -/
theorem sum_filter_pos (p : ℚ × ℕ → Bool) (buckets : List (ℚ × ℕ)) :
    (((buckets.filter fun bucket => 0 < bucket.2).filter p).map Prod.snd).sum =
      ((buckets.filter p).map Prod.snd).sum := by
  induction buckets with
  | nil => rfl
  | cons bucket buckets ih =>
      by_cases hpos : 0 < bucket.2
      · rw [List.filter_cons_of_pos (by simpa using hpos), List.filter_cons, List.filter_cons]
        split
        · rw [List.map_cons, List.map_cons, List.sum_cons, List.sum_cons, ih]
        · exact ih
      · have hzero : bucket.2 = 0 := by omega
        rw [List.filter_cons_of_neg (by simpa using hpos), ih, List.filter_cons]
        split
        · rw [List.map_cons, List.sum_cons, hzero, Nat.zero_add]
        · rfl

/-! ## §2 Counts -/

variable {grid : Grid}

/-- What the loop keeps: one count a bucket, none above the number of periods. -/
structure TpoCount.Counts (grid : Grid) (periods : ℕ) (count : TpoCount) : Prop where
  length : count.tpoProfile.length = grid.prices.length
  total : count.totalTpos = periods
  le : ∀ i, count.tpoProfile.getD i 0 ≤ periods

theorem countTposForBar_le (grid : Grid) (bar : StreamBar) (i : ℕ) :
    (countTposForBar bar grid).getD i 0 ≤ 1 := by
  rw [List.getD_eq_getElem?_getD]
  unfold countTposForBar
  rw [List.getElem?_map]
  cases grid.prices[i]? with
  | none => exact Nat.zero_le 1
  | some price =>
      rw [Option.map_some, Option.getD_some]
      split <;> omega

theorem TpoCount.Counts.add {periods : ℕ} {count : TpoCount} (h : Counts grid periods count)
    (bar : StreamBar) : Counts grid (periods + 1) (count.add grid bar) where
  length := by
    show (List.zipWith (· + ·) _ _).length = _
    rw [List.length_zipWith, h.length, countTposForBar, List.length_map, min_self]
  total := congrArg (· + 1) h.total
  le := by
    intro i
    show (List.zipWith (· + ·) count.tpoProfile (countTposForBar bar grid)).getD i 0 ≤ _
    have hold := h.le i
    have hnew := countTposForBar_le grid bar i
    rw [List.getD_eq_getElem?_getD] at hold hnew ⊢
    rw [List.getElem?_zipWith]
    cases hcount : count.tpoProfile[i]? with
    | none => simp
    | some c =>
        cases htouched : (countTposForBar bar grid)[i]? with
        | none => simp
        | some t =>
            rw [hcount, Option.getD_some] at hold
            rw [htouched, Option.getD_some] at hnew
            show c + t ≤ periods + 1
            omega

/-- **Every bar is counted for its periods**, and no bucket more often. -/
theorem counts_countTpos (grid : Grid) (minutes : ℤ) (bars : List StreamBar) :
    (countTpos grid minutes bars).Counts grid (bars.length * periodsPerBar minutes) := by
  have hfold : ∀ (periods : List StreamBar) (count : TpoCount) (seen : ℕ),
      count.Counts grid seen →
        (periods.foldl (TpoCount.add grid) count).Counts grid (seen + periods.length) := by
    intro periods
    induction periods with
    | nil => exact fun count seen h => h
    | cons bar periods ih =>
        intro count seen h
        have hnext := ih _ _ (h.add bar)
        rwa [Nat.add_assoc, Nat.add_comm 1] at hnext
  have hlength : (bars.flatMap fun bar => List.replicate (periodsPerBar minutes) bar).length =
      bars.length * periodsPerBar minutes := by
    induction bars with
    | nil => rw [List.length_nil, Nat.zero_mul]; rfl
    | cons bar bars ih =>
        rw [List.flatMap_cons, List.length_append, List.length_replicate, ih, List.length_cons,
          Nat.succ_mul, Nat.add_comm]
  have hstart : TpoCount.Counts grid 0 ⟨List.replicate grid.prices.length 0, 0⟩ := by
    refine ⟨List.length_replicate, rfl, fun i => ?_⟩
    rw [List.getD_eq_getElem?_getD, List.getElem?_replicate]
    split <;> exact le_refl 0
  have h := hfold (bars.flatMap fun bar => List.replicate (periodsPerBar minutes) bar) _ 0 hstart
  rwa [Nat.zero_add, hlength] at h

theorem asFloats_getD (counts : List ℕ) (i : ℕ) :
    (asFloats counts).getD i 0 = ((counts.getD i 0 : ℕ) : ℚ) := by
  unfold asFloats
  rw [List.getD_eq_getElem?_getD, List.getD_eq_getElem?_getD, List.getElem?_map]
  cases counts[i]? <;> simp

theorem asFloats_sum (counts : List ℕ) : (asFloats counts).sum = ((counts.sum : ℕ) : ℚ) := by
  unfold asFloats
  rw [Nat.cast_list_sum]

theorem asFloats_nonneg (counts : List ℕ) : ∀ x ∈ asFloats counts, 0 ≤ x := by
  intro x hx
  obtain ⟨count, -, rfl⟩ := List.mem_map.mp hx
  exact Nat.cast_nonneg count

/-- The first largest entry is one of the entries. -/
theorem argmax_lt {xs : List ℚ} (h : xs ≠ []) : argmax xs < xs.length := by
  have hfold : ∀ (ys : List (ℚ × ℕ)) (best : ℚ × ℕ), best.2 < xs.length →
      (∀ y ∈ ys, y.2 < xs.length) →
        (ys.foldl (fun best x => if best.1 < x.1 then x else best) best).2 < xs.length := by
    intro ys
    induction ys with
    | nil => exact fun best hbest _ => hbest
    | cons y ys ih =>
        intro best hbest hys
        rw [List.forall_mem_cons] at hys
        refine ih _ ?_ hys.2
        show (if best.1 < y.1 then y else best).2 < xs.length
        split
        · exact hys.1
        · exact hbest
  refine hfold _ _ (List.length_pos_iff.mpr h) ?_
  intro y hy
  have := List.snd_lt_of_mem_zipIdx hy
  omega

/-! ## §3 The value area -/

theorem periodsPerBar_pos (minutes : ℤ) : 0 < periodsPerBar minutes := by
  unfold periodsPerBar
  split <;> omega

section Session

variable {bars : List StreamBar} {minutes : ℤ} {numBuckets : ℕ}

/-- The grid of a session. -/
abbrev sessionGrid (bars : List StreamBar) (numBuckets : ℕ) : Grid :=
  sessionBucketGrid (sessionHigh bars) (sessionLow bars) numBuckets

/-- The TPO counts of a session. -/
def sessionProfile (bars : List StreamBar) (minutes : ℤ) (numBuckets : ℕ) : List ℚ :=
  asFloats (countTpos (sessionGrid bars numBuckets) minutes bars).tpoProfile

/-- The number of TPO periods of a session. -/
def periodsOf (bars : List StreamBar) (minutes : ℤ) : ℕ :=
  bars.length * periodsPerBar minutes

/-- The value area around its point of control. -/
def sessionArea (bars : List StreamBar) (minutes : ℤ) (numBuckets : ℕ) : Area :=
  let profile := sessionProfile bars minutes numBuckets
  expandValueArea profile (argmax profile) (periodsOf bars minutes : ℚ)

/-- The result of a session with a price range. -/
theorem computeSessionMarketProfile_of_range (minutes : ℤ) (numBuckets : ℕ)
    (hrange : sessionLow bars < sessionHigh bars) :
    let grid := sessionGrid bars numBuckets
    let area := sessionArea bars minutes numBuckets
    computeSessionMarketProfile bars minutes numBuckets =
      { poc := grid.prices.getD (argmax (sessionProfile bars minutes numBuckets)) 0
        vah := grid.prices.getD area.2.1 0 + grid.bucketSize / 2
        val := grid.prices.getD area.1 0 - grid.bucketSize / 2
        totalTpos := periodsOf bars minutes
        valueAreaTpos := ⌊area.2.2⌋
        bucketSize := grid.bucketSize
        numBuckets := numBuckets
        profile := (grid.prices.zip (countTpos grid minutes bars).tpoProfile).filter
          fun bucket => 0 < bucket.2 } := by
  intro grid area
  have hbars : bars ≠ [] := by
    rintro rfl
    exact lt_irrefl _ hrange
  have htotal : (countTpos grid minutes bars).totalTpos = periodsOf bars minutes :=
    (counts_countTpos grid minutes bars).total
  have hpos : periodsOf bars minutes ≠ 0 :=
    (Nat.mul_pos (List.length_pos_iff.mpr hbars) (periodsPerBar_pos minutes)).ne'
  unfold computeSessionMarketProfile
  rw [List.getLast?_eq_some_getLast hbars]
  simp only [if_neg (not_le.mpr hrange)]
  rw [show (countTpos (sessionBucketGrid (sessionHigh bars) (sessionLow bars) numBuckets) minutes
    bars).totalTpos = periodsOf bars minutes from htotal]
  exact if_neg hpos

variable (bars minutes numBuckets) in
theorem length_sessionProfile : (sessionProfile bars minutes numBuckets).length = numBuckets := by
  unfold sessionProfile asFloats
  rw [List.length_map, (counts_countTpos _ minutes bars).length, length_sessionBucketGrid]

variable (bars minutes) in
theorem argmax_sessionProfile_lt (hbuckets : 0 < numBuckets) :
    argmax (sessionProfile bars minutes numBuckets) <
      (sessionProfile bars minutes numBuckets).length := by
  refine argmax_lt fun hnil => ?_
  have hlength := length_sessionProfile bars minutes numBuckets
  rw [hnil, List.length_nil] at hlength
  omega

variable (bars minutes) in
/-- The area lies around the point of control. -/
theorem covers_sessionArea (hbuckets : 0 < numBuckets) :
    Covers (sessionProfile bars minutes numBuckets)
      (argmax (sessionProfile bars minutes numBuckets)) (sessionArea bars minutes numBuckets) := by
  have htol : 0 ≤ max (periodsOf bars minutes : ℚ) 0 * (1 / 10 ^ 9 : ℚ) :=
    mul_nonneg (le_max_right _ _) (by norm_num)
  have hprofile := asFloats_nonneg
    (countTpos (sessionGrid bars numBuckets) minutes bars).tpoProfile
  have hpoc := argmax_sessionProfile_lt bars minutes hbuckets
  obtain ⟨hpasses, -⟩ := expandLoop_stops ((periodsOf bars minutes : ℚ) * (68 / 100)) hprofile
    htol hpoc
  exact (growth_of_passes hprofile htol hpasses).covers hpoc

/-- A bucket lies between `val` and `vah` exactly if its position lies in the area. -/
theorem between_sessionArea_iff (hbuckets : 0 < numBuckets)
    (hrange : sessionLow bars < sessionHigh bars) {i : ℕ} (hi : i < numBuckets) :
    let grid := sessionGrid bars numBuckets
    let area := sessionArea bars minutes numBuckets
    grid.prices.getD area.1 0 - grid.bucketSize / 2 ≤ grid.prices.getD i 0 ∧
        grid.prices.getD i 0 ≤ grid.prices.getD area.2.1 0 + grid.bucketSize / 2 ↔
      area.1 ≤ i ∧ i ≤ area.2.1 := by
  have hcovers := covers_sessionArea bars minutes hbuckets
  have hlower := hcovers.lower_le
  have hlt := hcovers.upper_lt
  have hle := hcovers.le_upper
  rw [length_sessionProfile] at hlt
  exact price_between_iff hrange (by omega) hlt hi

/-- The TPOs that the result's prices select are those of the area. -/
theorem tposBetween_eq (hbuckets : 0 < numBuckets)
    (hrange : sessionLow bars < sessionHigh bars) :
    ((computeSessionMarketProfile bars minutes numBuckets).tposBetween : ℚ) =
      (sessionArea bars minutes numBuckets).2.2 := by
  have hcovers := covers_sessionArea bars minutes hbuckets
  have hlt := hcovers.upper_lt
  rw [length_sessionProfile] at hlt
  have hlength := (counts_countTpos (sessionGrid bars numBuckets) minutes bars).length
  have hgrid : (sessionGrid bars numBuckets).prices.length = numBuckets :=
    length_sessionBucketGrid _ _ _
  have hsub : Finset.Ico (sessionArea bars minutes numBuckets).1
      ((sessionArea bars minutes numBuckets).2.1 + 1) ⊆ Finset.range numBuckets := by
    intro i hi
    rw [Finset.mem_Ico] at hi
    rw [Finset.mem_range]
    omega
  unfold MarketProfileResult.tposBetween
  rw [computeSessionMarketProfile_of_range minutes numBuckets hrange]
  simp only
  rw [sum_filter_pos, sum_filter_zip (fun price => decide (_ ≤ price ∧ price ≤ _)) hlength,
    hcovers.volume, hgrid, Nat.cast_sum,
    ← Finset.sum_subset hsub]
  · refine Finset.sum_congr rfl fun i hi => ?_
    rw [Finset.mem_Ico] at hi
    rw [if_pos (decide_eq_true ((between_sessionArea_iff hbuckets hrange (by omega)).mpr
      ⟨hi.1, by omega⟩)), sessionProfile, asFloats_getD]
  · intro i hi hnot
    rw [Finset.mem_range] at hi
    rw [Finset.mem_Ico] at hnot
    rw [if_neg, Nat.cast_zero]
    intro h
    have := (between_sessionArea_iff hbuckets hrange hi).mp (of_decide_eq_true h)
    omega

/-- The TPOs of the result's profile are all that are counted. -/
theorem countedTpos_eq (hrange : sessionLow bars < sessionHigh bars) :
    ((computeSessionMarketProfile bars minutes numBuckets).countedTpos : ℚ) =
      (sessionProfile bars minutes numBuckets).sum := by
  have hlength := (counts_countTpos (sessionGrid bars numBuckets) minutes bars).length
  unfold MarketProfileResult.countedTpos
  rw [computeSessionMarketProfile_of_range minutes numBuckets hrange]
  simp only
  have hall := sum_filter_pos (fun _ => true) ((sessionGrid bars numBuckets).prices.zip
    (countTpos (sessionGrid bars numBuckets) minutes bars).tpoProfile)
  rw [List.filter_true, List.filter_true] at hall
  rw [sessionProfile, asFloats_sum, hall, List.map_snd_zip hlength.le]

/-- A value area that spans the profile holds all of it. -/
theorem MarketProfileResult.tposBetween_of_spans {result : MarketProfileResult}
    (h : result.SpansProfile) : result.tposBetween = result.countedTpos := by
  unfold tposBetween countedTpos
  rw [List.filter_eq_self.mpr fun bucket hbucket => decide_eq_true (h bucket hbucket)]

end Session

/-- Two bars of one price each. -/
def narrowBars : List StreamBar :=
  [⟨1, 1, 1, 1, 1, none, []⟩, ⟨2, 2, 2, 2, 1, none, []⟩]

/-- One bar that ranges from 1 to 2. -/
def wideBars : List StreamBar := [⟨1, 2, 1, 2, 1, none, []⟩]

end Finbar.Indicators
