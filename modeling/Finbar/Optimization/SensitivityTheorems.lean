/-
Finbar.Optimization.SensitivityTheorems — when the sensitivities of a grid search
are scores, and when their ranking ends.

The ranking loop advances over a group only when the leader is close to itself, so
it ends exactly when there is no NaN (`rankable_iff`). An infinite metric, which an
error dictionary of the engine leaves as its profit factor, makes the difference of
two means infinite or NaN, and the scores NaN: `sensitivity_sound_iff` has the exact
condition.

No `sorry`, no `axiom`.
-/
import Finbar.Lib.FloatList
import Finbar.Lib.Rounding
import Finbar.Optimization.RankingTheorems
import Finbar.Optimization.Sensitivity
import Mathlib.Algebra.BigOperators.Ring.List

namespace Finbar.Optimization

open Lib Lib.Python Finbar.Backtest

/-! ## §1 The ranking loop -/

section Ranking

variable {indexed : List (PyFloat × ℕ)} {values : List PyFloat}

/-- Every value but NaN is close to itself. -/
theorem isClose_self {x : PyFloat} (h : x ≠ .nan) {relTol : ℚ} (htol : 0 ≤ relTol) :
    x.isClose x relTol = true := by
  cases x with
  | nan => exact absurd rfl h
  | negInf => rfl
  | posInf => rfl
  | fin q =>
      refine decide_eq_true ?_
      rw [sub_self, abs_zero]
      exact mul_nonneg htol ((abs_nonneg q).trans (le_max_left _ _))

/-- A group has its leader. -/
theorem groupLength_pos {i : ℕ} (hi : i < indexed.length) (h : indexed[i].1 ≠ .nan) :
    0 < groupLength indexed i := by
  unfold groupLength
  rw [List.getElem?_eq_getElem hi]
  simp only
  have hself := isClose_self h (show (0 : ℚ) ≤ 1 / 10 ^ 12 by norm_num)
  rw [List.drop_eq_getElem_cons hi, List.takeWhile_cons, hself]
  exact Nat.succ_pos _

/-- No group has a NaN. -/
theorem groupLength_le {i p : ℕ} (hip : i ≤ p) (hp : p < indexed.length)
    (h : indexed[p].1 = .nan) : groupLength indexed i ≤ p - i := by
  unfold groupLength
  split
  · exact Nat.zero_le _
  · rename_i leader hleader
    by_contra hlt
    rw [not_le] at hlt
    have hmem : indexed[p] ∈ (indexed.drop i).takeWhile
        fun item => item.1.isClose leader.1 (1 / 10 ^ 12) := by
      have hget : (indexed.drop i)[p - i]? = some indexed[p] := by
        rw [List.getElem?_drop, Nat.add_sub_cancel' hip, List.getElem?_eq_getElem hp]
      rw [List.prefix_iff_eq_take.mp (List.takeWhile_prefix (l := indexed.drop i) _)]
      exact List.mem_of_getElem? (by rw [List.getElem?_take_of_lt hlt]; exact hget)
    have hclose := List.mem_takeWhile_imp hmem
    rw [h] at hclose
    cases hclose

theorem rankPass_of_lt {s : ℕ × List ℚ} (h : s.1 < indexed.length) :
    rankPass indexed s
      = some (s.1 + groupLength indexed s.1,
          assignRanks indexed s.1 (s.1 + groupLength indexed s.1) s.2) :=
  if_pos h

theorem lt_of_rankPass {s t : ℕ × List ℚ} (h : rankPass indexed s = some t) :
    s.1 < indexed.length := by
  by_contra hge
  have hnone : rankPass indexed s = none := if_neg hge
  rw [hnone] at h
  cases h

/-- A pass goes on by a group. -/
theorem rankPass_fst {s t : ℕ × List ℚ} (h : rankPass indexed s = some t) :
    t.1 = s.1 + groupLength indexed s.1 := by
  rw [rankPass_of_lt (lt_of_rankPass h)] at h
  rw [← Option.some.inj h]

/-- A pass goes on, or changes nothing. -/
theorem rankPass_progress (s t : ℕ × List ℚ) (h : rankPass indexed s = some t) :
    t = s ∨ indexed.length - t.1 < indexed.length - s.1 := by
  have hi := lt_of_rankPass h
  rcases Nat.eq_zero_or_pos (groupLength indexed s.1) with hzero | hpos
  · left
    rw [rankPass_of_lt hi, hzero, Nat.add_zero, assignRanks, Nat.sub_self] at h
    exact (Option.some.inj h).symm
  · right
    have := rankPass_fst h
    omega

@[simp] theorem length_indexedValues (values : List PyFloat) :
    (indexedValues values).length = values.length := by
  simp [indexedValues]

theorem mem_indexedValues {item : PyFloat × ℕ} :
    item ∈ indexedValues values ↔ item ∈ values.zipIdx :=
  List.mem_mergeSort

/-- The ranks are there exactly when the loop ends. -/
theorem rankValues_isSome_iff (values : List PyFloat) :
    (rankValues values).isSome ↔ Rankable values := by
  have hbound : (indexedValues values).length - (rankStart values).1 ≤ values.length := by
    simp [rankStart]
  unfold Rankable rankValues
  rw [While.halts_iff_of_progress (fun s : ℕ × List ℚ => (indexedValues values).length - s.1)
    rankPass_progress hbound]
  simp only
  split
  · rename_i hdone
    exact iff_of_true rfl hdone
  · rename_i next hpass
    simp [hpass]

/-- **The ranking loop ends exactly when there is no NaN.** -/
theorem rankable_iff : Rankable values ↔ ∀ v ∈ values, v ≠ .nan := by
  constructor
  · rintro ⟨n, hdone⟩ v hv rfl
    obtain ⟨p, hp, hget⟩ : ∃ p, ∃ hp : p < (indexedValues values).length,
        (indexedValues values)[p].1 = .nan := by
      obtain ⟨place, hplace, hvalue⟩ := List.getElem_of_mem hv
      have hmem : (PyFloat.nan, place) ∈ indexedValues values := by
        rw [mem_indexedValues, List.mk_mem_zipIdx_iff_getElem?,
          List.getElem?_eq_getElem hplace, hvalue]
      obtain ⟨p, hp, hget⟩ := List.getElem_of_mem hmem
      exact ⟨p, hp, by rw [hget]⟩
    -- no pass goes beyond the NaN
    have hbefore : (While.run (rankPass (indexedValues values)) n (rankStart values)).1 ≤ p := by
      refine @While.run_invariant _ _ _ (fun s : ℕ × List ℚ => s.1 ≤ p) (fun s t hs hpass => ?_)
        (Nat.zero_le p) n
      have hgroup := groupLength_le hs hp hget
      have hnext := rankPass_fst hpass
      omega
    rw [rankPass_of_lt (lt_of_le_of_lt hbefore hp)] at hdone
    cases hdone
  · intro hvalues
    refine ⟨values.length, @While.done_of_measure _ _ _ (fun _ => True)
      (fun s : ℕ × List ℚ => (indexedValues values).length - s.1)
      (fun s t _ hpass => ⟨trivial, ?_⟩) trivial _ (by simp [rankStart])⟩
    have hi := lt_of_rankPass hpass
    have hvalue : (indexedValues values)[s.1].1 ∈ values :=
      List.fst_mem_of_mem_zipIdx (mem_indexedValues.mp (List.getElem_mem hi))
    have hgroup := groupLength_pos hi (hvalues _ hvalue)
    have hnext := rankPass_fst hpass
    omega

end Ranking

/-! ## §2 The spread of a parameter -/

/-- The parameter takes two values among the results that count. -/
def Varied (metric : RankingMetric) (name : String) (results : List OptimizationResult) : Prop :=
  ∃ c ∈ counted metric name results, ∃ c' ∈ counted metric name results, c.1 ≠ c'.1

section Spread

variable {metric : RankingMetric} {name : String} {results : List OptimizationResult}

/-- A metric that counts is one of a result. -/
theorem exists_of_mem_counted {c : ℚ × PyFloat} (h : c ∈ counted metric name results) :
    ∃ r ∈ results, r.error = none ∧ paramOf r name = some c.1 ∧ metricValue metric r = c.2 := by
  obtain ⟨r, hr, hcounted⟩ := List.mem_filterMap.mp h
  split at hcounted
  · cases hcounted
  · rename_i herror
    obtain ⟨value, hvalue, rfl⟩ := Option.map_eq_some_iff.mp hcounted
    exact ⟨r, hr, by simpa using herror, hvalue, rfl⟩

/-- The metrics of backtests are numbers or infinite. -/
theorem counted_upper (h : ∀ r ∈ results, FromBacktest r) :
    ∀ c ∈ counted metric name results, c.2.Upper := by
  intro c hc
  obtain ⟨r, hr, -, -, hvalue⟩ := exists_of_mem_counted hc
  rw [← hvalue]
  exact metricValue_cases (h r hr) metric

theorem mean_of_fin {xs : List PyFloat} (h : ∀ x ∈ xs, ∃ q, x = .fin q) :
    ∃ q, mean xs = .fin q := by
  obtain ⟨qs, rfl⟩ := PyFloat.exists_map_fin h
  exact ⟨qs.sum / (qs.map PyFloat.fin).length, by rw [mean, PyFloat.sum_map_fin]; rfl⟩

theorem mean_of_posInf {xs : List PyFloat} (h : ∀ x ∈ xs, x.Upper) (hinf : .posInf ∈ xs) :
    mean xs = .posInf := by
  have hpos : (0 : ℚ) < xs.length := by exact_mod_cast List.length_pos_of_mem hinf
  rw [mean, PyFloat.sum_of_posInf h hinf]
  simp [PyFloat.div, PyFloat.infOfSign, hpos, hpos.ne']

theorem mean_upper {xs : List PyFloat} (h : ∀ x ∈ xs, x.Upper) : (mean xs).Upper := by
  by_cases hinf : PyFloat.posInf ∈ xs
  · exact .inl (mean_of_posInf h hinf)
  · refine .inr (mean_of_fin fun x hx => (h x hx).resolve_left ?_)
    rintro rfl
    exact hinf hx

/-- The entries that the spread is computed from. -/
def entries (metric : RankingMetric) (name : String) (results : List OptimizationResult) :
    List (ℚ × List PyFloat) :=
  (OrderedDict.collect (counted metric name results)).items

/-- A parameter with one value at most has no spread. -/
theorem spread_of_not_varied (h : ¬ Varied metric name results) :
    spread metric name results = .fin 0 := by
  have hnodup := (OrderedDict.collect (counted metric name results)).nodup
  have hvalues : ∀ e ∈ entries metric name results, ∃ c ∈ counted metric name results,
      c.1 = e.1 := by
    intro e he
    obtain ⟨value, hvalue⟩ := List.exists_mem_of_ne_nil _
      (OrderedDict.get_collect_ne_nil (OrderedDict.get_of_mem he))
    exact ⟨_, OrderedDict.mem_of_mem_collect he hvalue, rfl⟩
  unfold spread
  unfold entries at hvalues
  rcases hitems : (OrderedDict.collect (counted metric name results)).items
    with _ | ⟨e, _ | ⟨e', items⟩⟩
  · simp only [hitems, List.map_nil]
  · simp only [hitems, List.map_cons, List.map_nil]
  · rw [hitems] at hvalues hnodup
    obtain ⟨c, hc, hkey⟩ := hvalues e (by simp)
    obtain ⟨c', hc', hkey'⟩ := hvalues e' (by simp)
    refine absurd ⟨c, hc, c', hc', ?_⟩ h
    rw [hkey, hkey']
    simp only [List.map_cons, List.nodup_cons, List.mem_cons, not_or] at hnodup
    exact hnodup.1.1

/-- Two values make two means. -/
theorem spread_of_varied (h : Varied metric name results) :
    ∃ first second rest, ((entries metric name results).map fun e => mean e.2)
        = first :: second :: rest ∧
      spread metric name results
        = (PyFloat.maxOf first (second :: rest)).sub (PyFloat.minOf first (second :: rest)) := by
  obtain ⟨c, hc, c', hc', hne⟩ := h
  obtain ⟨values, hentry, -⟩ := OrderedDict.exists_mem_collect hc
  obtain ⟨values', hentry', -⟩ := OrderedDict.exists_mem_collect hc'
  unfold spread entries
  rcases hitems : (OrderedDict.collect (counted metric name results)).items
    with _ | ⟨e, _ | ⟨e', items⟩⟩
  · rw [hitems] at hentry
    cases hentry
  · rw [hitems, List.mem_singleton] at hentry hentry'
    exact absurd (congrArg Prod.fst (hentry.trans hentry'.symm)) hne
  · exact ⟨_, _, _, rfl, by simp only [hitems, List.map_cons]⟩

/-- **Finite metrics have a finite spread that is not negative.** -/
theorem spread_finite (h : ∀ c ∈ counted metric name results, ∃ q, c.2 = .fin q) :
    ∃ q, 0 ≤ q ∧ spread metric name results = .fin q := by
  by_cases hvaried : Varied metric name results
  · obtain ⟨first, second, rest, hmeans, hspread⟩ := spread_of_varied hvaried
    have hfinite : ∀ m ∈ first :: second :: rest, ∃ q, m = PyFloat.fin q := by
      intro m hm
      rw [← hmeans] at hm
      obtain ⟨e, he, rfl⟩ := List.mem_map.mp hm
      exact mean_of_fin fun x hx => h _ (OrderedDict.mem_of_mem_collect he hx)
    obtain ⟨qs, hqs⟩ := PyFloat.exists_map_fin hfinite
    obtain ⟨q, qs, rfl⟩ : ∃ q qs', qs = q :: qs' := by
      cases qs with
      | nil => cases hqs
      | cons q qs => exact ⟨q, qs, rfl⟩
    obtain ⟨hfirst, hrest⟩ := List.cons.inj hqs
    obtain ⟨⟨high, hmax, hle⟩, low, hmin, hge⟩ := PyFloat.extremes_map_fin q qs
    refine ⟨high - low, by linarith, ?_⟩
    rw [hspread, hfirst, hrest, hmax, hmin, sub_eq_add_neg]
    rfl
  · exact ⟨0, le_rfl, spread_of_not_varied hvaried⟩

/-- **An infinite metric blows the spread of a parameter with two values.** -/
theorem spread_blown (hupper : ∀ c ∈ counted metric name results, c.2.Upper)
    (hvaried : Varied metric name results)
    (hinf : ∃ c ∈ counted metric name results, c.2 = .posInf) :
    (spread metric name results).Blown := by
  obtain ⟨first, second, rest, hmeans, hspread⟩ := spread_of_varied hvaried
  have hmeansUpper : ∀ m ∈ first :: second :: rest, m.Upper := by
    intro m hm
    rw [← hmeans] at hm
    obtain ⟨e, he, rfl⟩ := List.mem_map.mp hm
    exact mean_upper fun x hx => hupper _ (OrderedDict.mem_of_mem_collect he hx)
  obtain ⟨c, hc, hvalue⟩ := hinf
  obtain ⟨values, hentry, hmem⟩ := OrderedDict.exists_mem_collect hc
  have hmean : PyFloat.posInf ∈ first :: second :: rest := by
    rw [← hmeans]
    refine List.mem_map.mpr ⟨(c.1, values), hentry, ?_⟩
    exact mean_of_posInf (fun x hx => hupper _ (OrderedDict.mem_of_mem_collect hentry hx))
      (hvalue ▸ hmem)
  rw [hspread, PyFloat.maxOf_of_posInf hmeansUpper hmean]
  exact PyFloat.posInf_sub (hmeansUpper _ (PyFloat.minOf_mem _ _))

/-- The spread of backtests is a number that is not negative, or blown. -/
theorem spread_cases (hupper : ∀ c ∈ counted metric name results, c.2.Upper) :
    (∃ q, 0 ≤ q ∧ spread metric name results = .fin q) ∨ (spread metric name results).Blown := by
  by_cases hinf : ∃ c ∈ counted metric name results, c.2 = .posInf
  · by_cases hvaried : Varied metric name results
    · exact .inr (spread_blown hupper hvaried hinf)
    · exact .inl ⟨0, le_rfl, spread_of_not_varied hvaried⟩
  · refine .inl (spread_finite fun c hc => (hupper c hc).resolve_left fun heq => ?_)
    exact hinf ⟨c, hc, heq⟩

end Spread

/-! ## §3 Scores -/

/-- The scores are none, or numbers that are not negative and add up to one but for
their rounding to four digits. -/
def ScoresSound (scores : List (String × PyFloat)) : Prop :=
  scores = [] ∨ ∃ qs : List ℚ, scores.map Prod.snd = qs.map .fin ∧ (∀ q ∈ qs, 0 ≤ q) ∧
    |qs.sum - 1| ≤ qs.length * (1 / 2 / 10 ^ 4)

/-- No result that counts has an infinite metric, for any parameter that takes two
values. Fewer than two parameters or results are not scored. -/
def MetricsFinite (names : List String) (metric : String) (results : List OptimizationResult) :
    Prop :=
  names.length < 2 ∨ results.length < 2 ∨
    ∀ name ∈ names, Varied (resolveMetric metric) name results →
      ∀ c ∈ counted (resolveMetric metric) name results, c.2 ≠ .posInf

section Scores

variable {names : List String} {metric : String} {results : List OptimizationResult}

/-- Finite spreads make scores. -/
theorem scoresSound_of_finite
    (h : ∀ name ∈ names, ∃ q, 0 ≤ q ∧ spread (resolveMetric metric) name results = .fin q) :
    ScoresSound (computeSensitivity names results metric) := by
  unfold computeSensitivity
  split
  · exact .inl rfl
  · obtain ⟨spreads, hspreads⟩ : ∃ qs : List ℚ,
        (names.map fun name => spread (resolveMetric metric) name results) = qs.map .fin := by
      refine PyFloat.exists_map_fin fun x hx => ?_
      obtain ⟨name, hname, rfl⟩ := List.mem_map.mp hx
      obtain ⟨q, -, hq⟩ := h name hname
      exact ⟨q, hq⟩
    have hnonneg : ∀ q ∈ spreads, 0 ≤ q := by
      intro q hq
      have hmem : PyFloat.fin q ∈ names.map fun name =>
          spread (resolveMetric metric) name results := by
        rw [hspreads]
        exact List.mem_map_of_mem hq
      obtain ⟨name, hname, heq⟩ := List.mem_map.mp hmem
      obtain ⟨q', hq', hfin⟩ := h name hname
      rw [hfin] at heq
      rwa [← PyFloat.fin.inj heq]
    simp only [List.map_map, Function.comp_def]
    rw [hspreads, PyFloat.sum_map_fin]
    split
    · exact .inl rfl
    · rename_i hpos
      have htotal : 0 < spreads.sum := by simpa [PyFloat.le] using hpos
      refine .inr ⟨(spreads.map fun q => q / spreads.sum).map fun q => pyRound q 4, ?_, ?_, ?_⟩
      · have hscores := congrArg
          (List.map fun v : PyFloat => (v.div (.fin spreads.sum)).round 4) hspreads
        simpa [List.map_map, Function.comp_def, PyFloat.div, PyFloat.round] using hscores
      · intro q hq
        obtain ⟨x, hx, rfl⟩ := List.mem_map.mp hq
        obtain ⟨y, hy, rfl⟩ := List.mem_map.mp hx
        exact pyRound_nonneg (div_nonneg (hnonneg y hy) htotal.le) 4
      · have hsum : (spreads.map fun q => q / spreads.sum).sum = 1 := by
          rw [← div_self htotal.ne']
          simp only [div_eq_mul_inv, List.sum_map_mul_right, List.map_id_fun', id]
        have hround := abs_sum_pyRound_sub_le (spreads.map fun q => q / spreads.sum) 4
        rw [hsum] at hround
        simpa using hround

/-- **A blown spread makes a score of NaN.** -/
theorem nan_of_blown (hnames : 2 ≤ names.length) (hresults : 2 ≤ results.length)
    (hupper : ∀ r ∈ results, FromBacktest r) {name : String} (hname : name ∈ names)
    (hblown : (spread (resolveMetric metric) name results).Blown) :
    (name, PyFloat.nan) ∈ computeSensitivity names results metric := by
  have htotal : (PyFloat.sum (names.map fun name =>
      spread (resolveMetric metric) name results)).Blown := by
    refine PyFloat.blown_sum (fun x hx => ?_) (List.mem_map_of_mem hname) hblown
    obtain ⟨other, -, rfl⟩ := List.mem_map.mp hx
    rcases spread_cases (counted_upper hupper) with ⟨q, -, hq⟩ | hinf | hnan
    · rw [hq]
      exact PyFloat.noConfusion
    · rw [hinf]
      exact PyFloat.noConfusion
    · rw [hnan]
      exact PyFloat.noConfusion
  unfold computeSensitivity
  rw [if_neg (by omega)]
  simp only [List.map_map, Function.comp_def]
  rw [PyFloat.not_le_zero_of_blown htotal, if_neg Bool.false_ne_true]
  refine List.mem_map.mpr ⟨name, hname, ?_⟩
  rw [PyFloat.blown_div hblown htotal]
  rfl

/-- **The sensitivities are scores exactly when the metrics are finite.** -/
theorem scoresSound_iff (hupper : ∀ r ∈ results, FromBacktest r) :
    ScoresSound (computeSensitivity names results metric) ↔
      MetricsFinite names metric results := by
  constructor
  · intro hsound
    by_contra hnot
    simp only [MetricsFinite, not_or, not_lt, not_forall, not_not] at hnot
    obtain ⟨hnames, hresults, name, hname, hvaried, c, hc, hinf⟩ := hnot
    have hnan := nan_of_blown hnames hresults hupper hname
      (spread_blown (counted_upper hupper) hvaried ⟨c, hc, hinf⟩)
    rcases hsound with hnil | ⟨qs, hqs, -⟩
    · rw [hnil] at hnan
      cases hnan
    · have hmem : PyFloat.nan ∈ qs.map PyFloat.fin := hqs ▸ List.mem_map_of_mem hnan
      obtain ⟨q, -, hq⟩ := List.mem_map.mp hmem
      cases hq
  · rintro (hnames | hresults | hfinite)
    · exact .inl (if_pos (.inl hnames))
    · exact .inl (if_pos (.inr hresults))
    · refine scoresSound_of_finite fun name hname => ?_
      by_cases hvaried : Varied (resolveMetric metric) name results
      · exact spread_finite fun c hc =>
          (counted_upper hupper c hc).resolve_left (hfinite name hname hvaried c hc)
      · exact ⟨0, le_rfl, spread_of_not_varied hvaried⟩

end Scores

/-! ## §4 The folds of a job -/

section Folds

variable {names : List String} {metric : String} {fm : FloatMath}
  {stability : List WalkForwardFold → ℚ}

/-- Sound scores are ranked, whichever names the folds have together. -/
theorem rankable_of_scoresSound {scores : List (String × PyFloat)} (h : ScoresSound scores)
    (ordered : List String) :
    Rankable (ordered.map fun name => (scores.lookup name).getD (.fin 0)) := by
  refine rankable_iff.mpr fun v hv => ?_
  obtain ⟨name, -, rfl⟩ := List.mem_map.mp hv
  cases hlookup : scores.lookup name with
  | none => exact PyFloat.noConfusion
  | some score =>
      have hmem := mem_of_lookup hlookup
      rcases h with rfl | ⟨qs, hqs, -⟩
      · cases hmem
      · have hscore : score ∈ qs.map PyFloat.fin := hqs ▸ List.mem_map_of_mem hmem
        obtain ⟨q, -, rfl⟩ := List.mem_map.mp hscore
        exact PyFloat.noConfusion

/-- **The rank correlation is computed** exactly when there is nothing to rank or the
ranking of every fold ends. -/
theorem computeRankCorrelation_isSome_iff {folds : List WalkForwardFold} :
    (computeRankCorrelation fm folds).isSome ↔
      (orderedNames folds).length < 2 ∨ folds.length < 2 ∨
        ∀ fold ∈ folds.filter WalkForwardFold.ranked,
          Rankable (scoresOf (orderedNames folds) fold) := by
  simp only [← rankValues_isSome_iff]
  rw [← Run.isSome_mapM_iff, ← or_assoc]
  unfold computeRankCorrelation
  by_cases hfew : (orderedNames folds).length < 2 ∨ folds.length < 2
  · rw [if_pos hfew]
    exact iff_of_true rfl (Or.inl hfew)
  · simp only [hfew, if_false, false_or]
    cases (folds.filter WalkForwardFold.ranked).mapM fun fold =>
        rankValues (scoresOf (orderedNames folds) fold) with
    | none => simp
    | some rankings =>
        simp only [Option.bind_eq_bind, Option.bind_some, Option.isSome_some, iff_true]
        split
        · rfl
        · split
          · rfl
          · rfl

/-- The aggregation returns when the scores of every completed fold are ranked. -/
theorem aggregateRankedFolds_isSome {folds : List WalkForwardFold}
    (h : ∀ fold ∈ folds, fold.completed = true →
      ∀ ordered, Rankable (scoresOf ordered fold)) :
    (aggregateRankedFolds fm stability folds).isSome := by
  unfold aggregateRankedFolds
  simp only
  split
  · rfl
  · rw [Option.isSome_map, computeRankCorrelation_isSome_iff]
    refine .inr (.inr fun fold hfold => ?_)
    obtain ⟨hmem, hcompleted⟩ := List.mem_filter.mp (List.mem_of_mem_filter hfold)
    exact h fold hmem hcompleted _

end Folds

/-! ## §5 Two grid searches -/

/-- Optimizers whose strategy buys into a fall for a true `fast`, and else holds. -/
def choosingDeps : OptimizerDeps Unit Bool ℕ Unit where
  parse _ params := .ok (some
    { definition := (params.pop "fast" .none).truthy, requiredColumns := ["close"],
      hasInformative := false, hasFeatures := false })
  barsToFrame := .ok fallingFrame
  mergeInformative _ := .ok fallingFrame
  calculateFeatures := none
  createStrategy buys :=
    (if buys then buyAlways else { onReset := id, onBar := fun memory _ _ => (memory, none) }, ())
  runner := fallingDeps.runner

/-- A loss and no trade at all. -/
def choosingResults : List OptimizationResult :=
  [[("fast", .ofRat 1), ("slow", .ofRat 5)], [("fast", .ofRat 0), ("slow", .ofRat 5)]].map
    fun params => GridSearchOptimizer.backtestOne choosingDeps () params [] (some fallingFrame)

/-- A fold with the scores of its grid search. -/
def scoredFold (results : List OptimizationResult) (metric : String) : WalkForwardFold where
  foldIndex := 0
  paramSensitivity := computeSensitivity ["fast", "slow"] results metric

/-- The results of two engine runs that returned an error dictionary. -/
def errorResults : List OptimizationResult :=
  [[("fast", .ofRat 5), ("slow", .ofRat 20)], [("fast", .ofRat 10), ("slow", .ofRat 20)]].map
    fun params => metricsFromRaw params (.error { template := "Not enough data" })

end Finbar.Optimization
