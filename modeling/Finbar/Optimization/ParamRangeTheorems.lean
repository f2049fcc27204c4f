/-
Finbar.Optimization.ParamRangeTheorems — what grid search and random search try.

Random search draws from the lattice points `min + k * step` that are not above
the maximum, and counts them. Grid search walks until it has passed the maximum
by a thousandth of a step, so that it takes one point more when the lattice
misses the maximum by that little: then the two searches differ
(`searches_agree_iff`), and a random search that is completed from the grid can
take a point that is none of the lattice (`random_combinations_sound_iff`).

No `sorry`, no `axiom`.
-/
import Finbar.Optimization.ParamRange
import Mathlib.Tactic.FieldSimp
import Mathlib.Tactic.Linarith
import Mathlib.Tactic.NormNum

namespace Finbar.Optimization

open Lib Lib.Python

namespace ParamRange

/-! ## §1 The lattice of a range -/

/-- A range that the parser of the request lets through. -/
def Valid (r : ParamRange) : Prop := r.min ≤ r.max ∧ 0 < r.step

/-- A lattice point that is not above the maximum. -/
def OnLattice (r : ParamRange) (v : ℚ) : Prop := ∃ k : ℕ, v = r.min + k * r.step ∧ v ≤ r.max

/-- The steps from the minimum to the maximum. -/
def width (r : ParamRange) : ℚ := (r.max - r.min) / r.step

def point (r : ParamRange) (k : ℕ) : ℚ := r.min + k * r.step

/-- The lattice points in their order. -/
def lattice (r : ParamRange) : List ℚ := (List.range (⌊r.width⌋₊ + 1)).map r.point

/-- The point above the maximum that the grid takes. -/
def overshoot (r : ParamRange) : List ℚ :=
  if 999 / 1000 ≤ Int.fract r.width then [r.point (⌊r.width⌋₊ + 1)] else []

variable {r : ParamRange}

theorem point_succ (r : ParamRange) (k : ℕ) : r.point (k + 1) = r.point k + r.step := by
  simp only [point]
  push_cast
  ring

theorem point_lt (h : r.Valid) {j k : ℕ} (hjk : j < k) : r.point j < r.point k := by
  have : (j : ℚ) < k := by exact_mod_cast hjk
  have := mul_lt_mul_of_pos_right this h.2
  simp only [point]
  linarith

/-- A point is at most `slack` steps above the maximum when its number is at most
the width and the slack. -/
theorem point_le_iff (h : r.Valid) (k : ℕ) (slack : ℚ) :
    r.point k ≤ r.max + r.step * slack ↔ (k : ℚ) ≤ r.width + slack := by
  have hwidth : r.max = r.min + r.width * r.step := by
    rw [width, div_mul_cancel₀ _ h.2.ne']
    ring
  rw [point, hwidth, ← mul_le_mul_iff_left₀ h.2 (b := (k : ℚ)), add_mul, mul_comm r.step slack,
    add_assoc, add_le_add_iff_left]

theorem width_nonneg (h : r.Valid) : 0 ≤ r.width :=
  div_nonneg (sub_nonneg.mpr h.1) h.2.le

theorem point_le_max_iff (h : r.Valid) (k : ℕ) : r.point k ≤ r.max ↔ k ≤ ⌊r.width⌋₊ := by
  rw [Nat.le_floor_iff (width_nonneg h)]
  simpa using point_le_iff h k 0

theorem mem_lattice (h : r.Valid) {v : ℚ} : v ∈ r.lattice ↔ r.OnLattice v := by
  simp only [lattice, List.mem_map, List.mem_range, Nat.lt_succ_iff]
  constructor
  · rintro ⟨k, hk, rfl⟩
    exact ⟨k, rfl, (point_le_max_iff h k).mpr hk⟩
  · rintro ⟨k, rfl, hk⟩
    exact ⟨k, (point_le_max_iff h k).mp hk, rfl⟩

theorem lattice_ne_nil (r : ParamRange) : r.lattice ≠ [] := by
  simp [lattice]

theorem length_lattice (r : ParamRange) : r.lattice.length = ⌊r.width⌋₊ + 1 := by
  simp [lattice]

theorem overshoot_not_mem (h : r.Valid) : ∀ v ∈ r.overshoot, v ∉ r.lattice := by
  intro v hv hmem
  unfold overshoot at hv
  split at hv
  · rw [List.mem_singleton.mp hv, mem_lattice h] at hmem
    obtain ⟨-, -, hle⟩ := hmem
    have := (point_le_max_iff h _).mp hle
    omega
  · cases hv

/-! ## §2 The values of the grid -/

/-- A pass takes the next point. -/
theorem valuesStep_point (h : r.Valid) (n : ℕ) :
    r.valuesStep (r.point n, (List.range n).map r.point)
      = if (n : ℚ) ≤ r.width + 1 / 1000 then
          some (r.point (n + 1), (List.range (n + 1)).map r.point)
        else none := by
  simp only [valuesStep, point_le_iff h, List.range_succ, List.map_append, List.map_cons,
    List.map_nil, point_succ]

/-- The points that the grid takes. -/
def gridSize (r : ParamRange) : ℕ := ⌊r.width + 1 / 1000⌋₊ + 1

theorem run_valuesStep (h : r.Valid) :
    While.run r.valuesStep r.gridSize (r.min, [])
      = (r.point r.gridSize, (List.range r.gridSize).map r.point) := by
  have hstart : (r.min, ([] : List ℚ)) = (r.point 0, (List.range 0).map r.point) := by
    simp [point]
  rw [hstart]
  refine @While.run_of_trace _ _ (fun n => (r.point n, (List.range n).map r.point)) _ ?_
  intro n hn
  rw [valuesStep_point h, if_pos]
  have hpos : 0 ≤ r.width + 1 / 1000 := by linarith [width_nonneg h]
  exact (Nat.le_floor_iff hpos).mp (Nat.lt_succ_iff.mp hn)

theorem gridSize_le_passes (r : ParamRange) : r.gridSize ≤ r.passes := by
  have hle : ⌊r.width + 1 / 1000⌋₊ ≤ ⌊r.width⌋₊ + 1 := by
    rcases le_total 0 r.width with hpos | hneg
    · rw [← Nat.floor_add_one hpos]
      exact Nat.floor_le_floor (by linarith)
    · exact Nat.floor_le_one_of_le_one (by linarith) |>.trans (by omega)
  exact Nat.succ_le_succ hle

/-- The loop is over after its passes. -/
theorem valuesStep_done (h : r.Valid) :
    r.valuesStep (While.run r.valuesStep r.gridSize (r.min, [])) = none := by
  rw [run_valuesStep h, valuesStep_point h, if_neg]
  rw [not_le, gridSize]
  push_cast
  exact Nat.lt_floor_add_one _

theorem values_eq_points (h : r.Valid) :
    r.values = (List.range r.gridSize).map r.point := by
  rw [values, if_neg (not_le.mpr h.2),
    While.run_eq_of_done (valuesStep_done h) (gridSize_le_passes r), run_valuesStep h]

/-- The grid takes one point more when the last part of a step, to the maximum, is
that of a whole one but for a thousandth. -/
theorem gridSize_eq (h : r.Valid) :
    r.gridSize = if 999 / 1000 ≤ Int.fract r.width then ⌊r.width⌋₊ + 1 + 1
      else ⌊r.width⌋₊ + 1 := by
  have hfloor : r.width = ⌊r.width⌋₊ + Int.fract r.width := by
    rw [natCast_floor_eq_intCast_floor (width_nonneg h), Int.floor_add_fract]
  have hlt := Int.fract_lt_one r.width
  have hnonneg := Int.fract_nonneg r.width
  split
  · rename_i hnear
    have : ⌊r.width + 1 / 1000⌋₊ = ⌊r.width⌋₊ + 1 := by
      rw [Nat.floor_eq_iff (by linarith [width_nonneg h])]
      push_cast
      constructor <;> linarith
    rw [gridSize, this]
  · rename_i hfar
    have : ⌊r.width + 1 / 1000⌋₊ = ⌊r.width⌋₊ := by
      rw [Nat.floor_eq_iff (by linarith [width_nonneg h])]
      constructor <;> linarith
    rw [gridSize, this]

/-- **The grid takes the lattice, and the overshoot.** -/
theorem values_eq (h : r.Valid) : r.values = r.lattice ++ r.overshoot := by
  rw [values_eq_points h, gridSize_eq h, lattice, overshoot]
  split
  · rw [List.range_succ, List.map_append]
    rfl
  · rw [List.append_nil]

theorem values_increasing (h : r.Valid) : r.values.Pairwise (· < ·) := by
  rw [values_eq_points h, List.pairwise_map]
  exact List.pairwise_lt_range.imp fun hjk => point_lt h hjk

/-! ## §3 Random draws -/

theorem maxSteps_nonneg (h : r.Valid) : ¬ ⌊(r.max - r.min) / r.step⌋ < 0 :=
  not_lt.mpr (Int.floor_nonneg.mpr (width_nonneg h))

/-- A draw is a lattice point. -/
theorem randomValues_eq (h : r.Valid) (choices : List ℕ) :
    r.randomValues choices
      = choices.map fun choice => r.point (choice % (⌊r.width⌋₊ + 1)) := by
  rw [randomValues, if_neg (not_le.mpr h.2)]
  simp only [if_neg (maxSteps_nonneg h), randint, Int.floor_toNat]
  rfl

/-- **The draws are the lattice points.** -/
theorem mem_randomValues (h : r.Valid) {v : ℚ} :
    (∃ choices, v ∈ r.randomValues choices) ↔ v ∈ r.lattice := by
  simp only [randomValues_eq h, lattice, List.mem_map, List.mem_range]
  constructor
  · rintro ⟨choices, choice, -, rfl⟩
    exact ⟨_, Nat.mod_lt _ (Nat.succ_pos _), rfl⟩
  · rintro ⟨k, hk, rfl⟩
    exact ⟨[k], k, List.mem_singleton_self k, by rw [Nat.mod_eq_of_lt hk]⟩

theorem rangeCount_eq (h : r.Valid) : r.rangeCount = r.lattice.length := by
  rw [rangeCount, if_neg (not_le.mpr h.2), if_neg (not_lt.mpr h.1), length_lattice,
    ← Int.floor_toNat]
  have := not_lt.mp (maxSteps_nonneg h)
  exact Int.toNat_add this (by norm_num)

/-! ## §4 One range, three formulas -/

/-- The loop of the grid ends; its values are the lattice, in increasing order; they
are what random search draws, and as many as are counted. -/
structure Explored (r : ParamRange) : Prop where
  done : r.valuesStep (While.run r.valuesStep r.passes (r.min, [])) = none
  lattice : ∀ v, v ∈ r.values ↔ r.OnLattice v
  increasing : r.values.Pairwise (· < ·)
  drawn : ∀ v, v ∈ r.values ↔ ∃ choices, v ∈ r.randomValues choices
  counted : r.values.length = r.rangeCount

/-- The part of a step that the lattice misses the maximum by is not within a
thousandth of a whole one. -/
def Clear (r : ParamRange) : Prop := Int.fract ((r.max - r.min) / r.step) < 999 / 1000

theorem overshoot_eq_nil_iff : r.overshoot = [] ↔ r.Clear := by
  unfold overshoot Clear
  rw [← not_le]
  split <;> simp_all [width]

theorem explored_iff (h : r.Valid) : r.Explored ↔ r.Clear := by
  rw [← overshoot_eq_nil_iff]
  constructor
  · intro hexplored
    refine List.eq_nil_iff_forall_not_mem.mpr fun v hv => ?_
    refine overshoot_not_mem h v hv ((mem_lattice h).mpr ((hexplored.lattice v).mp ?_))
    rw [values_eq h]
    exact List.mem_append_right _ hv
  · intro hnil
    have hvalues : r.values = r.lattice := by rw [values_eq h, hnil, List.append_nil]
    exact
      { done := by
          rw [While.run_eq_of_done (valuesStep_done h) (gridSize_le_passes r)]
          exact valuesStep_done h
        lattice := fun v => by rw [hvalues, mem_lattice h]
        increasing := values_increasing h
        drawn := fun v => by rw [mem_randomValues h, hvalues]
        counted := by rw [hvalues, rangeCount_eq h] }

end ParamRange

/-! ## §5 Combinations -/

@[simp] theorem number_normalised (step value : ℚ) : (normalised step value).number = value := by
  unfold normalised
  split
  · rename_i h
    exact h.2.symm
  · rfl

variable {ranges : List (String × ParamRange)}

/-- The ranges of a request that the parser lets through. -/
def AllValid (ranges : List (String × ParamRange)) : Prop := ∀ r ∈ ranges, r.2.Valid

theorem generateCombinations_eq (ranges : List (String × ParamRange)) :
    generateCombinations ranges
      = (product (ranges.map fun r => r.2.values)).map (paramsOf ranges) := by
  unfold generateCombinations
  split
  · rename_i hnil
    subst hnil
    rfl
  · rfl

/-- The values of a combination are its key. -/
theorem key_paramsOf {combo : List ℚ} (h : combo.length = ranges.length) :
    (paramsOf ranges combo).key = combo := by
  induction ranges generalizing combo with
  | nil => simp_all [paramsOf, Params.key]
  | cons r ranges ih =>
      obtain ⟨value, combo, rfl⟩ := List.exists_cons_of_length_eq_add_one h
      have := ih (Nat.succ.inj h)
      simp_all [paramsOf, Params.key]

/-- What holds of every value of a combination holds of the combination. -/
theorem forall₂_paramsOf {P : ParamRange → ℚ → Prop} {combo : List ℚ} :
    List.Forall₂ (fun v (r : String × ParamRange) => P r.2 v) combo ranges ↔
      combo.length = ranges.length ∧
        List.Forall₂ (fun p (r : String × ParamRange) => p.1 = r.1 ∧ P r.2 p.2.number)
          (paramsOf ranges combo) ranges := by
  induction ranges generalizing combo with
  | nil => cases combo <;> simp [paramsOf]
  | cons r ranges ih =>
      cases combo with
      | nil => simp
      | cons value combo =>
          have := @ih combo
          simp_all [paramsOf]
          tauto

/-- The values that an attempt draws. -/
def drawnValues : List (String × ParamRange) → (ℕ → ℕ) → List ℚ
  | [], _ => []
  | r :: ranges, choices =>
      r.2.point (choices 0 % (⌊r.2.width⌋₊ + 1)) :: drawnValues ranges fun i => choices (i + 1)

theorem drawParams_eq (h : AllValid ranges) (choices : ℕ → ℕ) :
    drawParams ranges choices = some (paramsOf ranges (drawnValues ranges choices)) := by
  induction ranges generalizing choices with
  | nil => rfl
  | cons r ranges ih =>
      obtain ⟨hr, hrest⟩ := List.forall_mem_cons.mp h
      simp [drawParams, ParamRange.randomValues_eq hr, ih hrest, drawnValues, paramsOf]

/-- **An attempt can draw every combination of lattice points, and no other.** -/
theorem exists_drawnValues {combo : List ℚ} :
    (∃ choices, drawnValues ranges choices = combo) ↔
      combo ∈ product (ranges.map fun r => r.2.lattice) := by
  rw [mem_product, List.forall₂_map_right_iff]
  induction ranges generalizing combo with
  | nil => simp [drawnValues, eq_comm]
  | cons r ranges ih =>
      constructor
      · rintro ⟨choices, rfl⟩
        refine .cons ?_ (ih.mp ⟨_, rfl⟩)
        exact List.mem_map_of_mem (List.mem_range.mpr (Nat.mod_lt _ (Nat.succ_pos _)))
      · rintro (_ | ⟨hvalue, hcombo⟩)
        obtain ⟨k, hk, rfl⟩ := List.mem_map.mp hvalue
        obtain ⟨choices, rfl⟩ := ih.mpr hcombo
        refine ⟨fun i => if i = 0 then k else choices (i - 1), ?_⟩
        simp [drawnValues, Nat.mod_eq_of_lt (List.mem_range.mp hk)]

/-- The combination takes a lattice point of each range. -/
def OnLattice (ranges : List (String × ParamRange)) (params : Params) : Prop :=
  List.Forall₂ (fun p r => p.1 = r.1 ∧ r.2.OnLattice p.2.number) params ranges

/-- No value of the combination is above the maximum of its range. -/
def WithinMaximum (ranges : List (String × ParamRange)) (params : Params) : Prop :=
  List.Forall₂ (fun p r => p.1 = r.1 ∧ p.2.number ≤ r.2.max) params ranges

theorem OnLattice.withinMaximum {params : Params} (h : OnLattice ranges params) :
    WithinMaximum ranges params := by
  refine h.imp fun p r => ?_
  rintro ⟨hname, _, -, hle⟩
  exact ⟨hname, hle⟩

/-- The combinations of lattice points, in the order of the enumeration. -/
def latticeCombinations (ranges : List (String × ParamRange)) : List (List ℚ) :=
  product (ranges.map fun r => r.2.lattice)

theorem drawnValues_mem (ranges : List (String × ParamRange)) (choices : ℕ → ℕ) :
    drawnValues ranges choices ∈ latticeCombinations ranges :=
  exists_drawnValues.mp ⟨choices, rfl⟩

theorem length_of_mem_lattice {combo : List ℚ} (h : combo ∈ latticeCombinations ranges) :
    combo.length = ranges.length := by
  rw [latticeCombinations, mem_product] at h
  simpa using h.length_eq

theorem onLattice_paramsOf (h : AllValid ranges) {combo : List ℚ}
    (hlength : combo.length = ranges.length) :
    OnLattice ranges (paramsOf ranges combo) ↔ combo ∈ latticeCombinations ranges := by
  rw [latticeCombinations, mem_product, List.forall₂_map_right_iff]
  have hpoints : List.Forall₂ (fun v (r : String × ParamRange) => v ∈ r.2.lattice) combo ranges
      ↔ List.Forall₂ (fun v (r : String × ParamRange) => r.2.OnLattice v) combo ranges :=
    forall₂_congr_of_mem fun r hr v => ParamRange.mem_lattice (h r hr)
  rw [hpoints, forall₂_paramsOf, and_iff_right hlength, OnLattice]

/-- What the two searches explore, range by range and as combinations. -/
structure SearchesAgree (ranges : List (String × ParamRange)) : Prop where
  each : ∀ r ∈ ranges, r.2.Explored
  combinations : ∀ params, params ∈ generateCombinations ranges ↔
    ∃ choices, drawParams ranges choices = some params
  maximum : ∀ params ∈ generateCombinations ranges, WithinMaximum ranges params

/-- **Grid search and random search explore the same lattice, and keep to the
declared maxima, exactly when no lattice misses its maximum by a thousandth of a step
or less.** -/
theorem searches_agree_iff (h : AllValid ranges) :
    SearchesAgree ranges ↔ ∀ r ∈ ranges, r.2.Clear := by
  constructor
  · exact fun hagree r hr => (ParamRange.explored_iff (h r hr)).mp (hagree.each r hr)
  · intro hclear
    have hvalues : ranges.map (fun r => r.2.values) = ranges.map fun r => r.2.lattice := by
      refine List.map_congr_left fun r hr => ?_
      rw [ParamRange.values_eq (h r hr), ParamRange.overshoot_eq_nil_iff.mpr (hclear r hr),
        List.append_nil]
    have hgrid : generateCombinations ranges
        = (latticeCombinations ranges).map (paramsOf ranges) := by
      rw [generateCombinations_eq, hvalues, latticeCombinations]
    refine
      { each := fun r hr => (ParamRange.explored_iff (h r hr)).mpr (hclear r hr)
        combinations := fun params => ?_
        maximum := fun params hparams => ?_ }
    · rw [hgrid, List.mem_map]
      constructor
      · rintro ⟨combo, hcombo, rfl⟩
        obtain ⟨choices, rfl⟩ := exists_drawnValues.mpr hcombo
        exact ⟨choices, drawParams_eq h choices⟩
      · rintro ⟨choices, hdraw⟩
        rw [drawParams_eq h, Option.some.injEq] at hdraw
        exact ⟨_, drawnValues_mem ranges choices, hdraw⟩
    · rw [hgrid] at hparams
      obtain ⟨combo, hcombo, rfl⟩ := List.mem_map.mp hparams
      exact ((onLattice_paramsOf h (length_of_mem_lattice hcombo)).mpr hcombo).withinMaximum

/-- A lattice that ends at the maximum. -/
theorem searches_agree_tens :
    SearchesAgree [("fast_period", ⟨10, 50, 10⟩)] := by
  have hvalid : AllValid [("fast_period", ⟨10, 50, 10⟩)] := by
    norm_num [AllValid, ParamRange.Valid]
  refine (searches_agree_iff hvalid).mpr ?_
  norm_num [ParamRange.Clear]

/-- A range from `0` to `2.9995` in steps of `1`: the grid takes `3`. -/
theorem grid_exceeds_maximum :
    ¬ SearchesAgree [("threshold", ⟨0, 29995 / 10000, 1⟩)] := by
  intro hagree
  have hlattice := (hagree.each _ (List.mem_singleton_self _)).lattice 3
  obtain ⟨-, -, hle⟩ := hlattice.mp (by decide +kernel)
  norm_num at hle

/-! ## §6 Random search -/

/-- The number of lattice points of the ranges. -/
def latticeSize (ranges : List (String × ParamRange)) : ℕ := (latticeCombinations ranges).length

/-- What the random combinations promise: distinct combinations of lattice points, no
more than asked for and at most a hundred, and all of these when the lattice has at
most a hundred points. -/
structure RandomSound (ranges : List (String × ParamRange)) (count : ℕ)
    (combinations : List Params) : Prop where
  distinct : (combinations.map Params.key).Nodup
  onLattice : ∀ params ∈ combinations, OnLattice ranges params
  atMost : combinations.length ≤ min (min count 100) (latticeSize ranges)
  complete : latticeSize ranges ≤ 100 →
    combinations.length = min (min count 100) (latticeSize ranges)

/-- The place, in the enumeration of the grid, of the first combination that is not one
of lattice points. -/
def firstStray (ranges : List (String × ParamRange)) : Option ℕ :=
  strayAt (fun r => r.2.lattice) (fun r => r.2.overshoot) ranges

theorem maxUnique_eq (h : AllValid ranges) :
    (ranges.map fun r => r.2.rangeCount).prod = latticeSize ranges := by
  rw [latticeSize, latticeCombinations, length_product, List.map_map]
  exact congrArg List.prod (List.map_congr_left fun r hr => ParamRange.rangeCount_eq (h r hr))

theorem latticeSize_pos (ranges : List (String × ParamRange)) : 0 < latticeSize ranges := by
  refine List.length_pos_of_ne_nil (product_ne_nil fun xs hxs => ?_)
  obtain ⟨r, -, rfl⟩ := List.mem_map.mp hxs
  exact r.2.lattice_ne_nil

theorem grid_values (h : AllValid ranges) :
    ranges.map (fun r => r.2.values)
      = ranges.map fun r => r.2.lattice ++ r.2.overshoot :=
  List.map_congr_left fun r hr => ParamRange.values_eq (h r hr)

/-- The keys of the grid are the choices of a value of each range. -/
theorem keys_generateCombinations (ranges : List (String × ParamRange)) :
    (generateCombinations ranges).map Params.key
      = product (ranges.map fun r => r.2.values) := by
  rw [generateCombinations_eq, List.map_map]
  conv_rhs => rw [← List.map_id (product _)]
  refine List.map_congr_left fun combo hcombo => key_paramsOf ?_
  rw [mem_product] at hcombo
  simpa using hcombo.length_eq

theorem keys_nodup (h : AllValid ranges) :
    ((generateCombinations ranges).map Params.key).Nodup := by
  rw [keys_generateCombinations]
  refine nodup_product fun xs hxs => ?_
  obtain ⟨r, hr, rfl⟩ := List.mem_map.mp hxs
  exact (ParamRange.values_increasing (h r hr)).imp fun hlt => hlt.ne

/-- The combinations of the grid before the first stray one are lattice points. -/
theorem onLattice_of_mem_take (h : AllValid ranges) {n : ℕ}
    (hn : ∀ stray, firstStray ranges = some stray → n ≤ stray) {params : Params}
    (hparams : params ∈ (generateCombinations ranges).take n) : OnLattice ranges params := by
  rw [generateCombinations_eq, ← List.map_take, grid_values h] at hparams
  obtain ⟨combo, hcombo, rfl⟩ := List.mem_map.mp hparams
  have hmem : combo ∈ latticeCombinations ranges := by
    rcases hstray : firstStray ranges with _ | stray
    · rw [product_of_strayAt_none hstray] at hcombo
      exact List.mem_of_mem_take hcombo
    · refine (product_stray (fun r _ => r.2.lattice_ne_nil)
        (fun r hr => ParamRange.overshoot_not_mem (h r hr)) hstray).2.1 combo ?_
      exact List.take_subset_take_left _ (hn stray hstray) hcombo
  exact (onLattice_paramsOf h (length_of_mem_lattice hmem)).mpr hmem

/-- The first stray combination is in the grid and is none of lattice points. -/
theorem exists_stray (h : AllValid ranges) {stray : ℕ} (hstray : firstStray ranges = some stray) :
    0 < stray ∧ ∃ params, (generateCombinations ranges)[stray]? = some params ∧
      ¬ OnLattice ranges params := by
  obtain ⟨hpos, -, combo, hget, hnot⟩ := product_stray (fun r _ => r.2.lattice_ne_nil)
    (fun r hr => ParamRange.overshoot_not_mem (h r hr)) hstray
  rw [← grid_values h] at hget
  have hlength : combo.length = ranges.length := by
    have hmem := mem_product.mp (List.mem_of_getElem? hget)
    simpa using hmem.length_eq
  refine ⟨hpos, paramsOf ranges combo, ?_, ?_⟩
  · rw [generateCombinations_eq, List.getElem?_map, hget]
    rfl
  · exact fun hlattice => hnot ((onLattice_paramsOf h hlength).mp hlattice)

/-- The grid has at least the lattice points. -/
theorem latticeSize_le_length (h : AllValid ranges) :
    latticeSize ranges ≤ (generateCombinations ranges).length := by
  rw [generateCombinations_eq, List.length_map, latticeSize, latticeCombinations]
  refine (List.subperm_of_subset ?_ fun combo hcombo => ?_).length_le
  · refine nodup_product fun xs hxs => ?_
    obtain ⟨r, hr, rfl⟩ := List.mem_map.mp hxs
    have hvalues := ParamRange.values_increasing (h r hr)
    rw [ParamRange.values_eq (h r hr)] at hvalues
    exact (List.pairwise_append.mp hvalues).1.imp fun hlt => hlt.ne
  · rw [mem_product, List.forall₂_map_right_iff] at hcombo
    rw [grid_values h, mem_product, List.forall₂_map_right_iff]
    exact hcombo.imp fun v r hv => List.mem_append_left _ hv

/-- An attempt offers its draws. -/
theorem sampleLoop_of_room (h : AllValid ranges) {target attempts : ℕ} {choices : ℕ → ℕ → ℕ}
    {sample : Distinct Params.key} (hroom : sample.items.length < target) :
    sampleLoop ranges target (attempts + 1) choices sample
      = sampleLoop ranges target attempts (fun i => choices (i + 1))
          (sample.offer (paramsOf ranges (drawnValues ranges (choices 0)))) := by
  rw [sampleLoop, if_pos hroom, drawParams_eq h]

/-- **The attempts keep to the lattice and to the target, whatever is drawn.** -/
theorem sampleLoop_sound (h : AllValid ranges) (target attempts : ℕ) (choices : ℕ → ℕ → ℕ)
    (sample : Distinct Params.key) (hsample : ∀ params ∈ sample.items, OnLattice ranges params)
    (hlength : sample.items.length ≤ target) :
    ∃ sampled, sampleLoop ranges target attempts choices sample = .ok sampled ∧
      (∀ params ∈ sampled.items, OnLattice ranges params) ∧ sampled.items.length ≤ target := by
  induction attempts generalizing choices sample with
  | zero => exact ⟨sample, rfl, hsample, hlength⟩
  | succ attempts ih =>
      by_cases hroom : sample.items.length < target
      · rw [sampleLoop_of_room h hroom]
        have hdrawn : OnLattice ranges (paramsOf ranges (drawnValues ranges (choices 0))) := by
          have hmem := drawnValues_mem ranges (choices 0)
          exact (onLattice_paramsOf h (length_of_mem_lattice hmem)).mpr hmem
        refine ih _ _ ?_ ?_
        · rcases sample.offer_items (paramsOf ranges (drawnValues ranges (choices 0)))
            with hitems | hitems
          · rwa [hitems]
          · rw [hitems]
            simpa [or_imp, forall_and] using ⟨hsample, hdrawn⟩
        · rcases sample.offer_items (paramsOf ranges (drawnValues ranges (choices 0)))
            with hitems | hitems
          · rwa [hitems]
          · rw [hitems, List.length_append, List.length_singleton]
            omega
      · exact ⟨sample, if_neg hroom, hsample, hlength⟩

/-- Random search on some ranges, past its early returns. -/
theorem generateRandomCombinations_eq (h : AllValid ranges) (hne : ranges ≠ []) (count : ℕ)
    (choices : ℕ → ℕ → ℕ) {sampled : Distinct Params.key}
    (hsampled : sampleLoop ranges (min (min count 100) (latticeSize ranges))
      (max 100 (min (min count 100) (latticeSize ranges) * 20)) choices (Distinct.empty _)
        = .ok sampled) :
    generateRandomCombinations ranges count choices =
      if sampled.items.length < min (min count 100) (latticeSize ranges)
          ∧ latticeSize ranges ≤ 100 then
        (sampled.fillUp (min (min count 100) (latticeSize ranges))
          (generateCombinations ranges)).items
      else sampled.items := by
  have hpos := (latticeSize_pos ranges).ne'
  simp only [generateRandomCombinations, if_neg hne, maxUnique_eq h, if_neg hpos,
    maxCombinations, ← min_assoc, hsampled]

/-- The attempts that draw the same values again and again. -/
theorem sampleLoop_constant (h : AllValid ranges) (target attempts : ℕ) (choices : ℕ → ℕ)
    {sample : Distinct Params.key}
    (hseen : (paramsOf ranges (drawnValues ranges choices)).key ∈ sample.seen) :
    sampleLoop ranges target attempts (fun _ => choices) sample = .ok sample := by
  induction attempts with
  | zero => rfl
  | succ attempts ih =>
      by_cases hroom : sample.items.length < target
      · rw [sampleLoop_of_room h hroom, Distinct.offer_of_seen hseen]
        exact ih
      · exact if_neg hroom

/-- The first combination of the grid is drawn by the lowest choices. -/
theorem generateCombinations_head (h : AllValid ranges) :
    ∃ rest, generateCombinations ranges
      = paramsOf ranges (drawnValues ranges fun _ => 0) :: rest := by
  have hhead : ∃ rest, product (ranges.map fun r => r.2.values)
      = drawnValues ranges (fun _ => 0) :: rest := by
    induction ranges with
    | nil => exact ⟨[], rfl⟩
    | cons r ranges ih =>
        obtain ⟨hr, hrest⟩ := List.forall_mem_cons.mp h
        obtain ⟨rest, hrest⟩ := ih hrest
        have hvalues : r.2.values
            = r.2.point 0 :: ((List.range ⌊r.2.width + 1 / 1000⌋₊).map fun k =>
                r.2.point (k + 1)) := by
          rw [ParamRange.values_eq_points hr, ParamRange.gridSize, List.range_succ_eq_map]
          simp [Function.comp_def]
        rw [List.map_cons, product_cons, hvalues, List.flatMap_cons, hrest]
        have hdrawn : drawnValues (r :: ranges) (fun _ => 0)
            = r.2.point 0 :: drawnValues ranges fun _ => 0 := by
          rw [drawnValues, Nat.zero_mod]
        rw [hdrawn]
        exact ⟨_, rfl⟩
  obtain ⟨rest, hrest⟩ := hhead
  exact ⟨rest.map (paramsOf ranges), by rw [generateCombinations_eq, hrest, List.map_cons]⟩

/-- Without ranges the one empty combination is drawn. -/
theorem randomSound_nil {count : ℕ} (hcount : 1 ≤ count) (choices : ℕ → ℕ → ℕ) :
    RandomSound [] count (generateRandomCombinations [] count choices) where
  distinct := by simp [generateRandomCombinations]
  onLattice := by simp [generateRandomCombinations, OnLattice]
  atMost := by
    rw [show latticeSize [] = 1 from rfl]
    simp [generateRandomCombinations]
    omega
  complete := fun _ => by
    rw [show latticeSize [] = 1 from rfl]
    simp [generateRandomCombinations]
    omega

/-- A stray combination among the first ones of a small grid is returned, when the
lowest choices come again and again. -/
theorem exists_stray_drawn (h : AllValid ranges) {count stray : ℕ}
    (hsmall : latticeSize ranges ≤ 100) (hstray : firstStray ranges = some stray)
    (hlt : stray < min (min count 100) (latticeSize ranges)) :
    ∃ params ∈ generateRandomCombinations ranges count fun _ _ => 0,
      ¬ OnLattice ranges params := by
  set target := min (min count 100) (latticeSize ranges) with htarget
  obtain ⟨hpos, params, hget, hoff⟩ := exists_stray h hstray
  have hne : ranges ≠ [] := by
    rintro rfl
    cases hstray
  obtain ⟨rest, hgrid⟩ := generateCombinations_head h
  set first := paramsOf ranges (drawnValues ranges fun _ => 0)
  have hempty : first.key ∉ (Distinct.empty Params.key).seen := by simp
  -- one combination is drawn, and the rest is left to the grid
  have hloop : sampleLoop ranges target (max 100 (target * 20)) (fun _ _ => 0)
      (Distinct.empty _) = .ok ((Distinct.empty _).add first hempty) := by
    obtain ⟨attempts, hattempts⟩ : ∃ attempts, max 100 (target * 20) = attempts + 1 :=
      ⟨max 100 (target * 20) - 1, by omega⟩
    rw [hattempts, sampleLoop_of_room h (by simp; omega), Distinct.offer_of_unseen hempty]
    exact sampleLoop_constant h _ _ _ (by simp [first])
  have hresult := generateRandomCombinations_eq h hne count _ hloop
  rw [if_pos ⟨by simp; omega, hsmall⟩, hgrid, Distinct.fillUp_first
    (hgrid ▸ keys_nodup h) (by simp) (by omega), ← hgrid] at hresult
  refine ⟨params, ?_, hoff⟩
  rw [hresult]
  refine List.mem_of_getElem? (i := stray) ?_
  rw [List.getElem?_take_of_lt (by omega), hget]

/-- Without a stray combination among those that are completed from the grid, random
search is sound. -/
theorem randomSound_of_strays_late (h : AllValid ranges) (hne : ranges ≠ []) {count : ℕ}
    (hstray : latticeSize ranges ≤ 100 → ∀ stray, firstStray ranges = some stray →
      min (min count 100) (latticeSize ranges) ≤ stray) (choices : ℕ → ℕ → ℕ) :
    RandomSound ranges count (generateRandomCombinations ranges count choices) := by
  set target := min (min count 100) (latticeSize ranges) with htarget
  obtain ⟨sampled, hloop, hlattice, hlength⟩ := sampleLoop_sound h target
    (max 100 (target * 20)) choices (Distinct.empty _) (by simp) (by simp)
  have hresult := generateRandomCombinations_eq h hne count choices hloop
  rw [hresult]
  split
  · rename_i hfill
    have hgrid : target ≤ (generateCombinations ranges).length :=
      (min_le_right _ _).trans (latticeSize_le_length h)
    have hfilled := Distinct.length_fillUp (keys_nodup h) hfill.1 hgrid
    exact
      { distinct := Distinct.nodup_keys _
        onLattice := fun params hparams => by
          rcases Distinct.mem_fillUp_prefix (keys_nodup h) hfill.1 hgrid hparams
            with hold | hnew
          · exact hlattice params hold
          · exact onLattice_of_mem_take h (hstray hfill.2) hnew
        atMost := hfilled.le
        complete := fun _ => hfilled }
  · rename_i hfull
    exact
      { distinct := Distinct.nodup_keys _
        onLattice := hlattice
        atMost := hlength
        complete := fun hsmall => by
          rw [not_and_or, not_lt] at hfull
          exact le_antisymm hlength (hfull.resolve_right (not_not.mpr hsmall)) }

/-- **Random search returns distinct combinations of lattice points, as many as it
should, whatever is drawn, exactly when there is a parameter or a combination is asked
for, and a small lattice is not completed as far as the first stray combination.** -/
theorem random_combinations_sound_iff (h : AllValid ranges) (count : ℕ) :
    (∀ choices, RandomSound ranges count (generateRandomCombinations ranges count choices)) ↔
      (ranges = [] → 1 ≤ count) ∧
      (latticeSize ranges ≤ 100 → ∀ stray, firstStray ranges = some stray →
        min (min count 100) (latticeSize ranges) ≤ stray) := by
  constructor
  · intro hsound
    refine ⟨fun hnil => ?_, fun hsmall stray hstray => ?_⟩
    · subst hnil
      have := (hsound fun _ _ => 0).atMost
      simp [generateRandomCombinations] at this
      omega
    · by_contra hlt
      obtain ⟨params, hmem, hoff⟩ := exists_stray_drawn h hsmall hstray (not_le.mp hlt)
      exact hoff ((hsound fun _ _ => 0).onLattice params hmem)
  · rintro ⟨hcount, hstray⟩ choices
    rcases eq_or_ne ranges [] with rfl | hne
    · exact randomSound_nil (hcount rfl) choices
    · exact randomSound_of_strays_late h hne hstray choices

/-- Six combinations, none of them stray, and three asked for. -/
theorem random_combinations_sound_six :
    firstStray [("fast", ⟨5, 15, 5⟩), ("threshold", ⟨0, 1, 3 / 5⟩)] = none ∧
      ∀ choices, RandomSound [("fast", ⟨5, 15, 5⟩), ("threshold", ⟨0, 1, 3 / 5⟩)] 3
        (generateRandomCombinations
          [("fast", ⟨5, 15, 5⟩), ("threshold", ⟨0, 1, 3 / 5⟩)] 3 choices) := by
  have hvalid : AllValid [("fast", ⟨5, 15, 5⟩), ("threshold", ⟨0, 1, 3 / 5⟩)] := by
    norm_num [AllValid, ParamRange.Valid]
  have hnone : firstStray [("fast", ⟨5, 15, 5⟩), ("threshold", ⟨0, 1, 3 / 5⟩)] = none := by
    decide +kernel
  refine ⟨hnone, (random_combinations_sound_iff hvalid 3).mpr
    ⟨nofun, fun _ stray hstray => ?_⟩⟩
  rw [hnone] at hstray
  cases hstray

/-- The ranges `0` to `1` and `0` to `0.9995`, in steps of `1`, and two combinations
asked for: attempts that always draw `(0, 0)` are completed with `(0, 1)`. -/
theorem random_combinations_off_lattice :
    ¬ ∀ choices, RandomSound [("fast", ⟨0, 1, 1⟩), ("threshold", ⟨0, 9995 / 10000, 1⟩)] 2
      (generateRandomCombinations
        [("fast", ⟨0, 1, 1⟩), ("threshold", ⟨0, 9995 / 10000, 1⟩)] 2 choices) := by
  intro hsound
  have hstray := (hsound fun _ _ => 0).onLattice [("fast", .int 0), ("threshold", .int 1)]
    (by decide +kernel)
  rcases hstray with _ | ⟨-, _ | ⟨⟨-, _, -, hle⟩, -⟩⟩
  norm_num [ParamValue.number] at hle

end Finbar.Optimization
