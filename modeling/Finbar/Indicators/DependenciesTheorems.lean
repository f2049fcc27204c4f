/-
Finbar.Indicators.DependenciesTheorems — the expansion is the least set of indicators
that has the requested ones and their dependencies, and the sort lists it with every
indicator after its dependencies.

The raw columns are in no expansion: they are neither requested nor followed
(`isLeast_expandTransitiveDeps`). The sort ends after as many passes as there are
names, and is a permutation also when dependencies form a cycle
(`topologicalSort_perm`); without a cycle every name comes after the names it
requires (`topologicalSort_depsFirst`).

No `sorry`, no `axiom`.
-/
import Finbar.Indicators.Dependencies

namespace Finbar.Indicators

open Lib

variable {handlers : HandlerTable} {names : List String}

/-! ## §1 The expansion -/

/-- A dependency that is followed is required by some handler of the table. -/
theorem mem_dependencies_of_followed {name dep : String} (h : dep ∈ followed handlers name) :
    dep ∈ (handlers.items.flatMap Prod.snd).toFinset := by
  have hrequires : dep ∈ requiresOf handlers name := (List.mem_filter.mp h).1
  unfold requiresOf at hrequires
  cases hentry : handlers.get name with
  | none => simp [hentry] at hrequires
  | some requires =>
      rw [hentry] at hrequires
      exact List.mem_toFinset.mpr (List.mem_flatMap.mpr
        ⟨(name, requires), OrderedDict.mem_of_get hentry, hrequires⟩)

/-- **The loop of the expansion ends.** -/
theorem expandLoop_done (handlers : HandlerTable) (names : List String) :
    Worklist.pass (followed handlers) (expandLoop handlers names) = none := by
  refine Worklist.done_of_fuel (fun _ _ h => mem_dependencies_of_followed h) ?_
  exact Nat.add_le_add_left (List.toFinset_card_le _) _

/-- The sets of names that have the requested ones and their dependencies, but for the
raw columns. -/
def dependencySets (handlers : HandlerTable) (names : List String) : Set (Set String) :=
  {S | (∀ name ∈ names, name ∉ rawBarColumns → name ∈ S)
    ∧ ∀ name ∈ S, ∀ dep ∈ requiresOf handlers name, dep ∉ rawBarColumns → dep ∈ S}

theorem closedSets_followed (handlers : HandlerTable) (names : List String) :
    Worklist.closedSets (followed handlers) (requested names) = dependencySets handlers names := by
  unfold Worklist.closedSets dependencySets followed requested
  simp only [List.mem_filter, decide_eq_true_eq, and_imp]

/-- **The expansion is the least such set.** -/
theorem isLeast_expandTransitiveDeps (handlers : HandlerTable) (names : List String) :
    IsLeast (dependencySets handlers names)
      {name | name ∈ expandTransitiveDeps handlers names} := by
  rw [← closedSets_followed]
  exact Worklist.isLeast_found (expandLoop_done handlers names)

/-! ## §2 Edges -/

/-- The edges that the sort counts, in the order in which it does. -/
def edges (handlers : HandlerTable) (names : List String) : List (String × String) :=
  names.flatMap fun name =>
    ((requiresOf handlers name).filter fun dep => decide (dep ∈ names)).map fun dep => (dep, name)

theorem mem_edges {dep name : String} :
    (dep, name) ∈ edges handlers names
      ↔ name ∈ names ∧ dep ∈ names ∧ dep ∈ requiresOf handlers name := by
  simp only [edges, List.mem_flatMap, List.mem_map, List.mem_filter, decide_eq_true_eq,
    Prod.mk.injEq]
  constructor
  · rintro ⟨name', hname, dep', ⟨hrequires, hdep⟩, rfl, rfl⟩
    exact ⟨hname, hdep, hrequires⟩
  · rintro ⟨hname, hdep, hrequires⟩
    exact ⟨name, hname, dep, ⟨hrequires, hdep⟩, rfl, rfl⟩

theorem degrees_eq (handlers : HandlerTable) (names : List String) :
    degrees handlers names
      = (edges handlers names).foldl (fun d edge => d.count edge.1 edge.2) {} := by
  unfold degrees edges
  rw [List.foldl_flatMap]
  simp only [List.foldl_map, List.foldl_filter, decide_eq_true_eq]
  rfl

theorem adjacency_foldl (counted : List (String × String)) (d : Degrees) :
    (counted.foldl (fun d edge => d.count edge.1 edge.2) d).adjacency
      = counted.foldl (fun adjacency edge => adjacency.append edge.1 edge.2) d.adjacency := by
  induction counted generalizing d with
  | nil => rfl
  | cons edge counted ih => exact ih (d.count edge.1 edge.2)

/-- The adjacency of a name lists its dependents. -/
theorem adjacency_degrees (handlers : HandlerTable) (names : List String) (node : String) :
    ((degrees handlers names).adjacency.get node).getD []
      = Kahn.dependents (edges handlers names) node := by
  rw [degrees_eq, adjacency_foldl]
  exact OrderedDict.get_collect (edges handlers names) node

theorem degreeOf_foldl (counted : List (String × String)) (d : Degrees) (name : String) :
    Kahn.degreeOf (counted.foldl (fun d edge => d.count edge.1 edge.2) d).inDegree name
      = Kahn.degreeOf d.inDegree name + Kahn.unmet counted [] name := by
  induction counted generalizing d with
  | nil => exact (Int.add_zero _).symm
  | cons edge counted ih =>
      rw [List.foldl_cons, ih, Degrees.count, Kahn.degreeOf_assign, Kahn.unmet, Kahn.unmet,
        List.countP_cons]
      by_cases h : edge.2 = name
      · simp [h]
        omega
      · simp [h]

/-- The degree of a name counts its dependencies. -/
theorem degreeOf_degrees (handlers : HandlerTable) (names : List String) (name : String) :
    Kahn.degreeOf (degrees handlers names).inDegree name
      = Kahn.unmet (edges handlers names) [] name := by
  rw [degrees_eq, degreeOf_foldl]
  exact Int.zero_add _

theorem start_sortStart (handlers : HandlerTable) (names : List String) :
    Kahn.Start names (edges handlers names) (sortStart handlers names) where
  sorted := rfl
  degree := degreeOf_degrees handlers names
  queue := rfl

theorem sortPass_eq (handlers : HandlerTable) (names : List String) :
    sortPass handlers names = Kahn.pass (Kahn.dependents (edges handlers names)) :=
  congrArg Kahn.pass (funext (adjacency_degrees handlers names))

/-! ## §3 The sort -/

theorem targets_mem : ∀ edge ∈ edges handlers names, edge.2 ∈ names :=
  fun _ hedge => (mem_edges.mp hedge).1

theorem sources_mem : ∀ edge ∈ edges handlers names, edge.1 ∈ names :=
  fun _ hedge => (mem_edges.mp hedge).2.1

/-- **The loop of the sort ends.** -/
theorem sortLoop_done (handlers : HandlerTable) (hnames : names.Nodup) :
    sortPass handlers names (sortLoop handlers names) = none := by
  unfold sortLoop
  rw [sortPass_eq]
  exact Kahn.done_of_fuel (start_sortStart handlers names) hnames targets_mem (Nat.le_refl _)

/-- **The sort is a permutation**, with cycles and without. -/
theorem topologicalSort_perm (handlers : HandlerTable) (hnames : names.Nodup) :
    (topologicalSort handlers names).Perm names := by
  unfold topologicalSort
  split
  · exact .refl names
  · unfold sortLoop
    rw [sortPass_eq]
    exact Kahn.complete_perm (start_sortStart handlers names) hnames targets_mem names.length

/-- No name depends on itself, by any chain of names. -/
def AcyclicAmong (handlers : HandlerTable) (names : List String) : Prop :=
  ∀ name, ¬ Relation.TransGen
    (fun dep name => name ∈ names ∧ dep ∈ names ∧ dep ∈ requiresOf handlers name) name name

theorem acyclic_edges (h : AcyclicAmong handlers names) :
    Kahn.Acyclic (edges handlers names) := by
  unfold Kahn.Acyclic
  simp only [mem_edges]
  exact h

/-- **Without a cycle** every name comes after the names that it requires. -/
theorem topologicalSort_depsFirst (hnames : names.Nodup) (hacyclic : AcyclicAmong handlers names) :
    Kahn.DepsFirst (edges handlers names) (topologicalSort handlers names) := by
  unfold topologicalSort
  split
  · -- A single name has no dependency but itself.
    rename_i hshort
    intro before name after heq dep hedge
    obtain ⟨hname, hdep, hrequires⟩ := mem_edges.mp hedge
    have hself : dep = name := by
      cases names with
      | nil => cases hname
      | cons only rest =>
          cases rest with
          | nil => exact (List.mem_singleton.mp hdep).trans (List.mem_singleton.mp hname).symm
          | cons second rest => simp at hshort
    subst hself
    exact absurd (.single ⟨hname, hname, hrequires⟩) (hacyclic dep)
  · unfold sortLoop
    rw [sortPass_eq]
    exact Kahn.complete_depsFirst (start_sortStart handlers names) hnames targets_mem sources_mem
      (acyclic_edges hacyclic) (Nat.le_refl _)

/-! ## §4 Both -/

/-- **The expansion and its order.** The loop of the expansion ends, and what it finds,
listed in any order, is the least set that has the requested names and what its names
require, but for the raw columns. The loop of the sort ends, the sort is a permutation
of its input, and unless the dependencies among the names form a cycle, every name comes
after those that it requires. -/
theorem expand_then_sort (handlers : HandlerTable) (names order : List String)
    (hnodup : order.Nodup) (hlisting : order.toFinset = expandTransitiveDeps handlers names) :
    Worklist.pass (followed handlers) (expandLoop handlers names) = none
      ∧ IsLeast (dependencySets handlers names) {name | name ∈ order}
      ∧ sortPass handlers order (sortLoop handlers order) = none
      ∧ (topologicalSort handlers order).Perm order
      ∧ (AcyclicAmong handlers order → ∀ before name after,
          topologicalSort handlers order = before ++ name :: after →
            ∀ dep ∈ requiresOf handlers name, dep ∈ order → dep ∈ before) := by
  have hleast : IsLeast (dependencySets handlers names) {name | name ∈ order} := by
    have hexpansion := isLeast_expandTransitiveDeps handlers names
    rw [← hlisting] at hexpansion
    simpa only [List.mem_toFinset] using hexpansion
  refine ⟨expandLoop_done handlers names, hleast, sortLoop_done handlers hnodup,
    topologicalSort_perm handlers hnodup, ?_⟩
  intro hacyclic before name after heq dep hdep hmem
  have hname : name ∈ order := by
    rw [← (topologicalSort_perm handlers hnodup).mem_iff, heq]
    exact List.mem_append_right before List.mem_cons_self
  exact topologicalSort_depsFirst hnodup hacyclic before name after heq dep
    (mem_edges.mpr ⟨hname, hmem, hdep⟩)

/-- Some handlers, with what they require. -/
def someHandlers : HandlerTable where
  items := [("vp_poc", []), ("poc_slope_5", ["vp_poc"]), ("parkinson_vol", ["high", "low"])]
  nodup := by decide

theorem expand_then_sort_poc_slope :
    ["poc_slope_5", "vp_poc"].toFinset = expandTransitiveDeps someHandlers ["poc_slope_5"]
      ∧ (topologicalSort someHandlers ["poc_slope_5", "vp_poc"]).Perm ["poc_slope_5", "vp_poc"] :=
  ⟨by decide, (expand_then_sort someHandlers ["poc_slope_5"] ["poc_slope_5", "vp_poc"]
    (by decide) (by decide)).2.2.2.1⟩

/-- The least set that is closed under the whole table has the raw columns as well. -/
theorem expansion_without_raw_columns :
    ¬ IsLeast {S : Set String | (∀ name ∈ ["parkinson_vol"], name ∈ S)
        ∧ ∀ name ∈ S, ∀ dep ∈ requiresOf someHandlers name, dep ∈ S}
      {name | name ∈ expandTransitiveDeps someHandlers ["parkinson_vol"]} := by
  rintro ⟨⟨hrequested, hclosed⟩, -⟩
  have hvol := hrequested "parkinson_vol" (by decide)
  exact absurd (hclosed "parkinson_vol" hvol "high" (by decide)) (by decide)

end Finbar.Indicators
