/-
Finbar.Lib.Kahn — Kahn's algorithm: a topological sort with a queue.

An edge `(dep, a)` says that `a` comes after `dep`. The loop takes an element without
unmet dependencies from the queue, lists it, and lowers the degrees of its dependents.
It ends after as many passes as there are elements (`done_of_fuel`), lists elements
once (`sorted_perm`) and each after what it depends on, and leaves none out when the
edges have no cycle (`mem_sorted_of_acyclic`).

No `sorry`, no `axiom`.
-/
import Finbar.Lib.OrderedDict
import Finbar.Lib.While
import Mathlib.Order.WellFoundedSet

namespace Lib.Kahn

variable {α : Type} [DecidableEq α] {names : List α} {edges : List (α × α)}

/-! ## §1 The loop -/

/-- The unmet dependencies that are counted, the queue and the list. -/
structure State (α : Type) where
  inDegree : OrderedDict α ℤ
  queue : List α
  sorted : List α := []

/-- `in_degree.get(a, 0)`. -/
def degreeOf (inDegree : OrderedDict α ℤ) (a : α) : ℤ := (inDegree.get a).getD 0

/-- One dependent of the element that was listed. -/
def release (s : State α) (dependent : α) : State α :=
  let degree := degreeOf s.inDegree dependent - 1
  { s with
    inDegree := s.inDegree.assign dependent degree
    queue := if degree = 0 then s.queue ++ [dependent] else s.queue }

/-- A pass: the first of the queue is listed, and its dependents are released. -/
def pass (dependents : α → List α) (s : State α) : Option (State α) :=
  match s.queue with
  | [] => none
  | node :: queue =>
      some ((dependents node).foldl release { s with queue := queue, sorted := s.sorted ++ [node] })

/-- The list, and after it the elements that are not in it. -/
def complete (names sorted : List α) : List α :=
  sorted ++ names.filter fun a => decide (a ∉ sorted)

/-! ## §2 Edges -/

/-- What depends on an element, once for each edge. -/
def dependents (edges : List (α × α)) (a : α) : List α :=
  (edges.filter fun edge => decide (edge.1 = a)).map Prod.snd

/-- How many edges lead to an element from one that is not listed. -/
def unmet (edges : List (α × α)) (sorted : List α) (a : α) : ℕ :=
  edges.countP fun edge => decide (edge.2 = a ∧ edge.1 ∉ sorted)

/-- Every element of the list comes after what it depends on. -/
def DepsFirst (edges : List (α × α)) (sorted : List α) : Prop :=
  ∀ before a after, sorted = before ++ a :: after → ∀ dep, (dep, a) ∈ edges → dep ∈ before

/-- No element depends on itself, by any chain of edges. -/
def Acyclic (edges : List (α × α)) : Prop :=
  ∀ a, ¬ Relation.TransGen (fun dep a => (dep, a) ∈ edges) a a

theorem unmet_eq_zero {sorted : List α} {a : α} :
    unmet edges sorted a = 0 ↔ ∀ dep, (dep, a) ∈ edges → dep ∈ sorted := by
  unfold unmet
  rw [List.countP_eq_zero]
  constructor
  · intro h dep hedge
    by_contra hdep
    exact h (dep, a) hedge (decide_eq_true ⟨rfl, hdep⟩)
  · rintro h ⟨dep, b⟩ hedge hcounted
    obtain ⟨rfl, hdep⟩ := of_decide_eq_true hcounted
    exact hdep (h dep hedge)

/-- **Listing an element** meets one dependency of a dependent for each edge. -/
theorem unmet_concat {sorted : List α} {node : α} (hnode : node ∉ sorted) (a : α) :
    unmet edges sorted a = unmet edges (sorted ++ [node]) a + (dependents edges node).count a := by
  unfold unmet dependents
  induction edges with
  | nil => rfl
  | cons edge edges ih =>
      rw [List.countP_cons, List.countP_cons, ih, List.filter_cons]
      by_cases hfrom : edge.1 = node
      · subst hfrom
        by_cases hto : edge.2 = a
        · simp [hto, hnode]
          omega
        · simp [hto]
      · by_cases hto : edge.2 = a
        · by_cases hmem : edge.1 ∈ sorted
          · simp [hfrom, hmem]
          · simp [hto, hfrom, hmem]
            omega
        · simp [hto, hfrom]

omit [DecidableEq α] in
theorem DepsFirst.concat {sorted : List α} {node : α} (h : DepsFirst edges sorted)
    (hnode : ∀ dep, (dep, node) ∈ edges → dep ∈ sorted) : DepsFirst edges (sorted ++ [node]) := by
  intro before a after heq dep hedge
  rcases List.eq_nil_or_concat after with rfl | ⟨after, last, rfl⟩
  · obtain ⟨rfl, hlast⟩ := List.append_inj' heq rfl
    obtain rfl := List.singleton_inj.mp hlast
    exact hnode dep hedge
  · rw [List.concat_eq_append, ← List.cons_append, ← List.append_assoc] at heq
    obtain ⟨hsorted, -⟩ := List.append_inj' heq rfl
    exact h before a after hsorted dep hedge

/-! ## §3 Releasing the dependents of an element -/

theorem degreeOf_assign (inDegree : OrderedDict α ℤ) (a : α) (degree : ℤ) (b : α) :
    degreeOf (inDegree.assign a degree) b = if a = b then degree else degreeOf inDegree b := by
  unfold degreeOf
  rw [OrderedDict.get_assign]
  split <;> rfl

theorem degreeOf_release (s : State α) (b a : α) :
    degreeOf (release s b).inDegree a
      = if b = a then degreeOf s.inDegree b - 1 else degreeOf s.inDegree a :=
  degreeOf_assign s.inDegree b _ a

theorem sorted_foldl_release (released : List α) (s : State α) :
    (released.foldl release s).sorted = s.sorted := by
  induction released generalizing s with
  | nil => rfl
  | cons b released ih => exact ih (release s b)

theorem count_cons_int (b a : α) (released : List α) :
    ((b :: released).count a : ℤ) = released.count a + if b = a then 1 else 0 := by
  rw [List.count_cons]
  by_cases hab : b = a <;> simp [hab]

/-- Releasing some dependents lowers their degrees, once for each edge. -/
theorem degreeOf_foldl_release (released : List α) (s : State α) (a : α) :
    degreeOf (released.foldl release s).inDegree a = degreeOf s.inDegree a - released.count a := by
  induction released generalizing s with
  | nil => simp
  | cons b released ih =>
      rw [List.foldl_cons, ih, degreeOf_release, count_cons_int]
      by_cases hab : b = a
      · subst hab
        rw [if_pos rfl, if_pos rfl]
        omega
      · rw [if_neg hab, if_neg hab]
        omega

/-- No degree is lower than the edges still to come, after one of them. -/
theorem count_le_release {b : α} {released : List α} {s : State α}
    (h : ∀ a, ((b :: released).count a : ℤ) ≤ degreeOf s.inDegree a) (a : α) :
    (released.count a : ℤ) ≤ degreeOf (release s b).inDegree a := by
  have hbefore := h a
  rw [count_cons_int] at hbefore
  rw [degreeOf_release]
  by_cases hab : b = a
  · subst hab
    rw [if_pos rfl] at hbefore ⊢
    omega
  · rw [if_neg hab] at hbefore ⊢
    omega

/-- **Releasing some dependents** appends to the queue those that reach zero, each
once. -/
theorem queue_foldl_release {released : List α} {s : State α}
    (h : ∀ a, (released.count a : ℤ) ≤ degreeOf s.inDegree a) :
    ∃ ready, (released.foldl release s).queue = s.queue ++ ready ∧ ready.Nodup
      ∧ ∀ a, a ∈ ready ↔ a ∈ released ∧ degreeOf s.inDegree a = released.count a := by
  induction released generalizing s with
  | nil => exact ⟨[], (List.append_nil _).symm, List.nodup_nil, by simp⟩
  | cons b released ih =>
      obtain ⟨ready, hqueue, hnodup, hready⟩ := ih (count_le_release h)
      rw [List.foldl_cons]
      -- The others reach zero with the rest; `b` does so here if this was its last edge.
      have hothers : ∀ a, b ≠ a → (a ∈ ready ↔ a ∈ b :: released
          ∧ degreeOf s.inDegree a = (b :: released).count a) := by
        intro a hab
        rw [hready, degreeOf_release, if_neg hab, count_cons_int, if_neg hab, List.mem_cons]
        simp [Ne.symm hab]
      by_cases hzero : degreeOf s.inDegree b - 1 = 0
      · have hlast : b ∉ released := by
          intro hmem
          have hpos := List.count_pos_iff.mpr hmem
          have hbefore := h b
          rw [count_cons_int, if_pos rfl] at hbefore
          omega
        have hnew : b ∉ ready := fun hmem => hlast ((hready b).mp hmem).1
        have hrelease : (release s b).queue = s.queue ++ [b] := if_pos hzero
        refine ⟨b :: ready, ?_, List.nodup_cons.mpr ⟨hnew, hnodup⟩, fun a => ?_⟩
        · rw [hqueue, hrelease, List.append_assoc, List.singleton_append]
        · by_cases hab : b = a
          · subst hab
            refine iff_of_true List.mem_cons_self ⟨List.mem_cons_self, ?_⟩
            rw [count_cons_int, if_pos rfl, List.count_eq_zero_of_not_mem hlast]
            omega
          · rw [List.mem_cons, ← hothers a hab]
            simp [Ne.symm hab]
      · have hrelease : (release s b).queue = s.queue := if_neg hzero
        refine ⟨ready, by rw [hqueue, hrelease], hnodup, fun a => ?_⟩
        by_cases hab : b = a
        · subst hab
          rw [hready, degreeOf_release, if_pos rfl, count_cons_int, if_pos rfl]
          constructor
          · rintro ⟨-, hdeg⟩
            exact ⟨List.mem_cons_self, by omega⟩
          · rintro ⟨-, hdeg⟩
            have hpos : 0 < released.count b := by omega
            exact ⟨List.count_pos_iff.mp hpos, by omega⟩
        · exact hothers a hab

/-! ## §4 The invariant -/

/-- **The invariant**: the degrees count the unmet dependencies, what is listed or in
the queue has none, and what is listed comes after what it depends on. -/
structure Invariant (names : List α) (edges : List (α × α)) (s : State α) : Prop where
  degree : ∀ a, degreeOf s.inDegree a = unmet edges s.sorted a
  nodup : (s.sorted ++ s.queue).Nodup
  ready : ∀ a, a ∈ s.sorted ++ s.queue ↔ a ∈ names ∧ unmet edges s.sorted a = 0
  first : DepsFirst edges s.sorted

/-- Only as many elements are listed or wait as there are. -/
theorem Invariant.length_le {s : State α} (h : Invariant names edges s) :
    s.sorted.length + s.queue.length ≤ names.length := by
  rw [← List.length_append]
  exact (h.nodup.subperm fun a ha => ((h.ready a).mp ha).1).length_le

theorem mem_dependents {a dep : α} : a ∈ dependents edges dep ↔ (dep, a) ∈ edges := by
  unfold dependents
  rw [List.mem_map]
  constructor
  · rintro ⟨⟨source, target⟩, hmem, rfl⟩
    obtain ⟨hedge, heq⟩ := List.mem_filter.mp hmem
    obtain rfl : source = dep := of_decide_eq_true heq
    exact hedge
  · intro hedge
    exact ⟨(dep, a), List.mem_filter.mpr ⟨hedge, decide_eq_true rfl⟩, rfl⟩

/-- **A pass keeps the invariant.** -/
theorem Invariant.pass (hedges : ∀ edge ∈ edges, edge.2 ∈ names) {s t : State α}
    (h : Invariant names edges s) (hpass : pass (dependents edges) s = some t) :
    Invariant names edges t ∧ t.sorted.length = s.sorted.length + 1 := by
  obtain ⟨inDegree, queue, sorted⟩ := s
  cases queue with
  | nil => cases hpass
  | cons node queue =>
      obtain rfl := Option.some.inj hpass
      have hnodup : (sorted ++ node :: queue).Nodup := h.nodup
      have hready : ∀ a, a ∈ sorted ++ node :: queue ↔ a ∈ names ∧ unmet edges sorted a = 0 :=
        h.ready
      have hnode : node ∉ sorted := fun hmem =>
        (List.disjoint_of_nodup_append hnodup) hmem List.mem_cons_self
      have hmet : ∀ a, unmet edges sorted a
          = unmet edges (sorted ++ [node]) a + (dependents edges node).count a :=
        unmet_concat hnode
      have hdegree : ∀ a, degreeOf inDegree a = unmet edges sorted a := h.degree
      have hcount : ∀ a, ((dependents edges node).count a : ℤ) ≤ degreeOf inDegree a := by
        intro a
        rw [hdegree, hmet]
        omega
      have hlisted := sorted_foldl_release (dependents edges node)
        ⟨inDegree, queue, sorted ++ [node]⟩
      have hdegrees := degreeOf_foldl_release (dependents edges node)
        ⟨inDegree, queue, sorted ++ [node]⟩
      obtain ⟨ready, hqueue, hnew, hmem⟩ := @queue_foldl_release α _ (dependents edges node)
        ⟨inDegree, queue, sorted ++ [node]⟩ hcount
      simp only at hlisted hdegrees hqueue hmem
      -- What becomes ready had an unmet dependency before, so it was not ready before.
      have hfresh : ∀ a ∈ ready, a ∉ sorted ++ node :: queue := by
        intro a ha hbefore
        obtain ⟨hreleased, hdeg⟩ := (hmem a).mp ha
        have hpos := List.count_pos_iff.mpr hreleased
        have hnone := ((hready a).mp hbefore).2
        rw [hdegree, hnone] at hdeg
        omega
      have hall : sorted ++ [node] ++ (queue ++ ready) = (sorted ++ node :: queue) ++ ready := by
        simp
      refine ⟨⟨fun a => ?_, ?_, fun a => ?_, ?_⟩, by rw [hlisted]; simp⟩
      · rw [hdegrees, hlisted, hdegree, hmet]
        omega
      · rw [hlisted, hqueue, hall]
        exact hnodup.append hnew fun a hbefore ha => hfresh a ha hbefore
      · rw [hlisted, hqueue, hall, List.mem_append, hready, hmem]
        have hsplit := hmet a
        constructor
        · rintro (⟨hname, hzero⟩ | ⟨hreleased, hdeg⟩)
          · exact ⟨hname, by omega⟩
          · rw [hdegree] at hdeg
            exact ⟨hedges (node, a) (mem_dependents.mp hreleased), by omega⟩
        · rintro ⟨hname, hzero⟩
          by_cases hreleased : a ∈ dependents edges node
          · refine .inr ⟨hreleased, ?_⟩
            rw [hdegree]
            omega
          · refine .inl ⟨hname, ?_⟩
            rw [List.count_eq_zero_of_not_mem hreleased] at hsplit
            omega
      · rw [hlisted]
        refine h.first.concat fun dep hedge => ?_
        have hzero := ((hready node).mp (List.mem_append_right _ List.mem_cons_self)).2
        exact unmet_eq_zero.mp hzero dep hedge

/-! ## §5 Edges without a cycle -/

omit [DecidableEq α] in
/-- **Without a cycle**, some element of a finite set depends on no other one of it. -/
theorem Acyclic.exists_source (h : Acyclic edges) {left : Set α} (hfinite : left.Finite)
    (hleft : left.Nonempty) : ∃ a ∈ left, ∀ dep, (dep, a) ∈ edges → dep ∉ left := by
  have horder : IsStrictOrder α (Relation.TransGen fun dep a => (dep, a) ∈ edges) :=
    { irrefl := h, trans := fun _ _ _ => Relation.TransGen.trans }
  have hwell := hfinite.wellFoundedOn (r := Relation.TransGen fun dep a => (dep, a) ∈ edges)
  obtain ⟨a, ha, hmin⟩ := (Set.wellFoundedOn_iff.mp hwell).has_min left hleft
  exact ⟨a, ha, fun dep hedge hdep => hmin dep hdep ⟨.single hedge, hdep, ha⟩⟩

/-! ## §6 The end of the loop -/

/-- What the loop starts from: the degrees count all edges, and the elements without
any are in the queue. -/
structure Start (names : List α) (edges : List (α × α)) (s : State α) : Prop where
  sorted : s.sorted = []
  degree : ∀ a, degreeOf s.inDegree a = unmet edges [] a
  queue : s.queue = names.filter fun a => decide (degreeOf s.inDegree a = 0)

theorem Start.invariant {s : State α} (h : Start names edges s) (hnames : names.Nodup) :
    Invariant names edges s where
  degree := by rw [h.sorted]; exact h.degree
  nodup := by
    rw [h.sorted, h.queue]
    exact hnames.filter _
  ready := by
    intro a
    rw [h.sorted, h.queue, List.nil_append, List.mem_filter, decide_eq_true_iff, h.degree]
    simp
  first := by
    intro before a after heq
    rw [h.sorted] at heq
    simp at heq

section Sorted

variable {s : State α} (h : Start names edges s) (hnames : names.Nodup)
  (hedges : ∀ edge ∈ edges, edge.2 ∈ names)

include h hnames hedges

/-- **The loop ends** after as many passes as there are elements. -/
theorem done_of_fuel {fuel : ℕ} (hfuel : names.length ≤ fuel) :
    pass (dependents edges) (While.run (pass (dependents edges)) fuel s) = none := by
  refine While.done_of_measure (I := Invariant names edges)
    (fun s => names.length - s.sorted.length) ?_ (h.invariant hnames) (by omega)
  intro s t hs hpass
  obtain ⟨ht, hlength⟩ := hs.pass hedges hpass
  have hbound := ht.length_le
  exact ⟨ht, by omega⟩

theorem invariant_run (fuel : ℕ) :
    Invariant names edges (While.run (pass (dependents edges)) fuel s) :=
  While.run_invariant (fun _ _ hs hpass => (hs.pass hedges hpass).1) (h.invariant hnames) fuel

/-- **The completed list** has every element once. -/
theorem complete_perm (fuel : ℕ) :
    (complete names (While.run (pass (dependents edges)) fuel s).sorted).Perm names := by
  have hinv := invariant_run h hnames hedges fuel
  have hsorted : (While.run (pass (dependents edges)) fuel s).sorted.Nodup :=
    (List.nodup_append.mp hinv.nodup).1
  unfold complete
  rw [List.perm_ext_iff_of_nodup _ hnames]
  · intro a
    have hname : a ∈ (While.run (pass (dependents edges)) fuel s).sorted → a ∈ names :=
      fun ha => ((hinv.ready a).mp (List.mem_append_left _ ha)).1
    rw [List.mem_append, List.mem_filter, decide_eq_true_iff]
    tauto
  · refine hsorted.append (hnames.filter _) fun a ha hleft => ?_
    exact of_decide_eq_true (List.mem_filter.mp hleft).2 ha

/-- **Without a cycle** no element is left out when the loop has ended. -/
theorem mem_sorted_of_acyclic (hsources : ∀ edge ∈ edges, edge.1 ∈ names)
    (hacyclic : Acyclic edges) {fuel : ℕ} (hfuel : names.length ≤ fuel) :
    ∀ a ∈ names, a ∈ (While.run (pass (dependents edges)) fuel s).sorted := by
  have hinv := invariant_run h hnames hedges fuel
  have hdone := done_of_fuel h hnames hedges hfuel
  generalize While.run (pass (dependents edges)) fuel s = t at hinv hdone ⊢
  have hqueue : t.queue = [] := by
    unfold pass at hdone
    split at hdone
    · assumption
    · cases hdone
  by_contra hleft
  push Not at hleft
  obtain ⟨a, ⟨hname, hout⟩, hsource⟩ := hacyclic.exists_source
    ((List.finite_toSet names).subset fun a (ha : a ∈ names ∧ a ∉ t.sorted) => ha.1) hleft
  -- All that the element depends on is listed, so it would have been listed itself.
  have hmet : unmet edges t.sorted a = 0 := by
    rw [unmet_eq_zero]
    intro dep hedge
    by_contra hdep
    exact hsource dep hedge ⟨hsources (dep, a) hedge, hdep⟩
  have hlisted := (hinv.ready a).mpr ⟨hname, hmet⟩
  rw [hqueue, List.append_nil] at hlisted
  exact hout hlisted

/-- **Without a cycle** every element comes after what it depends on. -/
theorem complete_depsFirst (hsources : ∀ edge ∈ edges, edge.1 ∈ names)
    (hacyclic : Acyclic edges) {fuel : ℕ} (hfuel : names.length ≤ fuel) :
    DepsFirst edges
      (complete names (While.run (pass (dependents edges)) fuel s).sorted) := by
  have hall := mem_sorted_of_acyclic h hnames hedges hsources hacyclic hfuel
  have hnone : (names.filter fun a =>
      decide (a ∉ (While.run (pass (dependents edges)) fuel s).sorted)) = [] := by
    rw [List.filter_eq_nil_iff]
    intro a ha
    simpa using hall a ha
  rw [complete, hnone, List.append_nil]
  exact (invariant_run h hnames hedges fuel).first

end Sorted

end Lib.Kahn
