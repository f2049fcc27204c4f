/-
Finbar.Indicators.Dependencies — which indicators are computed, and in which order:
`_expand_transitive_deps` and `_topological_sort` of the pandas_ta calculator.

The registry is read as a table of names, each with the columns that its handler
requires, in the order in which a loop over that set goes. `_expand_transitive_deps`
is the worklist loop, without the raw columns, and returns a set; what
`_topological_sort` gets is a list of it, in any order. It is Kahn's algorithm, with
the elements that the loop leaves out appended.

No `sorry`, no `axiom`.
-/
import Finbar.Lib.Kahn
import Finbar.Lib.Worklist

namespace Finbar.Indicators

open Lib

/-- `HandlerRegistry`: the names that have a handler, each with its `requires`. -/
abbrev HandlerTable := OrderedDict String (List String)

/-- `_RAW_BAR_COLUMNS`. -/
def rawBarColumns : List String := ["open", "high", "low", "close", "volume"]

/-- `handlers[name][1]`; a name without a handler requires nothing. -/
def requiresOf (handlers : HandlerTable) (name : String) : List String :=
  (handlers.get name).getD []

/-! ## §1 `_expand_transitive_deps` -/

/-- The dependencies that the loop follows: all but the raw columns. -/
def followed (handlers : HandlerTable) (name : String) : List String :=
  (requiresOf handlers name).filter fun dep => decide (dep ∉ rawBarColumns)

/-- The requested names that are no raw columns. -/
def requested (names : List String) : List String :=
  names.filter fun name => decide (name ∉ rawBarColumns)

/-- How many passes are enough: one for each requested name and each dependency of the
table. -/
def expandFuel (handlers : HandlerTable) (names : List String) : ℕ :=
  (requested names).length + (handlers.items.flatMap Prod.snd).length

/-- `while stack`. -/
def expandLoop (handlers : HandlerTable) (names : List String) : Worklist.State String :=
  While.run (Worklist.pass (followed handlers)) (expandFuel handlers names)
    (Worklist.start (requested names))

/-- `_expand_transitive_deps`. -/
def expandTransitiveDeps (handlers : HandlerTable) (names : List String) : Finset String :=
  (expandLoop handlers names).found

/-! ## §2 `_topological_sort` -/

/-- `in_degree` and `adjacency`. -/
structure Degrees where
  inDegree : OrderedDict String ℤ := {}
  adjacency : OrderedDict String (List String) := {}

/-- `adjacency.setdefault(dep, []).append(name)`, and one more for `in_degree[name]`. -/
def Degrees.count (d : Degrees) (dep name : String) : Degrees where
  inDegree := d.inDegree.assign name (Kahn.degreeOf d.inDegree name + 1)
  adjacency := d.adjacency.append dep name

/-- `for dep in requires`: dependencies that are not among the names do not count. -/
def Degrees.note (handlers : HandlerTable) (names : List String) (d : Degrees) (name : String) :
    Degrees :=
  (requiresOf handlers name).foldl
    (fun d dep => if dep ∈ names then d.count dep name else d) d

/-- `for name in names`. -/
def degrees (handlers : HandlerTable) (names : List String) : Degrees :=
  names.foldl (Degrees.note handlers names) {}

/-- The names with no unmet dependency are in the queue. -/
def sortStart (handlers : HandlerTable) (names : List String) : Kahn.State String where
  inDegree := (degrees handlers names).inDegree
  queue := names.filter fun name =>
    decide (Kahn.degreeOf (degrees handlers names).inDegree name = 0)

/-- The body of `while queue`. -/
def sortPass (handlers : HandlerTable) (names : List String) :
    Kahn.State String → Option (Kahn.State String) :=
  Kahn.pass fun node => ((degrees handlers names).adjacency.get node).getD []

/-- `while queue`, for at most one pass for each name. -/
def sortLoop (handlers : HandlerTable) (names : List String) : Kahn.State String :=
  While.run (sortPass handlers names) names.length (sortStart handlers names)

/-- `_topological_sort`. -/
def topologicalSort (handlers : HandlerTable) (names : List String) : List String :=
  if names.length ≤ 1 then names
  else Kahn.complete names (sortLoop handlers names).sorted

end Finbar.Indicators
