import EpsilonMatch.Printout
/-!
# EpsilonMatch.Graph.Basic

Directed graphs over the vertices `0, …, vertexCount - 1`, open for new edges.

Design points:

* A graph holds one list of targets per vertex, in the order in which the
  edges came and with repetitions. A target is a natural number: an edge with a
  negative end is refused, so none is ever stored.
* The vertex count is a field of its own and may be reassigned
  (`Graph.recount`), also to a negative number, without touching the lists.
  A vertex that lies inside the count but has no list is therefore possible;
  looking it up is the error `GraphError.missingList`.
* `adjacencyFault?` is the one test of count against lists. Construction,
  `Graph.check` and sealing (`EpsilonMatch.Graph.Sealed`) all go through it, and
  `adjacencyFault?_eq_none_iff` states when it passes.
-/

namespace EpsilonMatch

/-- Why an operation on a graph is refused. -/
inductive GraphError
  /-- A graph was asked for with fewer than no vertices. -/
  | negativeCount
  /-- The number of target lists differs from the vertex count. -/
  | listCount (vertices : Int) (lists : Nat)
  /-- `v` does not lie in `0, …, vertices - 1`. -/
  | notVertex (v vertices : Int)
  /-- A vertex inside the count has no list of targets. -/
  | missingList
  deriving Repr, DecidableEq

/-- The wording of a refusal. -/
def GraphError.message : GraphError → String
  | negativeCount => "Number of vertices in a Digraph must be non-negative"
  | listCount vertices lists => s!"Digraph has {vertices} vertices but {lists} adjacency lists"
  | notVertex v vertices => s!"vertex {v} is not between 0 and {vertices - 1}"
  | missingList => "list index out of range"

/-- A directed graph that is open for new edges. -/
structure Graph where
  /-- How many vertices there are; it may have drifted from the number of
  lists. -/
  vertexCount : Int
  /-- The targets of each vertex, in insertion order. -/
  rows : Array (List Nat)
  deriving Repr, DecidableEq

/-- A change of a graph: it may fail, and what it changed until then stays changed. -/
abbrev GraphM := EStateM GraphError Graph

namespace Graph

/-! ## Faults -/

/-- The fault of taking `v` for one of `count` vertices. -/
def vertexFault? (count v : Int) : Option GraphError :=
  if 0 ≤ v ∧ v < count then none else some (.notVertex v count)

theorem vertexFault?_eq_none_iff {count v : Int} :
    vertexFault? count v = none ↔ 0 ≤ v ∧ v < count := by
  unfold vertexFault?
  split <;> simp_all

/-- The first fault of `lists` as the adjacency of `count` vertices: their
number comes first, then the targets in list order. -/
def adjacencyFault? (count : Int) (lists : List (List Int)) : Option GraphError :=
  if lists.length = count then lists.flatten.findSome? (vertexFault? count)
  else some (.listCount count lists.length)

/-- Lists pass exactly if there is one per vertex and every target is a
vertex. -/
theorem adjacencyFault?_eq_none_iff {count : Int} {lists : List (List Int)} :
    adjacencyFault? count lists = none ↔
      lists.length = count ∧ ∀ targets ∈ lists, ∀ w ∈ targets, 0 ≤ w ∧ w < count := by
  unfold adjacencyFault?
  split
  · simp only [List.findSome?_eq_none_iff, List.mem_flatten, vertexFault?_eq_none_iff]
    constructor
    · exact fun h => ⟨by assumption, fun targets ht w hw => h w ⟨targets, ht, hw⟩⟩
    · exact fun h w ⟨targets, ht, hw⟩ => h.2 targets ht w hw
  · simp_all

/-! ## Construction -/

/-- The graph of `n` vertices and no edge. -/
def edgeless (n : Nat) : Graph :=
  { vertexCount := n, rows := Array.replicate n [] }

/-- The graph of the given count and lists. No lists at all stand for one
empty list per vertex. -/
def ofLists? (count : Int) (lists : List (List Int)) : Except GraphError Graph :=
  if count < 0 then .error .negativeCount
  else if lists.isEmpty then .ok (edgeless count.toNat)
  else
    match adjacencyFault? count lists with
    | some fault => .error fault
    | none => .ok { vertexCount := count, rows := (lists.map (·.map Int.toNat)).toArray }

/-! ## Queries -/

/-- The lists of targets as integers, the form in which graphs are built. -/
def lists (g : Graph) : List (List Int) :=
  g.rows.toList.map (·.map Int.ofNat)

/-- Refuses `v` unless it is a vertex. -/
def checkVertex (g : Graph) (v : Int) : Except GraphError Unit :=
  match vertexFault? g.vertexCount v with
  | some fault => .error fault
  | none => .ok ()

/-- Refuses a graph whose lists do not fit its vertex count. -/
def check (g : Graph) : Except GraphError Unit :=
  match adjacencyFault? g.vertexCount g.lists with
  | some fault => .error fault
  | none => .ok ()

/-- The targets of a vertex. -/
def targets (g : Graph) (v : Int) : Except GraphError (List Nat) := do
  g.checkVertex v
  match g.rows[v.toNat]? with
  | some ws => return ws
  | none => throw .missingList

/-- All vertices, ascending. -/
def vertices (g : Graph) : List Nat :=
  List.range g.vertexCount.toNat

/-- The number of stored edges, repetitions counted. -/
def edgeCount (g : Graph) : Nat :=
  g.rows.toList.flatten.length

/-- One line `v,w` per edge. A vertex without a list ends the listing. -/
def listing (g : Graph) : Printout GraphError where
  lines := (g.rows.toList.take g.vertexCount.toNat).zipIdx.flatMap fun (ws, v) =>
    ws.map fun w => s!"{v},{w}"
  failure := if g.rows.size < g.vertexCount then some .missingList else none

/-! ## Updates -/

/-- Adds the edge from `v` to `w` behind the edges of `v`. Both ends are
checked, `v` first, before the list of `v` is looked up. -/
def connect (v w : Int) : GraphM Unit := do
  let g ← get
  MonadExcept.ofExcept (g.checkVertex v)
  MonadExcept.ofExcept (g.checkVertex w)
  if v.toNat < g.rows.size then
    set { g with rows := g.rows.modify v.toNat (· ++ [w.toNat]) }
  else
    throw .missingList

/-- Reassigns the vertex count and leaves the lists alone. -/
def recount (g : Graph) (n : Int) : Graph :=
  { g with vertexCount := n }

@[simp] theorem rows_recount (g : Graph) (n : Int) : (g.recount n).rows = g.rows := rfl

end Graph

end EpsilonMatch
