import EpsilonMatch.Graph.Basic
/-!
# EpsilonMatch.Graph.Sealed

Graphs whose edges can no longer change.

A sealed graph needs no vertex count of its own: it has one list per vertex, and
the type carries the proof that every target is a vertex. `SealedGraph.ofLists?`
is the only way in, and `Graph.seal` goes through it.
-/

namespace EpsilonMatch

/-- A directed graph with one list of targets per vertex, all of them
vertices. -/
structure SealedGraph where
  /-- The targets of each vertex, in insertion order. -/
  rows : Array (List Nat)
  target_lt : ∀ targets ∈ rows, ∀ w ∈ targets, w < rows.size
  deriving DecidableEq

namespace SealedGraph

/-- The number of vertices is the number of lists. -/
def vertexCount (g : SealedGraph) : Nat := g.rows.size

/-- A sealed graph seen as an open one, for the queries they share. -/
def toGraph (g : SealedGraph) : Graph :=
  { vertexCount := g.vertexCount, rows := g.rows }

@[simp] theorem vertexCount_toGraph (g : SealedGraph) :
    g.toGraph.vertexCount = g.rows.size := rfl

/-- Lists without an adjacency fault fulfil the invariant of a sealed graph. -/
theorem target_lt_of_adjacencyFault? {count : Int} {lists : List (List Int)}
    (h : Graph.adjacencyFault? count lists = none) :
    ∀ targets ∈ (lists.map (·.map Int.toNat)).toArray, ∀ w ∈ targets,
      w < (lists.map (·.map Int.toNat)).toArray.size := by
  obtain ⟨hcount, hrange⟩ := Graph.adjacencyFault?_eq_none_iff.1 h
  intro targets ht w hw
  simp only [List.mem_toArray, List.mem_map] at ht
  obtain ⟨source, hsource, rfl⟩ := ht
  obtain ⟨x, hx, rfl⟩ := List.mem_map.1 hw
  have := hrange source hsource x hx
  simp only [List.size_toArray, List.length_map]
  omega

/-- The sealed graph of the given count and lists; unlike for an open graph,
lists must be given for all vertices. -/
def ofLists? (count : Int) (lists : List (List Int)) : Except GraphError SealedGraph :=
  if count < 0 then .error .negativeCount
  else
    match h : Graph.adjacencyFault? count lists with
    | some fault => .error fault
    | none => .ok ⟨(lists.map (·.map Int.toNat)).toArray, target_lt_of_adjacencyFault? h⟩

end SealedGraph

/-- The graph as it stands, closed for further edges. It is refused if its
lists do not fit its count. -/
def Graph.seal (g : Graph) : Except GraphError SealedGraph :=
  SealedGraph.ofLists? g.vertexCount g.lists

end EpsilonMatch
