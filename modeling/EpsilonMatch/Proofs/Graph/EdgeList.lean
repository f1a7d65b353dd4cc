import EpsilonMatch.Graph.Path
import EpsilonMatch.Proofs.Graph.Soundness
/-!
# EpsilonMatch.Proofs.Graph.EdgeList

Graphs given by the list of their edges, in the order of insertion.

`Graph.ofEdges n edges` is what is left after `edges` have been connected, one
after the other, over `n` vertices (`connect_ofEdges`). The row of a vertex holds
the targets of its edges in that order, so the list determines the rows with
their order and repetitions, and the edge relation is membership in the list.
-/

namespace EpsilonMatch

/-- The targets of the edges that leave `v`, in order. -/
def targetsOf (edges : List (Nat × Nat)) (v : Nat) : List Nat :=
  (edges.filter (·.1 = v)).map (·.2)

@[simp] theorem targetsOf_nil (v : Nat) : targetsOf [] v = [] := rfl

theorem targetsOf_cons (e : Nat × Nat) (edges : List (Nat × Nat)) (v : Nat) :
    targetsOf (e :: edges) v = (if e.1 = v then [e.2] else []) ++ targetsOf edges v := by
  by_cases h : e.1 = v <;> simp [targetsOf, h]

@[simp] theorem targetsOf_append (edges more : List (Nat × Nat)) (v : Nat) :
    targetsOf (edges ++ more) v = targetsOf edges v ++ targetsOf more v := by
  simp [targetsOf]

theorem targetsOf_flatMap {α : Type} (xs : List α) (f : α → List (Nat × Nat)) (v : Nat) :
    targetsOf (xs.flatMap f) v = xs.flatMap fun x => targetsOf (f x) v := by
  simp [targetsOf, List.filter_flatMap, List.map_flatMap]

@[simp] theorem mem_targetsOf {edges : List (Nat × Nat)} {v w : Nat} :
    w ∈ targetsOf edges v ↔ (v, w) ∈ edges := by
  simp [targetsOf]

namespace Graph

/-- The graph of `n` vertices with the given edges. -/
def ofEdges (n : Nat) (edges : List (Nat × Nat)) : Graph :=
  { vertexCount := n, rows := Array.ofFn fun v : Fin n => targetsOf edges v }

@[simp] theorem size_rows_ofEdges (n : Nat) (edges : List (Nat × Nat)) :
    (ofEdges n edges).rows.size = n := by
  simp [ofEdges]

theorem getElem?_rows_ofEdges {n v : Nat} {edges : List (Nat × Nat)} (hv : v < n) :
    (ofEdges n edges).rows[v]? = some (targetsOf edges v) := by
  simp [ofEdges, hv]

theorem edgeless_eq_ofEdges (n : Nat) : edgeless n = ofEdges n [] := by
  simp only [edgeless, ofEdges, targetsOf_nil, mk.injEq, true_and]
  ext v <;> simp

/-- Connecting two vertices puts an edge behind the others. -/
theorem connect_ofEdges {n v w : Nat} {edges : List (Nat × Nat)} (hv : v < n) (hw : w < n) :
    connect v w (ofEdges n edges) = .ok () (ofEdges n (edges ++ [(v, w)])) := by
  have rows : (ofEdges n edges).rows.modify v (· ++ [w]) =
      (ofEdges n (edges ++ [(v, w)])).rows := by
    ext u hu
    · simp
    · by_cases h : v = u
      · simp [ofEdges, targetsOf, Array.getElem_modify, h]
      · simp [ofEdges, targetsOf, Array.getElem_modify, h]
  have count {u : Nat} (hu : u < n) : 0 ≤ (u : Int) ∧ (u : Int) < n := by omega
  refine connect_eq_ok_iff.2 ⟨count hv, count hw, ?_, ?_⟩
  · simpa using hv
  · exact congrArg (Graph.mk n) rows

theorem edge_ofEdges_iff {n v w : Nat} {edges : List (Nat × Nat)} :
    (ofEdges n edges).Edge v w ↔ v < n ∧ (v, w) ∈ edges := by
  by_cases hv : v < n
  · simp only [Edge, getElem?_rows_ofEdges hv, hv, true_and]
    simp
  · simp [Edge, ofEdges, hv]

end Graph

namespace SealedGraph

/-- The sealed graph of `n` vertices with the given edges. -/
def ofEdges (n : Nat) (edges : List (Nat × Nat)) (range : ∀ e ∈ edges, e.2 < n) :
    SealedGraph where
  rows := (Graph.ofEdges n edges).rows
  target_lt := by
    intro targets ht w hw
    obtain ⟨v, hv, rfl⟩ := Array.mem_iff_getElem.1 ht
    have edge : (v, w) ∈ edges := by simpa [Graph.ofEdges] using hw
    simpa using range (v, w) edge

@[simp] theorem toGraph_ofEdges {n : Nat} {edges : List (Nat × Nat)}
    (range : ∀ e ∈ edges, e.2 < n) : (ofEdges n edges range).toGraph = Graph.ofEdges n edges := by
  simp [toGraph, ofEdges, vertexCount, Graph.ofEdges]

@[simp] theorem vertexCount_ofEdges {n : Nat} {edges : List (Nat × Nat)}
    (range : ∀ e ∈ edges, e.2 < n) : (ofEdges n edges range).vertexCount = n := by
  simp [ofEdges, vertexCount]

theorem seal_ofEdges {n : Nat} {edges : List (Nat × Nat)} (range : ∀ e ∈ edges, e.2 < n) :
    (Graph.ofEdges n edges).seal = .ok (ofEdges n edges range) :=
  Graph.Sound.seal_eq_ok ⟨by rw [Graph.size_rows_ofEdges, Graph.ofEdges],
    (ofEdges n edges range).target_lt⟩

end SealedGraph

end EpsilonMatch
