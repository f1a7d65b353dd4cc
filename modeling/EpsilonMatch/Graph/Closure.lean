import EpsilonMatch.Graph.Sealed
/-!
# EpsilonMatch.Graph.Closure

The set of vertices that can be reached from given sources, sources included.

The search keeps a stack of vertices still to look at. A vertex taken off the
stack is dropped if it is marked; otherwise it is marked and its unmarked
targets are put on the stack. A vertex may stand on the stack several times, so
neither the stack nor the marks alone shrink; the search ends because the
stack plus the edges of unmarked vertices does (`unmarkedEdges_set`).

* `Search` records the marks, the order of the scans and the number of stack
  removals, which is the cost of the search.
* `Graph.closure` is the ascending list of the marked vertices.
-/

namespace EpsilonMatch

/-- The state of a search over `n` target lists. -/
structure Search (n : Nat) where
  /-- Which vertices have been reached. -/
  marked : Vector Bool n
  /-- The vertices whose targets were scanned, the latest first. -/
  scanned : List Nat := []
  /-- How many vertices were taken off the stack. -/
  pops : Nat := 0

namespace Search

/-- Nothing is marked. -/
def start (n : Nat) : Search n :=
  { marked := Vector.replicate n false }

/-- The marked vertices, ascending. -/
def members {n : Nat} (s : Search n) : List Nat :=
  (List.range n).filter fun v => s.marked[v]?.getD false

/-- The targets that are not marked yet. -/
def unmarked {n : Nat} (marked : Vector Bool n) (targets : List Nat) : List Nat :=
  targets.filter fun w => !(marked[w]?.getD false)

/-- How many edges leave the unmarked ones among the first `k` vertices. -/
def unmarkedEdges (rows : Array (List Nat)) (marked : Vector Bool rows.size) : Nat → Nat
  | 0 => 0
  | k + 1 =>
    unmarkedEdges rows marked k +
      if marked[k]?.getD true then 0 else (rows[k]?.getD []).length

/-- Marking `v` takes the edges of `v` out of the count. -/
theorem unmarkedEdges_set {rows : Array (List Nat)} {marked : Vector Bool rows.size} {v : Nat}
    (hv : v < rows.size) (hm : marked[v] = false) (k : Nat) :
    unmarkedEdges rows (marked.set v true) k + (if v < k then rows[v].length else 0) =
      unmarkedEdges rows marked k := by
  induction k with
  | zero => simp [unmarkedEdges]
  | succ k ih =>
    simp only [unmarkedEdges, Vector.getElem?_set]
    by_cases hvk : v = k
    · subst hvk
      simp_all
    · have : v < k + 1 ↔ v < k := by omega
      simp only [hvk, this, if_false]
      omega

/-- Works off a stack of vertices. A vertex without a list of targets ends the
search. -/
def explore (rows : Array (List Nat)) (s : Search rows.size) (stack : List Nat) :
    Except GraphError (Search rows.size) :=
  match stack with
  | [] => .ok s
  | v :: rest =>
    if hv : v < rows.size then
      if hm : s.marked[v] then
        explore rows { s with pops := s.pops + 1 } rest
      else
        let marked := s.marked.set v true
        explore rows { marked, scanned := v :: s.scanned, pops := s.pops + 1 }
          ((unmarked marked rows[v]).reverse ++ rest)
    else
      .error .missingList
termination_by stack.length + unmarkedEdges rows s.marked rows.size
decreasing_by
  · simp
  · have hset := unmarkedEdges_set hv (by simpa using hm) rows.size
    have hlen : (unmarked (s.marked.set v true) rows[v]).length ≤ rows[v].length :=
      List.length_filter_le _ _
    simp only [hv, if_true] at hset
    simp only [List.length_append, List.length_reverse, List.length_cons]
    omega

end Search

namespace Graph

/-- The search from `sources`, the last source on top of the stack. All
sources are checked, in order, before the search starts. -/
def search (g : Graph) (sources : List Int) : Except GraphError (Search g.rows.size) :=
  match sources.findSome? (vertexFault? g.vertexCount) with
  | some fault => .error fault
  | none => Search.explore g.rows (Search.start g.rows.size) (sources.map Int.toNat).reverse

/-- All vertices that can be reached from `sources`, ascending. -/
def closure (g : Graph) (sources : List Int) : Except GraphError (List Nat) :=
  (g.search sources).map Search.members

end Graph

end EpsilonMatch
