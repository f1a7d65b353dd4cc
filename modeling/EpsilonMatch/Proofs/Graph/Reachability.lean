import EpsilonMatch.Proofs.Graph.Closure
import EpsilonMatch.Proofs.Graph.History
import Mathlib.Data.List.Sort
/-!
# EpsilonMatch.Proofs.Graph.Reachability

What a search answers, on any graph.

Nothing is assumed of the graph: its vertex count may have drifted away from its lists.
There are three cases, and they exclude each other. A source that is no vertex is
reported, the first one if there are several. If the sources reach a vertex without a
list, the search fails, in whatever order it works off its stack. Otherwise it finds what
the sources reach and nothing else.

In the last two cases the answer depends on `Graph.Reached` and the number of lists alone
(`closure_congr`), so neither the order nor the multiplicity of sources and edges matters.
-/

namespace EpsilonMatch

theorem Search.pairwise_members {n : Nat} (s : Search n) : s.members.Pairwise (· < ·) :=
  List.pairwise_lt_range.filter _

namespace Graph

variable {g g' : Graph} {sources sources' : List Int} {v : Nat}

/-- Every source is a vertex. -/
def Inside (g : Graph) (sources : List Int) : Prop :=
  ∀ s ∈ sources, 0 ≤ s ∧ s < g.vertexCount

/-! ### The three cases -/

/-- The first source that is no vertex is reported. -/
theorem search_of_stranger {front back : List Int} {s : Int} (inside : g.Inside front)
    (stranger : ¬ (0 ≤ s ∧ s < g.vertexCount)) :
    g.search (front ++ s :: back) = .error (.notVertex s g.vertexCount) := by
  have passed : front.findSome? (vertexFault? g.vertexCount) = none :=
    List.findSome?_eq_none_iff.2 fun u hu => vertexFault?_eq_none_iff.2 (inside u hu)
  have fault : vertexFault? g.vertexCount s = some (.notVertex s g.vertexCount) :=
    if_neg stranger
  have first : (front ++ s :: back).findSome? (vertexFault? g.vertexCount) =
      some (.notVertex s g.vertexCount) := by
    rw [List.findSome?_append, passed, List.findSome?_cons, fault]
    rfl
  rw [search, first]

theorem closure_of_stranger {front back : List Int} {s : Int} (inside : g.Inside front)
    (stranger : ¬ (0 ≤ s ∧ s < g.vertexCount)) :
    g.closure (front ++ s :: back) = .error (.notVertex s g.vertexCount) := by
  rw [closure, search_of_stranger inside stranger]
  rfl

/-- A vertex without a list ends the search if the sources reach it. -/
theorem closure_of_missing (inside : g.Inside sources) (reached : g.Reached sources v)
    (missing : g.rows.size ≤ v) : g.closure sources = .error .missingList := by
  cases found : g.search sources with
  | ok search =>
      -- the search would have marked `v`, but only vertices with a list are marked
      have member : v ∈ search.members := (mem_members_of_search inside found).2 reached
      have below : v < g.rows.size := List.mem_range.1 (List.mem_filter.1 member).1
      omega
  | error e =>
      have failed := found
      rw [search_eq_explore inside] at failed
      obtain ⟨rfl, -⟩ := Search.exists_path_of_explore_error failed
      rw [closure, found]
      rfl

/-- Otherwise the search lists what the sources reach. -/
theorem exists_closure (inside : g.Inside sources)
    (lists : ∀ v, g.Reached sources v → v < g.rows.size) :
    ∃ vs, g.closure sources = .ok vs ∧ vs.Pairwise (· < ·) ∧
      ∀ v, v ∈ vs ↔ g.Reached sources v := by
  obtain ⟨search, found⟩ := exists_search inside lists
  refine ⟨search.members, ?_, search.pairwise_members, fun v => mem_members_of_search inside found⟩
  rw [closure, found]
  rfl

/-! ### What the answer depends on -/

/-- Two searches from vertices that reach the same, over the same number of lists, have the
same answer. -/
theorem closure_congr (inside : g.Inside sources) (inside' : g'.Inside sources')
    (size : g'.rows.size = g.rows.size)
    (same : ∀ v, g'.Reached sources' v ↔ g.Reached sources v) :
    g'.closure sources' = g.closure sources := by
  by_cases missing : ∃ v, g.Reached sources v ∧ g.rows.size ≤ v
  · obtain ⟨v, reached, hv⟩ := missing
    rw [closure_of_missing inside reached hv,
      closure_of_missing inside' ((same v).2 reached) (size ▸ hv)]
  · have lists : ∀ v, g.Reached sources v → v < g.rows.size := by
      intro v reached
      exact Nat.lt_of_not_le fun hv => missing ⟨v, reached, hv⟩
    obtain ⟨vs, found, sorted, members⟩ := exists_closure inside lists
    obtain ⟨vs', found', sorted', members'⟩ := exists_closure inside' fun v reached =>
      size ▸ lists v ((same v).1 reached)
    have equal : vs' = vs := by
      refine List.Pairwise.eq_of_mem_iff sorted' sorted fun v => ?_
      rw [members', members, same]
    rw [found, found', equal]

theorem Path.of_edges (edges : ∀ v w, g.Edge v w → g'.Edge v w) {u v : Nat} (path : g.Path u v) :
    g'.Path u v := by
  induction path with
  | refl => exact .refl u
  | tail _ last ih => exact ih.tail (edges _ _ last)

theorem reached_congr (edges : ∀ v w, g'.Edge v w ↔ g.Edge v w)
    (members : ∀ s, s ∈ sources' ↔ s ∈ sources) (v : Nat) :
    g'.Reached sources' v ↔ g.Reached sources v := by
  constructor
  · intro reached
    obtain ⟨s, hs, path⟩ := reached
    exact ⟨s, (members s).1 hs, path.of_edges fun v w => (edges v w).1⟩
  · intro reached
    obtain ⟨s, hs, path⟩ := reached
    exact ⟨s, (members s).2 hs, path.of_edges fun v w => (edges v w).2⟩

/-- Sources are all vertices, or there is a first one that is none. -/
theorem inside_or_stranger (g : Graph) (sources : List Int) :
    g.Inside sources ∨ ∃ front s back, sources = front ++ s :: back ∧ g.Inside front ∧
      ¬ (0 ≤ s ∧ s < g.vertexCount) := by
  induction sources with
  | nil => exact .inl fun s hs => absurd hs List.not_mem_nil
  | cons s rest ih =>
      by_cases hs : 0 ≤ s ∧ s < g.vertexCount
      · rcases ih with inside | ⟨front, u, back, rfl, inside, stranger⟩
        · exact .inl (List.forall_mem_cons.2 ⟨hs, inside⟩)
        · exact .inr ⟨s :: front, u, back, rfl, List.forall_mem_cons.2 ⟨hs, inside⟩, stranger⟩
      · exact .inr ⟨[], s, rest, rfl, fun u hu => absurd hu List.not_mem_nil, hs⟩

/-- **A search finds exactly what its sources reach.** On any graph, sound or not, the
first source that is no vertex is reported; if all sources are vertices, the search fails
for want of a list exactly if they reach a vertex that has none, and lists what they reach
exactly if they do not. Graphs with the same edges have the same answer whatever the order
and multiplicity of the edges, and so have, if all are vertices, sources in another order
or multiplicity. -/
theorem closure_eq_reached (g : Graph) (sources : List Int) :
    (∀ front s back, sources = front ++ s :: back → g.Inside front →
      ¬ (0 ≤ s ∧ s < g.vertexCount) →
        g.closure sources = .error (.notVertex s g.vertexCount)) ∧
    (g.Inside sources →
      (g.closure sources = .error .missingList ↔
        ∃ v, g.Reached sources v ∧ g.rows.size ≤ v) ∧
      ((∃ vs, g.closure sources = .ok vs) ↔ ∀ v, g.Reached sources v → v < g.rows.size) ∧
      ∀ vs, g.closure sources = .ok vs →
        vs.Pairwise (· < ·) ∧ ∀ v, v ∈ vs ↔ g.Reached sources v) ∧
    (∀ g' : Graph, g'.vertexCount = g.vertexCount → g'.rows.size = g.rows.size →
      (∀ v w, g'.Edge v w ↔ g.Edge v w) → g'.closure sources = g.closure sources) ∧
    ∀ sources', g.Inside sources → (∀ s, s ∈ sources' ↔ s ∈ sources) →
      g.closure sources' = g.closure sources := by
  refine ⟨?_, ?_, ?_, ?_⟩
  · intro front s back whole inside stranger
    rw [whole]
    exact closure_of_stranger inside stranger
  · intro inside
    by_cases missing : ∃ v, g.Reached sources v ∧ g.rows.size ≤ v
    · obtain ⟨v, reached, hv⟩ := missing
      have failed := closure_of_missing inside reached hv
      refine ⟨iff_of_true failed ⟨v, reached, hv⟩, iff_of_false ?_ ?_, ?_⟩
      · simp [failed]
      · exact fun lists => absurd (lists v reached) (Nat.not_lt_of_le hv)
      · simp [failed]
    · have lists : ∀ v, g.Reached sources v → v < g.rows.size := by
        intro v reached
        exact Nat.lt_of_not_le fun hv => missing ⟨v, reached, hv⟩
      obtain ⟨vs, found, sorted, members⟩ := exists_closure inside lists
      refine ⟨iff_of_false (by simp [found]) missing, iff_of_true ⟨vs, found⟩ lists, ?_⟩
      intro vs' found'
      obtain rfl : vs = vs' := Except.ok.inj (found.symm.trans found')
      exact ⟨sorted, members⟩
  · intro g' count size edges
    rcases g.inside_or_stranger sources with inside | ⟨front, s, back, rfl, inside, stranger⟩
    · have inside' : g'.Inside sources := fun s hs => count ▸ inside s hs
      exact closure_congr inside inside' size (reached_congr edges fun s => Iff.rfl)
    · have inside' : g'.Inside front := fun s hs => count ▸ inside s hs
      rw [closure_of_stranger inside stranger, ← count]
      exact closure_of_stranger inside' (count ▸ stranger)
  · intro sources' inside members
    have inside' : g.Inside sources' := fun s hs => inside s ((members s).1 hs)
    exact closure_congr inside inside' rfl (reached_congr (fun v w => Iff.rfl) members)

/-- The edge from `1` goes to a vertex that came with a new count and has no list. -/
def joinedBeyond : Graph := { vertexCount := 4, rows := #[[1], [3]] }

/-- From `0` the vertex without a list is reached, whichever way the sources are written.
Of two sources that are no vertices the first is reported. -/
theorem joinedBeyond_closure :
    joined.afterAll [.recount 4, .connect 1 3] = joinedBeyond ∧
    (joinedBeyond.Inside [1, 0] ∧ joinedBeyond.closure [1, 0] = .error .missingList) ∧
    joinedBeyond.closure [0, 1, 1] = joinedBeyond.closure [1, 0] ∧
    joinedBeyond.closure [0, -1, 4] = .error (.notVertex (-1) 4) := by
  have inside : joinedBeyond.Inside [1, 0] := by
    simp [Inside, joinedBeyond]
  have beyond : joinedBeyond.Reached [1, 0] 3 := by
    refine ⟨1, by simp, .single ⟨[3], rfl, by simp⟩⟩
  obtain ⟨-, answer, -, order⟩ := closure_eq_reached joinedBeyond [1, 0]
  obtain ⟨first, -⟩ := closure_eq_reached joinedBeyond [0, -1, 4]
  refine ⟨by decide, ⟨inside, (answer inside).1.2 ⟨3, beyond, by decide⟩⟩,
    order _ inside (by simp [or_comm]), ?_⟩
  exact first [0] (-1) [4] rfl (by simp [Inside, joinedBeyond]) (by decide)

end Graph

end EpsilonMatch
