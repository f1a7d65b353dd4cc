import EpsilonMatch.Graph.Closure
import EpsilonMatch.Graph.Path
/-!
# EpsilonMatch.Proofs.Graph.Closure

The search finds exactly what the sources reach.

`Explored` says what an ended search has done: it kept its marks, marked its
stack, marked nothing out of reach, and left no target of a vertex it marked
unmarked. It is proved by one induction over the search (`explored_of_explore`).
The last point makes the marks closed under edges when nothing was marked at
first, so they hold every path (`Graph.mem_members_of_search`). A search fails only if
it reaches a vertex without a list.
-/

namespace EpsilonMatch

namespace Search

variable {n : Nat}

/-- Has the search reached the vertex? -/
def Marks (s : Search n) (v : Nat) : Prop := s.marked[v]? = some true

theorem mem_members {s : Search n} {v : Nat} : v ∈ s.members ↔ s.Marks v := by
  simp only [members, List.mem_filter, List.mem_range, Marks]
  by_cases hv : v < n
  · simp [hv]
  · simp [hv]

theorem not_marks_start (v : Nat) : ¬ (start n).Marks v := by
  by_cases hv : v < n
  · simp [Marks, start, hv]
  · simp [Marks, start, hv]

theorem marks_set {s : Search n} {u v : Nat} (hv : v < n) {scanned : List Nat} {pops : Nat} :
    Marks { marked := s.marked.set v true, scanned, pops } u ↔ u = v ∨ s.Marks u := by
  simp only [Marks, Vector.getElem?_set]
  by_cases h : v = u
  · subst h
    simp [hv]
  · simp [h, Ne.symm h]

theorem mem_unmarked {marked : Vector Bool n} {targets : List Nat} {w : Nat} :
    w ∈ unmarked marked targets ↔ w ∈ targets ∧ marked[w]? ≠ some true := by
  rw [unmarked, List.mem_filter]
  cases marked[w]? with
  | none => simp
  | some b => cases b <;> simp

variable {g : Graph}

/-- What a search does from `s` with a stack until it ends in `s'`. -/
structure Explored (g : Graph) (s s' : Search n) (stack : List Nat) : Prop where
  kept : ∀ v, s.Marks v → s'.Marks v
  taken : ∀ v ∈ stack, s'.Marks v
  reached : ∀ v, s'.Marks v → s.Marks v ∨ ∃ u ∈ stack, g.Path u v
  closed : ∀ u, s'.Marks u → ¬ s.Marks u → ∀ w, g.Edge u w → s'.Marks w

theorem Explored.nil (s : Search n) : Explored g s s [] where
  kept _ hv := hv
  taken _ hv := absurd hv List.not_mem_nil
  reached _ hv := .inl hv
  closed _ hu hs := absurd hu hs

/-- A marked vertex is taken from the stack and nothing else happens. -/
theorem Explored.skip {s t s' : Search n} {v : Nat} {rest : List Nat} (h : Explored g t s' rest)
    (marks : s.Marks v) (same : ∀ u, t.Marks u ↔ s.Marks u) : Explored g s s' (v :: rest) := by
  refine ⟨fun u hu => h.kept u ((same u).2 hu), ?_, ?_, fun u hu hs => h.closed u hu ?_⟩
  · intro u hu
    cases List.mem_cons.1 hu with
    | inl hv => exact hv ▸ h.kept v ((same v).2 marks)
    | inr hu => exact h.taken u hu
  · intro u hu
    rcases h.reached u hu with ht | ⟨w, hw, path⟩
    · exact .inl ((same u).1 ht)
    · exact .inr ⟨w, List.mem_cons_of_mem v hw, path⟩
  · exact fun ht => hs ((same u).1 ht)

/-- An unmarked vertex is marked, and its unmarked targets go onto the stack. -/
theorem Explored.visit {s t s' : Search n} {v : Nat} {rest front targets : List Nat}
    (h : Explored g t s' (front ++ rest)) (list : g.rows[v]? = some targets)
    (marks : ∀ u, t.Marks u ↔ u = v ∨ s.Marks u)
    (pushed : ∀ w, w ∈ front ↔ w ∈ targets ∧ ¬ t.Marks w) : Explored g s s' (v :: rest) := by
  -- a target of `v` is marked by now or stands on the new stack
  have target {w : Nat} (edge : g.Edge v w) : s'.Marks w := by
    obtain ⟨ws, hws, hw⟩ := edge
    obtain rfl : targets = ws := by simpa [list] using hws
    by_cases hm : t.Marks w
    · exact h.kept w hm
    · exact h.taken w (List.mem_append_left _ ((pushed w).2 ⟨hw, hm⟩))
  refine ⟨fun u hu => h.kept u ((marks u).2 (.inr hu)), ?_, ?_, ?_⟩
  · intro u hu
    cases List.mem_cons.1 hu with
    | inl hv => exact h.kept u ((marks u).2 (.inl hv))
    | inr hu => exact h.taken u (List.mem_append_right _ hu)
  · intro u hu
    rcases h.reached u hu with ht | ⟨w, hw, path⟩
    · rcases (marks u).1 ht with rfl | hs
      · exact .inr ⟨u, List.mem_cons_self, .refl u⟩
      · exact .inl hs
    · rcases List.mem_append.1 hw with hw | hw
      · have edge : g.Edge v w := ⟨targets, list, ((pushed w).1 hw).1⟩
        exact .inr ⟨v, List.mem_cons_self, (Graph.Path.single edge).trans path⟩
      · exact .inr ⟨w, List.mem_cons_of_mem v hw, path⟩
  · intro u hu hs w edge
    by_cases huv : u = v
    · exact target (huv ▸ edge)
    · refine h.closed u hu (fun ht => ?_) w edge
      cases (marks u).1 ht with
      | inl hv => exact huv hv
      | inr hm => exact hs hm

theorem explored_of_explore {s s' : Search g.rows.size} {stack : List Nat}
    (h : explore g.rows s stack = .ok s') : Explored g s s' stack := by
  fun_induction explore g.rows s stack with
  | case1 s =>
      obtain rfl : s = s' := by simpa using h
      exact .nil s
  | case2 s v rest hv hm ih =>
      have marks : s.Marks v := by simp [Marks, hv, hm]
      exact (ih h).skip marks fun _ => Iff.rfl
  | case3 s v rest hv hm marked ih =>
      have list : g.rows[v]? = some g.rows[v] := by simp [hv]
      refine (ih h).visit list (fun u => marks_set hv) fun w => ?_
      rw [List.mem_reverse, mem_unmarked]
      rfl
  | case4 s v rest hv => simp at h

/-- A search fails only at a vertex without a list, and reaches it. -/
theorem exists_path_of_explore_error {s : Search g.rows.size} {stack : List Nat} {e : GraphError}
    (h : explore g.rows s stack = .error e) :
    e = .missingList ∧ ∃ u ∈ stack, ∃ v, g.Path u v ∧ g.rows.size ≤ v := by
  fun_induction explore g.rows s stack with
  | case1 s => simp at h
  | case2 s v rest hv hm ih =>
      obtain ⟨he, u, hu, w, path, hw⟩ := ih h
      exact ⟨he, u, List.mem_cons_of_mem v hu, w, path, hw⟩
  | case3 s v rest hv hm marked ih =>
      obtain ⟨he, u, hu, w, path, hw⟩ := ih h
      refine ⟨he, ?_⟩
      rcases List.mem_append.1 hu with hu | hu
      · have target := (mem_unmarked.1 (List.mem_reverse.1 hu)).1
        have edge : g.Edge v u := ⟨g.rows[v], by simp [hv], target⟩
        exact ⟨v, List.mem_cons_self, w, (Graph.Path.single edge).trans path, hw⟩
      · exact ⟨u, List.mem_cons_of_mem v hu, w, path, hw⟩
  | case4 s v rest hv =>
      obtain rfl : GraphError.missingList = e := by simpa using h
      exact ⟨rfl, v, List.mem_cons_self, v, .refl v, Nat.le_of_not_lt hv⟩

/-- From nothing marked, an ended search has marked what its stack reaches. -/
theorem Explored.marks_iff {s' : Search n} {stack : List Nat}
    (h : Explored g (start n) s' stack) {v : Nat} :
    s'.Marks v ↔ ∃ u ∈ stack, g.Path u v := by
  constructor
  · intro hv
    cases h.reached v hv with
    | inl hs => exact absurd hs (not_marks_start v)
    | inr reached => exact reached
  · rintro ⟨u, hu, path⟩
    induction path with
    | refl => exact h.taken u hu
    | tail _ last ih => exact h.closed _ ih (not_marks_start _) _ last

end Search

namespace Graph

variable {g : Graph} {sources : List Int}

theorem mem_stack_iff {sources : List Int} (h : ∀ s ∈ sources, 0 ≤ s) {u : Nat} :
    u ∈ (sources.map Int.toNat).reverse ↔ (u : Int) ∈ sources := by
  simp only [List.mem_reverse, List.mem_map]
  constructor
  · rintro ⟨s, hs, rfl⟩
    rwa [Int.toNat_of_nonneg (h s hs)]
  · exact fun hu => ⟨u, hu, Int.toNat_natCast u⟩

theorem search_eq_explore (h : ∀ s ∈ sources, 0 ≤ s ∧ s < g.vertexCount) :
    g.search sources =
      Search.explore g.rows (.start g.rows.size) (sources.map Int.toNat).reverse := by
  have checked : sources.findSome? (vertexFault? g.vertexCount) = none :=
    List.findSome?_eq_none_iff.2 fun s hs => vertexFault?_eq_none_iff.2 (h s hs)
  rw [search, checked]

/-- A search that succeeds has found exactly what the sources reach. -/
theorem mem_members_of_search (h : ∀ s ∈ sources, 0 ≤ s ∧ s < g.vertexCount)
    {search : Search g.rows.size} (found : g.search sources = .ok search) {v : Nat} :
    v ∈ search.members ↔ g.Reached sources v := by
  rw [search_eq_explore h] at found
  rw [Search.mem_members, (Search.explored_of_explore found).marks_iff, Reached]
  simp only [mem_stack_iff fun s hs => (h s hs).1]

/-- A search whose sources are vertices succeeds if whatever they reach has a
list. -/
theorem exists_search (h : ∀ s ∈ sources, 0 ≤ s ∧ s < g.vertexCount)
    (lists : ∀ v, g.Reached sources v → v < g.rows.size) :
    ∃ search, g.search sources = .ok search := by
  cases found : g.search sources with
  | ok search => exact ⟨search, rfl⟩
  | error e =>
      rw [search_eq_explore h] at found
      obtain ⟨-, u, hu, v, path, hv⟩ := Search.exists_path_of_explore_error found
      have := lists v ⟨u, (mem_stack_iff fun s hs => (h s hs).1).1 hu, path⟩
      omega

end Graph

namespace SealedGraph

variable {g : SealedGraph}

theorem lt_of_edge {v w : Nat} (h : g.toGraph.Edge v w) : w < g.vertexCount := by
  obtain ⟨targets, ht, hw⟩ := h
  exact g.target_lt targets (Array.mem_of_getElem? ht) w hw

theorem lt_of_path {v w : Nat} (h : g.toGraph.Path v w) (hv : v < g.vertexCount) :
    w < g.vertexCount := by
  induction h with
  | refl => exact hv
  | tail _ last _ => exact lt_of_edge last

/-- In a sealed graph, a search from vertices succeeds and finds exactly what they
reach. -/
theorem exists_search {states : List Nat} (h : ∀ s ∈ states, s < g.vertexCount) :
    ∃ search, g.toGraph.search (states.map Int.ofNat) = .ok search ∧
      ∀ v, v ∈ search.members ↔ ∃ s ∈ states, g.toGraph.Path s v := by
  have sources : ∀ s ∈ states.map Int.ofNat, 0 ≤ s ∧ s < g.toGraph.vertexCount := by
    intro s hs
    obtain ⟨u, hu, rfl⟩ := List.mem_map.1 hs
    exact ⟨Int.natCast_nonneg u, Int.ofNat_lt.2 (h u hu)⟩
  have reached (v : Nat) :
      g.toGraph.Reached (states.map Int.ofNat) v ↔ ∃ s ∈ states, g.toGraph.Path s v := by
    have member (s : Nat) : (s : Int) ∈ states.map Int.ofNat ↔ s ∈ states := by
      rw [List.mem_map]
      exact ⟨fun ⟨_, hu, h⟩ => Int.ofNat.inj h ▸ hu, fun hs => ⟨s, hs, rfl⟩⟩
    simp only [Graph.Reached, member]
  obtain ⟨search, found⟩ := Graph.exists_search sources fun v hv => by
    obtain ⟨s, hs, path⟩ := (reached v).1 hv
    exact lt_of_path path (h s hs)
  exact ⟨search, found, fun v => (Graph.mem_members_of_search sources found).trans (reached v)⟩

end SealedGraph

end EpsilonMatch
