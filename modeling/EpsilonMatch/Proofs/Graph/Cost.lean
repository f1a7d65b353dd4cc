import EpsilonMatch.Proofs.Graph.Reachability
/-!
# EpsilonMatch.Proofs.Graph.Cost

How often the loop of a search goes round.

The stack may grow from one turn to the next, and a vertex may stand on it many times, so
neither the stack nor the marks bound the number of turns. Each turn takes one entry off, and
an entry is a source or was put there by an edge. The list of a vertex is only gone through
when the vertex is marked, which happens once, so an edge puts at most one entry on the stack:
the stack and the edges of unmarked vertices together lose one with every turn
(`Search.Trace.length_popped_le`).

`Search.Trace` is the loop turn by turn, with what it takes off and the lists it goes through.
`Search.explore` counts its turns (`Search.exists_trace_of_explore`).
-/

namespace EpsilonMatch

namespace Search

variable {rows : Array (List Nat)} {marked last : Vector Bool rows.size}
  {stack popped scanned : List Nat}

/-- `Trace rows marked stack popped scanned last`: from the given marks and stack, the loop takes
the vertices `popped` off the stack, one in each turn, goes through the lists of `scanned`, both
in this order, and leaves the marks `last`. -/
inductive Trace (rows : Array (List Nat)) :
    Vector Bool rows.size → List Nat → List Nat → List Nat → Vector Bool rows.size → Prop
  /-- Nothing is left on the stack. -/
  | done (marked : Vector Bool rows.size) : Trace rows marked [] [] [] marked
  /-- A marked vertex is dropped. -/
  | drop {marked last : Vector Bool rows.size} {v : Nat} {rest popped scanned : List Nat}
      (hv : v < rows.size) (seen : marked[v] = true)
      (later : Trace rows marked rest popped scanned last) :
      Trace rows marked (v :: rest) (v :: popped) scanned last
  /-- An unmarked vertex is marked, and its unmarked targets go onto the stack. -/
  | scan {marked last : Vector Bool rows.size} {v : Nat} {rest popped scanned : List Nat}
      (hv : v < rows.size) (fresh : marked[v] = false)
      (later : Trace rows (marked.set v true)
        ((unmarked (marked.set v true) rows[v]).reverse ++ rest) popped scanned last) :
      Trace rows marked (v :: rest) (v :: popped) (v :: scanned) last

/-- Every turn takes an entry off the stack, or spends the edges of a vertex on new ones. -/
theorem Trace.length_popped_le (trace : Trace rows marked stack popped scanned last) :
    popped.length ≤ stack.length + unmarkedEdges rows marked rows.size := by
  induction trace with
  | done => exact Nat.zero_le _
  | drop hv seen later ih =>
      rw [List.length_cons, List.length_cons, Nat.add_right_comm]
      exact Nat.succ_le_succ ih
  | @scan marked last v rest popped scanned hv fresh later ih =>
      have spent := unmarkedEdges_set hv fresh rows.size
      have pushed : (unmarked (marked.set v true) rows[v]).length ≤ rows[v].length :=
        List.length_filter_le _ _
      rw [if_pos hv] at spent
      -- the new entries are paid for by the edges of `v`, which is marked from now on
      rw [List.length_append, List.length_reverse] at ih
      rw [List.length_cons, List.length_cons]
      omega

/-- Only lists of vertices that were not marked are gone through. -/
theorem Trace.fresh_of_mem_scanned (trace : Trace rows marked stack popped scanned last) {u : Nat}
    (hu : u ∈ scanned) : marked[u]? = some false := by
  induction trace with
  | done => exact absurd hu List.not_mem_nil
  | drop hv seen later ih => exact ih hu
  | @scan marked last v rest popped scanned hv fresh later ih =>
      by_cases same : u = v
      · subst same
        rw [Vector.getElem?_eq_getElem hv, fresh]
      · have after := ih ((List.mem_cons.1 hu).resolve_left same)
        rwa [Vector.getElem?_set_ne _ (Ne.symm same)] at after

/-- No list is gone through twice. -/
theorem Trace.nodup_scanned (trace : Trace rows marked stack popped scanned last) :
    scanned.Nodup := by
  induction trace with
  | done => exact List.nodup_nil
  | drop hv seen later ih => exact ih
  | @scan marked last v rest popped scanned hv fresh later ih =>
      refine List.nodup_cons.2 ⟨fun again => ?_, ih⟩
      have after := later.fresh_of_mem_scanned again
      simp [hv] at after

/-- A search that ends records its turns and the lists it has gone through. -/
theorem exists_trace_of_explore {s s' : Search rows.size} (h : explore rows s stack = .ok s') :
    ∃ popped scanned, Trace rows s.marked stack popped scanned s'.marked ∧
      s'.pops = s.pops + popped.length ∧ s'.scanned = scanned.reverse ++ s.scanned := by
  fun_induction explore rows s stack with
  | case1 s =>
      obtain rfl : s = s' := by simpa using h
      exact ⟨[], [], .done s.marked, rfl, rfl⟩
  | case2 s v rest hv hm ih =>
      obtain ⟨popped, scanned, trace, turns, lists⟩ := ih h
      refine ⟨v :: popped, scanned, .drop hv hm trace, ?_, lists⟩
      rw [turns, List.length_cons, Nat.add_assoc, Nat.add_comm 1]
  | case3 s v rest hv hm marked ih =>
      obtain ⟨popped, scanned, trace, turns, lists⟩ := ih h
      refine ⟨v :: popped, v :: scanned, .scan hv (by simpa using hm) trace, ?_, ?_⟩
      · rw [turns, List.length_cons, Nat.add_assoc, Nat.add_comm 1]
      · rw [lists, List.reverse_cons, List.append_assoc, List.singleton_append]
  | case4 s v rest hv => simp at h

/-- Before anything is marked, all edges leave unmarked vertices. -/
theorem unmarkedEdges_start (rows : Array (List Nat)) (k : Nat) :
    unmarkedEdges rows (start rows.size).marked k = (rows.toList.take k).flatten.length := by
  induction k with
  | zero => rfl
  | succ k ih =>
      unfold unmarkedEdges
      rw [ih, List.take_add_one, List.flatten_append, List.length_append]
      by_cases hk : k < rows.size
      · simp [start, hk]
      · simp [start, hk]

end Search

namespace Graph

variable {g : Graph} {sources : List Int}

/-- A sound graph is one that has been sealed, seen as an open one. -/
theorem Sound.toGraph_eq (sound : g.Sound) :
    SealedGraph.toGraph ⟨g.rows, sound.target_lt⟩ = g := by
  obtain ⟨count, rows⟩ := g
  exact congrArg (Graph.mk · rows) sound.count.symm

/-- In a sound graph, what vertices reach has a list. -/
theorem Sound.lt_of_reached (sound : g.Sound) (inside : g.Inside sources) {v : Nat}
    (reached : g.Reached sources v) : v < g.rows.size := by
  obtain ⟨s, hs, path⟩ := reached
  have source : s < g.rows.size := by
    have below := (inside s hs).2
    rw [sound.count] at below
    exact Int.ofNat_lt.1 below
  rw [← sound.toGraph_eq] at path
  exact SealedGraph.lt_of_path path source

/-- A search that ends takes at most as many turns as there are sources and edges. -/
theorem exists_trace_of_search {search : Search g.rows.size}
    (found : g.search sources = .ok search) :
    ∃ popped, Search.Trace g.rows (Search.start g.rows.size).marked
        (sources.map Int.toNat).reverse popped search.scanned.reverse search.marked ∧
      search.pops = popped.length ∧ search.pops ≤ sources.length + g.edgeCount := by
  have explored : Search.explore g.rows (Search.start g.rows.size)
      (sources.map Int.toNat).reverse = .ok search := by
    unfold Graph.search at found
    split at found
    · cases found
    · exact found
  obtain ⟨popped, scanned, trace, turns, lists⟩ := Search.exists_trace_of_explore explored
  have order : search.scanned.reverse = scanned := by
    rw [lists]
    simp [Search.start]
  have count : search.pops = popped.length := turns.trans (Nat.zero_add _)
  refine ⟨popped, order ▸ trace, count, ?_⟩
  have bound := trace.length_popped_le
  rw [Search.unmarkedEdges_start, ← Array.length_toList, List.take_length] at bound
  rw [count, edgeCount]
  simpa using bound

end Graph

end EpsilonMatch
