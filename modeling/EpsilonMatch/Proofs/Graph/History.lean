import EpsilonMatch.Proofs.Graph.Soundness
/-!
# EpsilonMatch.Proofs.Graph.History

What becomes of an open graph over any sequence of changes.

A change is a new edge or a new vertex count. It leaves a graph also if it fails
(`Graph.after`), and that an edge which is refused changes nothing is a fact about
`Graph.connect`, read off `Graph.connect_eq`. The vertex count is assigned without a
test, so it may drift away from the lists; what the lists hold is all the same
determined by the edges that were accepted on the way (`Graph.addedAll`). Of the
targets it is known that each was a vertex when its edge came, and so lies below the
largest count the graph has had (`Graph.peak`).

`Graph.after_cases` says what one change can do. Each invariant is then an induction
over the changes.
-/

namespace EpsilonMatch

/-- What may be done to an open graph. -/
inductive Change
  /-- A new edge. -/
  | connect (v w : Int)
  /-- A new vertex count. -/
  | recount (n : Int)
  deriving DecidableEq

/-- The count that a change assigns. -/
def Change.count? : Change → Option Int
  | connect _ _ => none
  | recount n => some n

/-- Carries out a change. -/
def Change.run : Change → GraphM Unit
  | connect v w => Graph.connect v w
  | recount n => modify (·.recount n)

namespace Graph

variable {g : Graph} {c : Change} {changes : List Change}

/-- What a change leaves of the graph, whether it succeeds or fails. -/
def after (g : Graph) (c : Change) : Graph :=
  match c.run g with
  | .ok _ now => now
  | .error _ now => now

/-- The edge that a change adds, if it adds one. -/
def added (g : Graph) : Change → List (Int × Int)
  | .connect v w =>
    match connect v w g with
    | .ok _ _ => [(v, w)]
    | .error _ _ => []
  | .recount _ => []

/-- The graph behind a sequence of changes. -/
def afterAll (g : Graph) (changes : List Change) : Graph := changes.foldl after g

/-- The edges that a sequence of changes adds, in order. -/
def addedAll : Graph → List Change → List (Int × Int)
  | _, [] => []
  | g, c :: rest => g.added c ++ (g.after c).addedAll rest

/-- The largest vertex count that a graph has over a sequence of changes. -/
def peak : Graph → List Change → Int
  | g, [] => g.vertexCount
  | g, c :: rest => max g.vertexCount ((g.after c).peak rest)

@[simp] theorem afterAll_nil (g : Graph) : g.afterAll [] = g := rfl

@[simp] theorem afterAll_cons (g : Graph) (c : Change) (rest : List Change) :
    g.afterAll (c :: rest) = (g.after c).afterAll rest := rfl

/-! ### One change -/

/-- An edge is added between two vertices, the first of which has a list; an edge is
refused; or the count is assigned. -/
theorem after_cases (g : Graph) (c : Change) :
    (∃ v w : Nat, c = .connect v w ∧ (w : Int) < g.vertexCount ∧ v < g.rows.size ∧
      g.added c = [((v : Int), (w : Int))] ∧
      g.after c = { g with rows := g.rows.modify v (· ++ [w]) }) ∨
    (∃ v w : Int, c = .connect v w ∧ g.added c = [] ∧ g.after c = g) ∨
    ∃ n : Int, c = .recount n ∧ g.added c = [] ∧ g.after c = g.recount n := by
  cases c with
  | recount n => exact .inr (.inr ⟨n, rfl, rfl, rfl⟩)
  | connect v w =>
      cases connected : connect v w g with
      | error e left =>
          obtain ⟨-, rfl⟩ := connect_eq_error connected
          refine .inr (.inl ⟨v, w, rfl, ?_, ?_⟩)
          · rw [added, connected]
          · rw [after, Change.run, connected]
      | ok _ next =>
          obtain ⟨⟨hv, -⟩, ⟨hw, count⟩, row, rfl⟩ := connect_eq_ok_iff.1 connected
          obtain ⟨v, rfl⟩ := Int.eq_ofNat_of_zero_le hv
          obtain ⟨w, rfl⟩ := Int.eq_ofNat_of_zero_le hw
          refine .inl ⟨v, w, rfl, count, Int.ofNat_lt.1 row, ?_, ?_⟩
          · rw [added, connected]
          · rw [after, Change.run, connected]
            rfl

theorem size_rows_after (g : Graph) (c : Change) : (g.after c).rows.size = g.rows.size := by
  rcases g.after_cases c with ⟨v, w, -, -, -, -, next⟩ | ⟨v, w, -, -, next⟩ | ⟨n, -, -, next⟩
  · simp [next]
  · rw [next]
  · rw [next, rows_recount]

theorem getElem?_lists (g : Graph) (u : Nat) :
    g.lists[u]? = g.rows[u]?.map (·.map Int.ofNat) := by
  simp [lists]

/-- The list of a vertex is prolonged by the target of the edge that leaves it. -/
theorem getElem?_lists_after (g : Graph) (c : Change) (u : Nat) :
    (g.after c).lists[u]? =
      g.lists[u]?.map (· ++ ((g.added c).filter (·.1 = (u : Int))).map (·.2)) := by
  rcases g.after_cases c with ⟨v, w, -, -, -, edge, next⟩ | ⟨v, w, -, none, next⟩ |
    ⟨n, -, none, next⟩
  · rw [edge, next, getElem?_lists, getElem?_lists, Array.getElem?_modify]
    by_cases h : v = u
    · cases g.rows[u]? with
      | none => simp [h]
      | some targets => simp [h]
    · have other : ¬ (v : Int) = u := fun same => h (Int.ofNat.inj same)
      simp [h, other, Function.comp_def]
  · simp [none, next]
  · simp [none, next, getElem?_lists, Function.comp_def]

theorem length_flatten_modify {lists : List (List Nat)} {v : Nat} (w : Nat)
    (hv : v < lists.length) :
    (lists.modify v (· ++ [w])).flatten.length = lists.flatten.length + 1 := by
  induction lists generalizing v with
  | nil => exact absurd hv (Nat.not_lt_zero v)
  | cons targets rest ih =>
      cases v with
      | zero => simp; omega
      | succ v =>
          have := ih (Nat.lt_of_succ_lt_succ hv)
          simp only [List.modify_succ_cons, List.flatten_cons, List.length_append]
          omega

theorem edgeCount_after (g : Graph) (c : Change) :
    (g.after c).edgeCount = g.edgeCount + (g.added c).length := by
  rcases g.after_cases c with ⟨v, w, -, -, row, edge, next⟩ | ⟨v, w, -, none, next⟩ |
    ⟨n, -, none, next⟩
  · rw [edge, next, edgeCount, edgeCount, Array.toList_modify]
    exact length_flatten_modify w (by simpa using row)
  · rw [none, next]
    rfl
  · rw [none, next]
    rfl

/-- The target of a new edge is a vertex when the edge comes. -/
theorem added_range {e : Int × Int} (h : e ∈ g.added c) : 0 ≤ e.2 ∧ e.2 < g.vertexCount := by
  rcases g.after_cases c with ⟨v, w, -, count, -, edge, -⟩ | ⟨v, w, -, none, -⟩ | ⟨n, -, none, -⟩
  · rw [edge, List.mem_singleton] at h
    rw [h]
    exact ⟨Int.natCast_nonneg w, count⟩
  · rw [none] at h
    exact absurd h List.not_mem_nil
  · rw [none] at h
    exact absurd h List.not_mem_nil

/-! ### All changes -/

theorem size_rows_afterAll (g : Graph) (changes : List Change) :
    (g.afterAll changes).rows.size = g.rows.size := by
  induction changes generalizing g with
  | nil => rfl
  | cons c rest ih => rw [afterAll_cons, ih, size_rows_after]

/-- The list of a vertex is the first one, followed by the targets of the edges from
that vertex that were added, in order. -/
theorem getElem?_lists_afterAll (g : Graph) (changes : List Change) (u : Nat) :
    (g.afterAll changes).lists[u]? =
      g.lists[u]?.map (· ++ ((g.addedAll changes).filter (·.1 = (u : Int))).map (·.2)) := by
  induction changes generalizing g with
  | nil => simp [addedAll]
  | cons c rest ih =>
      rw [afterAll_cons, ih, getElem?_lists_after, addedAll, Option.map_map]
      simp [Function.comp_def]

theorem edgeCount_afterAll (g : Graph) (changes : List Change) :
    (g.afterAll changes).edgeCount = g.edgeCount + (g.addedAll changes).length := by
  induction changes generalizing g with
  | nil => rfl
  | cons c rest ih =>
      rw [afterAll_cons, ih, edgeCount_after, addedAll, List.length_append, Nat.add_assoc]

theorem vertexCount_le_peak (g : Graph) (changes : List Change) :
    g.vertexCount ≤ g.peak changes := by
  cases changes with
  | nil => exact Int.le_refl _
  | cons c rest => exact Int.le_max_left _ _

/-- The targets of new edges lie below the largest count on the way. -/
theorem addedAll_range {e : Int × Int} (h : e ∈ g.addedAll changes) :
    0 ≤ e.2 ∧ e.2 < g.peak changes := by
  induction changes generalizing g with
  | nil => exact absurd h List.not_mem_nil
  | cons c rest ih =>
      rw [peak]
      cases List.mem_append.1 h with
      | inl here =>
          have := added_range here
          omega
      | inr later =>
          have := ih later
          omega

/-- From a sound graph on, every target lies below the largest count on the way. -/
theorem Sound.target_lt_peak (sound : g.Sound) (changes : List Change) {targets : List Int}
    (ht : targets ∈ (g.afterAll changes).lists) {w : Int} (hw : w ∈ targets) :
    0 ≤ w ∧ w < g.peak changes := by
  obtain ⟨u, hu⟩ := List.mem_iff_getElem?.1 ht
  rw [getElem?_lists_afterAll] at hu
  obtain ⟨first, row, rfl⟩ := Option.map_eq_some_iff.1 hu
  cases List.mem_append.1 hw with
  | inl old =>
      have range := (adjacencyFault?_eq_none_iff.1 sound.adjacencyFault?_eq_none).2 first
        (List.mem_of_getElem? row) w old
      have := g.vertexCount_le_peak changes
      omega
  | inr new =>
      obtain ⟨e, he, rfl⟩ := List.mem_map.1 new
      exact addedAll_range (List.mem_filter.1 he).1

/-! ### The vertex count -/

theorem vertexCount_after (g : Graph) (c : Change) :
    (g.after c).vertexCount = c.count?.getD g.vertexCount := by
  rcases g.after_cases c with ⟨v, w, rfl, -, -, -, next⟩ | ⟨v, w, rfl, -, next⟩ | ⟨n, rfl, -, next⟩
  · rw [next]
    rfl
  · rw [next]
    rfl
  · rw [next]
    rfl

/-- The vertex count is the one that was assigned last. -/
theorem vertexCount_afterAll (g : Graph) (changes : List Change) :
    (g.afterAll changes).vertexCount =
      (changes.filterMap Change.count?).getLastD g.vertexCount := by
  induction changes generalizing g with
  | nil => rfl
  | cons c rest ih =>
      rw [afterAll_cons, ih, vertexCount_after]
      cases c with
      | connect v w => rfl
      | recount n =>
          show _ = (n :: rest.filterMap Change.count?).getLastD g.vertexCount
          rw [List.getLastD_cons]
          rfl

theorem peak_eq_of_unassigned (h : changes.filterMap Change.count? = []) :
    g.peak changes = g.vertexCount := by
  induction changes generalizing g with
  | nil => rfl
  | cons c rest ih =>
      cases c with
      | recount n => simp [Change.count?] at h
      | connect v w =>
          have same : (g.after (.connect v w)).vertexCount = g.vertexCount :=
            vertexCount_after g (.connect v w)
          rw [peak, ih h, same, Int.max_self]

/-- A sound graph stays sound as long as its count is not assigned. -/
theorem Sound.afterAll (sound : g.Sound) (h : changes.filterMap Change.count? = []) :
    (g.afterAll changes).Sound := by
  constructor
  · rw [vertexCount_afterAll, h, size_rows_afterAll]
    exact sound.count
  · intro targets ht w hw
    have mem : targets.map Int.ofNat ∈ (g.afterAll changes).lists :=
      List.mem_map_of_mem (Array.mem_toList_iff.2 ht)
    have below := (sound.target_lt_peak changes mem (List.mem_map_of_mem hw)).2
    rw [peak_eq_of_unassigned h, sound.count] at below
    rw [size_rows_afterAll]
    exact Int.ofNat_lt.1 below

end Graph

/-! ### Summary -/

/-- **What holds of an open graph after any changes.** A graph that construction
accepts keeps its number of lists, and its count is the one assigned last. Each list
is the first one followed by the targets of the accepted edges from its vertex, in
order, and the edges are counted accordingly. An edge is accepted exactly if both of
its ends are vertices and the first has a list; a refusal names the first fault and
leaves the graph as it was. Every target lies below the largest count the graph has
had, and if the count was never assigned, the graph passes its check and can be
sealed. -/
theorem Graph.changes_invariant {count : Int} {lists : List (List Int)} {g now : Graph}
    {changes : List Change} (built : Graph.ofLists? count lists = .ok g)
    (changed : g.afterAll changes = now) :
    now.rows.size = g.rows.size ∧
    now.vertexCount = (changes.filterMap Change.count?).getLastD g.vertexCount ∧
    (∀ u : Nat, now.lists[u]? =
      g.lists[u]?.map (· ++ ((g.addedAll changes).filter (·.1 = (u : Int))).map (·.2))) ∧
    now.edgeCount = g.edgeCount + (g.addedAll changes).length ∧
    (∀ v w : Int,
      ((∃ next, connect v w now = .ok () next) ↔
        (0 ≤ v ∧ v < now.vertexCount) ∧ (0 ≤ w ∧ w < now.vertexCount) ∧ v < now.rows.size) ∧
      ∀ e left, connect v w now = .error e left →
        (e = if 0 ≤ v ∧ v < now.vertexCount then
            if 0 ≤ w ∧ w < now.vertexCount then .missingList else .notVertex w now.vertexCount
          else .notVertex v now.vertexCount) ∧
        left = now ∧ g.afterAll (changes ++ [.connect v w]) = now) ∧
    (∀ targets ∈ now.lists, ∀ w ∈ targets, 0 ≤ w ∧ w < g.peak changes) ∧
    (changes.filterMap Change.count? = [] →
      now.check = .ok () ∧ ∃ closed, now.seal = .ok closed ∧ closed.rows = now.rows) := by
  have sound : g.Sound := sound_of_ofLists? built
  subst changed
  refine ⟨g.size_rows_afterAll changes, g.vertexCount_afterAll changes,
    g.getElem?_lists_afterAll changes, g.edgeCount_afterAll changes, ?_, ?_, ?_⟩
  · intro v w
    refine ⟨?_, ?_⟩
    · simp only [connect_eq_ok_iff, exists_and_left, exists_eq', and_true]
    · intro e left refused
      obtain ⟨first, rfl⟩ := connect_eq_error refused
      refine ⟨first, rfl, ?_⟩
      rw [afterAll, List.foldl_append]
      show (g.afterAll changes).after (.connect v w) = g.afterAll changes
      rw [after, Change.run, refused]
  · intro targets ht w hw
    exact sound.target_lt_peak changes ht hw
  · intro unassigned
    have still := sound.afterAll unassigned
    exact ⟨still.check_eq_ok, _, still.seal_eq_ok, rfl⟩

/-- Two vertices and an edge between them. -/
def Graph.joined : Graph := { vertexCount := 2, rows := #[[1], []] }

/-- The count is raised and lowered. Of the edges, one is accepted, one finds no list
to go to, and one no vertex to start from. -/
def drift : List Change :=
  [.recount 4, .connect 1 3, .connect 3 0, .recount (-1), .connect 0 0]

/-- The graph of two vertices drifts, holds an edge to a vertex it no longer has, and
refuses the next edge; with an edge but no new count it can still be sealed. -/
theorem Graph.drift_invariant :
    (Graph.ofLists? 2 [[1], []] = .ok Graph.joined ∧
      Graph.joined.afterAll drift = { vertexCount := -1, rows := #[[1], [3]] } ∧
      [Change.connect 1 0].filterMap Change.count? = []) ∧
    (∀ targets ∈ (Graph.joined.afterAll drift).lists, ∀ w ∈ targets,
      0 ≤ w ∧ w < Graph.joined.peak drift) ∧
    (Graph.joined.afterAll drift).edgeCount =
      Graph.joined.edgeCount + (Graph.joined.addedAll drift).length ∧
    (connect 0 0 (Graph.joined.afterAll drift) =
        .error (.notVertex 0 (-1)) (Graph.joined.afterAll drift) ∧
      Graph.joined.afterAll (drift ++ [.connect 0 0]) = Graph.joined.afterAll drift) ∧
    (Graph.joined.afterAll [.connect 1 0]).check = .ok () := by
  have built : Graph.ofLists? 2 [[1], []] = .ok Graph.joined := rfl
  have changed : Graph.joined.afterAll drift = { vertexCount := -1, rows := #[[1], [3]] } := by
    decide
  have refused : connect 0 0 (Graph.joined.afterAll drift) =
      .error (.notVertex 0 (-1)) (Graph.joined.afterAll drift) := by
    rw [changed]
    rfl
  obtain ⟨-, -, -, edges, outcome, targets, -⟩ := Graph.changes_invariant built rfl
  have joinedBack : Graph.joined.afterAll [.connect 1 0] = _ := rfl
  obtain ⟨-, -, -, -, -, -, sealable⟩ := Graph.changes_invariant built joinedBack
  exact ⟨⟨built, changed, rfl⟩, targets, edges,
    ⟨refused, ((outcome 0 0).2 _ _ refused).2.2⟩, (sealable rfl).1⟩

end EpsilonMatch
