import EpsilonMatch.Proofs.Graph.History
/-!
# EpsilonMatch.Proofs.Graph.Validation

Which counts and lists make a graph, and what is reported of the others.

Lists are checked against a count in three places: when an open graph is built, when a sealed one
is, and when an open graph is checked or sealed as it stands. `ListsFit` says when they pass, and
`FirstFault` what is reported if they do not, both without a search.

Sealed construction decides. It comes to a graph exactly if that graph has the given count and
lists (`SealedGraph.ofLists?_eq_ok_iff`), and open construction is the same construction, seen as
an open graph, unless no lists are given (`Graph.ofLists?_of_given`). An open graph is sealed by
building a sealed one from its fields, so what comes of it is the graph as it stood
(`Graph.seal_eq_ok_iff`). Nothing is assumed about how far the count has drifted from the lists.
-/

namespace EpsilonMatch

variable {count : Int} {lists : List (List Int)} {g : Graph} {s : SealedGraph} {e : GraphError}

namespace Graph

/-! ### Faults -/

/-- There is one list per vertex, and every target is a vertex. -/
structure ListsFit (count : Int) (lists : List (List Int)) : Prop where
  nonneg : 0 ≤ count
  length : lists.length = count
  range : ∀ targets ∈ lists, ∀ w ∈ targets, 0 ≤ w ∧ w < count

/-- What is reported of a count and lists: the first of a negative count, a wrong number of lists,
and a target that is no vertex, row by row. -/
inductive FirstFault (count : Int) (lists : List (List Int)) : GraphError → Prop
  | negative (below : count < 0) : FirstFault count lists .negativeCount
  | length (nonneg : 0 ≤ count) (differs : lists.length ≠ count) :
    FirstFault count lists (.listCount count lists.length)
  /-- The targets in front of `w` are vertices, `w` is none. -/
  | target {front back : List Int} {w : Int} (nonneg : 0 ≤ count) (length : lists.length = count)
    (rows : lists.flatten = front ++ w :: back) (inside : ∀ x ∈ front, 0 ≤ x ∧ x < count)
    (stranger : ¬ (0 ≤ w ∧ w < count)) : FirstFault count lists (.notVertex w count)

theorem vertexFault?_eq_some_iff {v : Int} :
    vertexFault? count v = some e ↔ ¬ (0 ≤ v ∧ v < count) ∧ e = .notVertex v count := by
  by_cases inside : 0 ≤ v ∧ v < count
  · simp [vertexFault?, inside]
  · rw [vertexFault?, if_neg inside, Option.some.injEq, eq_comm]
    exact (and_iff_right inside).symm

theorem adjacencyFault?_eq_some_iff (nonneg : 0 ≤ count) :
    adjacencyFault? count lists = some e ↔ FirstFault count lists e := by
  constructor
  · intro found
    by_cases length : lists.length = count
    · rw [adjacencyFault?, if_pos length] at found
      obtain ⟨front, w, back, rows, fault, passed⟩ := List.findSome?_eq_some_iff.1 found
      obtain ⟨stranger, rfl⟩ := vertexFault?_eq_some_iff.1 fault
      exact .target nonneg length rows (fun x hx => vertexFault?_eq_none_iff.1 (passed x hx))
        stranger
    · rw [adjacencyFault?, if_neg length] at found
      obtain rfl := Option.some.inj found
      exact .length nonneg length
  · intro fault
    cases fault with
    | negative below => exact absurd nonneg (Int.not_le.2 below)
    | length _ differs => rw [adjacencyFault?, if_neg differs]
    | target _ length rows inside stranger =>
        rw [adjacencyFault?, if_pos length]
        exact List.findSome?_eq_some_iff.2 ⟨_, _, _, rows,
          vertexFault?_eq_some_iff.2 ⟨stranger, rfl⟩,
          fun x hx => vertexFault?_eq_none_iff.2 (inside x hx)⟩

theorem FirstFault.eq_negativeCount (fault : FirstFault count lists e) (below : count < 0) :
    e = .negativeCount := by
  cases fault with
  | negative _ => rfl
  | length nonneg _ => exact absurd below (Int.not_lt.2 nonneg)
  | target nonneg _ _ _ _ => exact absurd below (Int.not_lt.2 nonneg)

/-- A first fault in words: what it names is indeed wrong. -/
theorem FirstFault.message_cases (fault : FirstFault count lists e) :
    e.message = "Number of vertices in a Digraph must be non-negative" ∧ count < 0 ∨
    e.message = "Digraph has " ++ toString count ++ " vertices but " ++
      toString lists.length ++ " adjacency lists" ∧ lists.length ≠ count ∨
    ∃ w ∈ lists.flatten, ¬ (0 ≤ w ∧ w < count) ∧
      e.message = "vertex " ++ toString w ++ " is not between 0 and " ++ toString (count - 1) := by
  cases fault with
  | negative below => exact .inl ⟨rfl, below⟩
  | length _ differs => exact .inr (.inl ⟨rfl, differs⟩)
  | @target front back w _ _ rows _ stranger =>
      refine .inr (.inr ⟨w, ?_, stranger, rfl⟩)
      rw [rows]
      exact List.mem_append_right front List.mem_cons_self

/-- A number of lists is never negative. -/
theorem listsFit_iff : ListsFit count lists ↔ adjacencyFault? count lists = none := by
  rw [adjacencyFault?_eq_none_iff]
  refine ⟨fun fits => ⟨fits.length, fits.range⟩, fun passed => ⟨?_, passed.1, passed.2⟩⟩
  rw [← passed.1]
  exact Int.natCast_nonneg _

theorem Sound.listsFit (sound : g.Sound) : ListsFit g.vertexCount g.lists :=
  listsFit_iff.2 sound.adjacencyFault?_eq_none

/-- Integers that are not negative survive the way into a graph and back. -/
theorem map_ofNat_map_toNat (nonneg : ∀ targets ∈ lists, ∀ w ∈ targets, 0 ≤ w) :
    (lists.map (·.map Int.toNat)).map (·.map Int.ofNat) = lists := by
  rw [List.map_map]
  refine (List.map_congr_left fun targets ht => ?_).trans (List.map_id lists)
  show (targets.map Int.toNat).map Int.ofNat = targets
  rw [List.map_map]
  exact (List.map_congr_left fun w hw => Int.toNat_of_nonneg (nonneg targets ht w hw)).trans
    (List.map_id targets)

end Graph

/-! ### Sealed construction -/

namespace SealedGraph

theorem sound_toGraph (s : SealedGraph) : s.toGraph.Sound :=
  ⟨rfl, s.target_lt⟩

theorem seal_toGraph (s : SealedGraph) : s.toGraph.seal = .ok s :=
  s.sound_toGraph.seal_eq_ok

/-- A negative count is refused first. -/
theorem ofLists?_eq_error_iff :
    ofLists? count lists = .error e ↔ Graph.FirstFault count lists e := by
  by_cases below : count < 0
  · rw [ofLists?, if_pos below, Except.error.injEq, eq_comm]
    refine ⟨fun same => ?_, fun fault => fault.eq_negativeCount below⟩
    rw [same]
    exact .negative below
  · rw [← Graph.adjacencyFault?_eq_some_iff (Int.not_lt.1 below), ofLists?, if_neg below]
    split
    next fault found => rw [found, Except.error.injEq, Option.some.injEq]
    next passed => simp [passed]

/-- What is built has the count and lists that were given. -/
theorem ofLists?_eq_ok_iff :
    ofLists? count lists = .ok s ↔ s.toGraph.vertexCount = count ∧ s.toGraph.lists = lists := by
  constructor
  · intro built
    unfold ofLists? at built
    split at built
    · cases built
    · split at built
      · cases built
      next passed =>
        obtain rfl := Except.ok.inj built
        obtain ⟨length, range⟩ := Graph.adjacencyFault?_eq_none_iff.1 passed
        refine ⟨?_, Graph.map_ofNat_map_toNat fun targets ht w hw => (range targets ht w hw).1⟩
        simpa using length
  · intro same
    obtain ⟨rfl, rfl⟩ := same
    exact s.seal_toGraph

/-- Lists that fit are built. -/
theorem exists_ofLists?_iff : (∃ s, ofLists? count lists = .ok s) ↔ Graph.ListsFit count lists := by
  constructor
  · intro built
    obtain ⟨s, built⟩ := built
    obtain ⟨rfl, rfl⟩ := ofLists?_eq_ok_iff.1 built
    exact s.sound_toGraph.listsFit
  · intro fits
    cases built : ofLists? count lists with
    | ok s => exact ⟨s, rfl⟩
    | error e =>
        have fault := (Graph.adjacencyFault?_eq_some_iff fits.nonneg).2
          (ofLists?_eq_error_iff.1 built)
        rw [Graph.listsFit_iff.1 fits] at fault
        cases fault

end SealedGraph

/-! ### Open construction -/

namespace Graph

theorem eq_of_lists_eq {g g' : Graph} (count : g.vertexCount = g'.vertexCount)
    (lists : g.lists = g'.lists) : g = g' := by
  have rows : g.rows = g'.rows := by
    rw [← Array.toList_inj, ← map_toNat_lists, ← map_toNat_lists, lists]
  cases g
  cases g'
  cases count
  cases rows
  rfl

theorem ofLists?_nil (nonneg : 0 ≤ count) : ofLists? count [] = .ok (edgeless count.toNat) :=
  if_neg (Int.not_lt.2 nonneg)

/-- Unless no lists are given, open construction is sealed construction. -/
theorem ofLists?_of_given (given : ¬ (lists = [] ∧ 0 ≤ count)) :
    ofLists? count lists = (SealedGraph.ofLists? count lists).map SealedGraph.toGraph := by
  have notEmpty (nonneg : 0 ≤ count) : ¬ lists.isEmpty = true :=
    fun empty => given ⟨List.isEmpty_iff.1 empty, nonneg⟩
  cases built : SealedGraph.ofLists? count lists with
  | error e =>
      have fault := SealedGraph.ofLists?_eq_error_iff.1 built
      rcases Int.lt_or_le count 0 with below | nonneg
      · rw [fault.eq_negativeCount below]
        exact if_pos below
      · rw [ofLists?, if_neg (Int.not_lt.2 nonneg), if_neg (notEmpty nonneg),
          (adjacencyFault?_eq_some_iff nonneg).2 fault]
        rfl
  | ok s =>
      obtain ⟨rfl, rfl⟩ := SealedGraph.ofLists?_eq_ok_iff.1 built
      have nonneg := s.sound_toGraph.listsFit.nonneg
      rw [ofLists?, if_neg (Int.not_lt.2 nonneg), if_neg (notEmpty nonneg),
        s.sound_toGraph.adjacencyFault?_eq_none]
      simp only [map_toNat_lists]
      rfl

theorem lists_edgeless (n : Nat) : (edgeless n).lists = List.replicate n [] := by
  simp [lists, edgeless]

/-- What is built has the given count, and the given lists if there are any. -/
theorem ofLists?_eq_ok (built : ofLists? count lists = .ok g) :
    g.vertexCount = count ∧
      g.lists = if lists = [] then List.replicate count.toNat [] else lists := by
  by_cases absent : lists = [] ∧ 0 ≤ count
  · obtain ⟨rfl, nonneg⟩ := absent
    rw [ofLists?_nil nonneg] at built
    obtain rfl := Except.ok.inj built
    exact ⟨Int.toNat_of_nonneg nonneg, by rw [if_pos rfl, lists_edgeless]⟩
  · rw [ofLists?_of_given absent] at built
    cases sealing : SealedGraph.ofLists? count lists with
    | error e =>
        rw [sealing] at built
        cases built
    | ok s =>
        rw [sealing] at built
        obtain rfl := Except.ok.inj built
        obtain ⟨rfl, rfl⟩ := SealedGraph.ofLists?_eq_ok_iff.1 sealing
        rw [if_neg fun empty => absent ⟨empty, s.sound_toGraph.listsFit.nonneg⟩]
        exact ⟨rfl, rfl⟩

theorem exists_ofLists?_iff :
    (∃ g, ofLists? count lists = .ok g) ↔ ListsFit count lists ∨ lists = [] ∧ 0 ≤ count := by
  by_cases absent : lists = [] ∧ 0 ≤ count
  · obtain ⟨rfl, nonneg⟩ := absent
    exact iff_of_true ⟨_, ofLists?_nil nonneg⟩ (.inr ⟨rfl, nonneg⟩)
  · rw [or_iff_left absent, ← SealedGraph.exists_ofLists?_iff, ofLists?_of_given absent]
    cases SealedGraph.ofLists? count lists with
    | ok s => simp [Except.map]
    | error e => simp [Except.map]

/-- What is refused is refused as for a sealed graph. -/
theorem ofLists?_eq_error_iff :
    ofLists? count lists = .error e ↔ ¬ (lists = [] ∧ 0 ≤ count) ∧ FirstFault count lists e := by
  by_cases absent : lists = [] ∧ 0 ≤ count
  · obtain ⟨rfl, nonneg⟩ := absent
    simp [ofLists?_nil nonneg, nonneg]
  · rw [and_iff_right absent, ← SealedGraph.ofLists?_eq_error_iff, ofLists?_of_given absent]
    cases SealedGraph.ofLists? count lists with
    | ok s => simp [Except.map]
    | error e' => simp [Except.map]

/-! ### Sealing -/

/-- A graph is sealed exactly as it stands. -/
theorem seal_eq_ok_iff : g.seal = .ok s ↔ s.toGraph = g := by
  rw [Graph.seal, SealedGraph.ofLists?_eq_ok_iff]
  constructor
  · exact fun same => eq_of_lists_eq same.1 same.2
  · intro same
    rw [same]
    exact ⟨rfl, rfl⟩

theorem check_eq_ok_iff : g.check = .ok () ↔ ListsFit g.vertexCount g.lists := by
  rw [listsFit_iff, check]
  cases adjacencyFault? g.vertexCount g.lists with
  | none => simp
  | some fault => simp

theorem check_eq_error_iff (nonneg : 0 ≤ g.vertexCount) :
    g.check = .error e ↔ g.seal = .error e := by
  rw [Graph.seal, SealedGraph.ofLists?_eq_error_iff, ← adjacencyFault?_eq_some_iff nonneg, check]
  cases adjacencyFault? g.vertexCount g.lists with
  | none => simp
  | some fault => simp

/-- A sealed graph can be opened again. -/
theorem ofLists?_toGraph (s : SealedGraph) :
    ofLists? s.toGraph.vertexCount s.toGraph.lists = .ok s.toGraph := by
  by_cases empty : s.toGraph.lists = []
  · -- without lists there is no vertex, and no vertices have no lists
    have count : s.toGraph.vertexCount = 0 := by
      rw [← s.sound_toGraph.listsFit.length, empty]
      rfl
    rw [empty, count, ofLists?_nil (Int.le_refl 0)]
    refine congrArg Except.ok (eq_of_lists_eq count.symm ?_)
    rw [empty, lists_edgeless]
    rfl
  · rw [ofLists?_of_given fun absent => empty absent.1]
    exact congrArg (Except.map SealedGraph.toGraph) s.seal_toGraph

end Graph

/-! ### Summary -/

/-- **Lists are checked alike wherever they are checked.** A sealed graph is built of a count and
lists exactly if the lists fit, and an open one exactly if they fit or if there are none for a
count that is not negative, which stand for as many empty ones. Either has the fields it was built
of, and either reports the first fault, in the same words. An open graph, whatever has become of
it, is sealed as if a sealed graph were built of its fields. That succeeds exactly if it passes its
check, which reports the same if the count is not negative. The sealed graph is the open one as it
stood, and an open graph that is built of its fields is the first one again. -/
theorem Graph.validations_agree (count : Int) (lists : List (List Int)) :
    (((∃ s, SealedGraph.ofLists? count lists = .ok s) ↔ ListsFit count lists) ∧
      (∀ s, SealedGraph.ofLists? count lists = .ok s →
        s.toGraph.vertexCount = count ∧ s.toGraph.lists = lists) ∧
      ∀ e, SealedGraph.ofLists? count lists = .error e ↔ FirstFault count lists e) ∧
    (((∃ g, Graph.ofLists? count lists = .ok g) ↔
        ListsFit count lists ∨ lists = [] ∧ 0 ≤ count) ∧
      (∀ g, Graph.ofLists? count lists = .ok g → g.vertexCount = count ∧
        g.lists = if lists = [] then List.replicate count.toNat [] else lists) ∧
      ∀ e, Graph.ofLists? count lists = .error e ↔
        ¬ (lists = [] ∧ 0 ≤ count) ∧ FirstFault count lists e) ∧
    (∀ e, FirstFault count lists e →
      e.message = "Number of vertices in a Digraph must be non-negative" ∧ count < 0 ∨
      e.message = "Digraph has " ++ toString count ++ " vertices but " ++
        toString lists.length ++ " adjacency lists" ∧ lists.length ≠ count ∨
      ∃ w ∈ lists.flatten, ¬ (0 ≤ w ∧ w < count) ∧
        e.message = "vertex " ++ toString w ++ " is not between 0 and " ++
          toString (count - 1)) ∧
    ∀ g : Graph,
      g.seal = SealedGraph.ofLists? g.vertexCount g.lists ∧
      ((∃ s, g.seal = .ok s) ↔ g.check = .ok ()) ∧
      (0 ≤ g.vertexCount → ∀ e, g.check = .error e ↔ g.seal = .error e) ∧
      ∀ s, g.seal = .ok s →
        s.toGraph = g ∧ Graph.ofLists? s.toGraph.vertexCount s.toGraph.lists = .ok g := by
  refine ⟨⟨SealedGraph.exists_ofLists?_iff, fun s => SealedGraph.ofLists?_eq_ok_iff.1,
      fun e => SealedGraph.ofLists?_eq_error_iff⟩,
    ⟨exists_ofLists?_iff, fun g => ofLists?_eq_ok, fun e => ofLists?_eq_error_iff⟩,
    fun e => FirstFault.message_cases, fun g => ⟨rfl, ?_, fun nonneg e => ?_, fun s sealing => ?_⟩⟩
  · rw [check_eq_ok_iff]
    exact SealedGraph.exists_ofLists?_iff
  · exact check_eq_error_iff nonneg
  · obtain rfl := seal_eq_ok_iff.1 sealing
    exact ⟨rfl, ofLists?_toGraph s⟩

/-- Of the targets `1, 2, -1` over two vertices, `2` is the first that is none. With a new count
the graph of two joined vertices is refused; as it was built, it is sealed and opened again. -/
theorem Graph.joined_validations_agree :
    (∃ s, SealedGraph.ofLists? 2 [[1], []] = .ok s ∧ s.toGraph.lists = [[1], []]) ∧
    (∃ g, Graph.ofLists? 3 [] = .ok g ∧ g.lists = [[], [], []]) ∧
    (SealedGraph.ofLists? 2 [[1, 2], [-1]] = .error (.notVertex 2 2) ∧
      Graph.ofLists? 2 [[1, 2], [-1]] = .error (.notVertex 2 2)) ∧
    ((0 ≤ (joined.afterAll [.recount 3]).vertexCount ∧
        (joined.afterAll [.recount 3]).check = .error (.listCount 3 2)) ∧
      (joined.afterAll [.recount 3]).seal = .error (.listCount 3 2)) ∧
    ∃ s, joined.seal = .ok s ∧ s.toGraph = joined ∧
      Graph.ofLists? s.toGraph.vertexCount s.toGraph.lists = .ok joined := by
  have fits : ListsFit 2 [[1], []] := ⟨by decide, rfl, by decide⟩
  have stranger : FirstFault 2 [[1, 2], [-1]] (.notVertex 2 2) :=
    @FirstFault.target 2 [[1, 2], [-1]] [1] [-1] 2 (by decide) rfl rfl (by decide) (by decide)
  have nonneg : (0 : Int) ≤ (joined.afterAll [.recount 3]).vertexCount := by decide
  have checked : (joined.afterAll [.recount 3]).check = .error (.listCount 3 2) := rfl
  obtain ⟨⟨built, fields, -⟩, -⟩ := validations_agree 2 [[1], []]
  obtain ⟨-, ⟨opened, filled, -⟩, -⟩ := validations_agree 3 []
  obtain ⟨⟨-, -, refused⟩, ⟨-, -, refusedOpen⟩, -, agree⟩ := validations_agree 2 [[1, 2], [-1]]
  obtain ⟨s, sealing⟩ := built.2 fits
  obtain ⟨g, opening⟩ := opened.2 (.inr ⟨rfl, by decide⟩)
  obtain ⟨-, -, same, -⟩ := agree (joined.afterAll [.recount 3])
  obtain ⟨-, sealable, -, reopened⟩ := agree joined
  obtain ⟨closed, closing⟩ := sealable.2 rfl
  exact ⟨⟨s, sealing, (fields s sealing).2⟩, ⟨g, opening, (filled g opening).2⟩,
    ⟨(refused _).2 stranger, (refusedOpen _).2 ⟨by decide, stranger⟩⟩,
    ⟨⟨nonneg, checked⟩, (same nonneg _).1 checked⟩,
    closed, closing, reopened closed closing⟩

end EpsilonMatch
