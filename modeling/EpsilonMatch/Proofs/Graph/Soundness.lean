import EpsilonMatch.Graph.Sealed
/-!
# EpsilonMatch.Proofs.Graph.Soundness

When an edge is accepted, and graphs whose lists fit their vertex count.

`connect_eq` says all that connecting two vertices can do. A graph is sound if it
has one list per vertex and every target is a vertex. Whatever construction accepts
is sound (`sound_of_ofLists?`), and a sound graph passes its own check and can be
sealed as it is.
-/

namespace EpsilonMatch.Graph

variable {g : Graph} {count : Int} {lists : List (List Int)}

/-! ### Edges -/

/-- An edge is refused at the end that is no vertex, the first end first, and then
for want of a list; the graph stays as it is. Otherwise its target is put behind the
others. -/
theorem connect_eq (v w : Int) (g : Graph) :
    connect v w g =
      if 0 ≤ v ∧ v < g.vertexCount then
        if 0 ≤ w ∧ w < g.vertexCount then
          if v.toNat < g.rows.size then
            .ok () { g with rows := g.rows.modify v.toNat (· ++ [w.toNat]) }
          else .error .missingList g
        else .error (.notVertex w g.vertexCount) g
      else .error (.notVertex v g.vertexCount) g := by
  show (do
    MonadExcept.ofExcept (g.checkVertex v)
    MonadExcept.ofExcept (g.checkVertex w)
    if v.toNat < g.rows.size then set _ else throw .missingList : GraphM Unit) g = _
  unfold checkVertex vertexFault?
  by_cases hv : 0 ≤ v ∧ v < g.vertexCount
  · by_cases hw : 0 ≤ w ∧ w < g.vertexCount
    · rw [if_pos hv, if_pos hw, if_pos hv, if_pos hw]
      by_cases row : v.toNat < g.rows.size
      · rw [if_pos row, if_pos row]
        rfl
      · rw [if_neg row, if_neg row]
        rfl
    · rw [if_pos hv, if_neg hw, if_pos hv, if_neg hw]
      rfl
  · rw [if_neg hv, if_neg hv]
    rfl

theorem connect_eq_ok_iff {v w : Int} {g' : Graph} :
    connect v w g = .ok () g' ↔
      (0 ≤ v ∧ v < g.vertexCount) ∧ (0 ≤ w ∧ w < g.vertexCount) ∧ v < g.rows.size ∧
        { g with rows := g.rows.modify v.toNat (· ++ [w.toNat]) } = g' := by
  rw [connect_eq]
  by_cases hv : 0 ≤ v ∧ v < g.vertexCount
  · by_cases hw : 0 ≤ w ∧ w < g.vertexCount
    · have row : v.toNat < g.rows.size ↔ v < g.rows.size := by omega
      by_cases hrow : v < g.rows.size
      · simp [hv, hw, row, hrow]
      · simp [hv, hw, row, hrow]
    · simp [hv, hw]
  · simp [hv]

/-- An edge between two vertices, the first of which has a list, is accepted. No vertex and no
list comes or goes. -/
theorem exists_connect {v w : Int} (hv : 0 ≤ v ∧ v < g.vertexCount)
    (hw : 0 ≤ w ∧ w < g.vertexCount) (row : v < g.rows.size) :
    ∃ g', connect v w g = .ok () g' ∧ g'.vertexCount = g.vertexCount ∧
      g'.rows.size = g.rows.size :=
  ⟨_, connect_eq_ok_iff.2 ⟨hv, hw, row, rfl⟩, rfl, Array.size_modify⟩

/-- A refusal names the first fault and changes nothing. -/
theorem connect_eq_error {v w : Int} {e : GraphError} {g' : Graph}
    (refused : connect v w g = .error e g') :
    (e = if 0 ≤ v ∧ v < g.vertexCount then
        if 0 ≤ w ∧ w < g.vertexCount then .missingList else .notVertex w g.vertexCount
      else .notVertex v g.vertexCount) ∧ g' = g := by
  rw [connect_eq] at refused
  by_cases hv : 0 ≤ v ∧ v < g.vertexCount
  · by_cases hw : 0 ≤ w ∧ w < g.vertexCount
    · by_cases hrow : v.toNat < g.rows.size
      · simp [hv, hw, hrow] at refused
      · obtain ⟨rfl, rfl⟩ : .missingList = e ∧ g = g' := by simpa [hv, hw, hrow] using refused
        exact ⟨by rw [if_pos hv, if_pos hw], rfl⟩
    · obtain ⟨rfl, rfl⟩ : .notVertex w g.vertexCount = e ∧ g = g' := by
        simpa [hv, hw] using refused
      exact ⟨by rw [if_pos hv, if_neg hw], rfl⟩
  · obtain ⟨rfl, rfl⟩ : .notVertex v g.vertexCount = e ∧ g = g' := by simpa [hv] using refused
    exact ⟨by rw [if_neg hv], rfl⟩

/-! ### Sound graphs -/

/-- One list per vertex, and every target is a vertex. -/
structure Sound (g : Graph) : Prop where
  count : g.vertexCount = g.rows.size
  target_lt : ∀ targets ∈ g.rows, ∀ w ∈ targets, w < g.rows.size

theorem map_toNat_lists (g : Graph) : g.lists.map (·.map Int.toNat) = g.rows.toList := by
  simp [lists, Function.comp_def]

theorem sound_edgeless (n : Nat) : (edgeless n).Sound := by
  constructor
  · simp [edgeless]
  · intro targets ht w hw
    obtain rfl := (Array.mem_replicate.1 ht).2
    exact absurd hw List.not_mem_nil

/-- What construction accepts is sound. -/
theorem sound_of_ofLists? (built : ofLists? count lists = .ok g) : g.Sound := by
  unfold ofLists? at built
  split at built
  · cases built
  · split at built
    · obtain rfl := Except.ok.inj built
      exact sound_edgeless _
    · split at built
      · cases built
      next fault =>
        obtain rfl := Except.ok.inj built
        constructor
        · simpa using (adjacencyFault?_eq_none_iff.1 fault).1.symm
        · exact SealedGraph.target_lt_of_adjacencyFault? fault

namespace Sound

theorem adjacencyFault?_eq_none (sound : g.Sound) :
    adjacencyFault? g.vertexCount g.lists = none := by
  refine adjacencyFault?_eq_none_iff.2 ⟨by simp [lists, sound.count], ?_⟩
  intro targets ht w hw
  obtain ⟨row, hrow, rfl⟩ := List.mem_map.1 ht
  obtain ⟨x, hx, rfl⟩ := List.mem_map.1 hw
  have := sound.target_lt row (Array.mem_toList_iff.1 hrow) x hx
  exact ⟨Int.natCast_nonneg x, by rw [sound.count]; exact Int.ofNat_lt.2 this⟩

theorem check_eq_ok (sound : g.Sound) : g.check = .ok () := by
  rw [check, sound.adjacencyFault?_eq_none]

/-- A sound graph can be sealed, and its lists stay as they are. -/
theorem seal_eq_ok (sound : g.Sound) : g.seal = .ok ⟨g.rows, sound.target_lt⟩ := by
  have count := sound.count
  rw [Graph.seal, SealedGraph.ofLists?, if_neg (by omega)]
  split
  · rename_i e he
    rw [sound.adjacencyFault?_eq_none] at he
    cases he
  · simp [map_toNat_lists]

end Sound

end EpsilonMatch.Graph
