import EpsilonMatch.Proofs.Graph.History
import EpsilonMatch.Proofs.Pattern.Closing
/-!
# EpsilonMatch.Proofs.Pattern.ClosingEffect

What closing a group leaves behind, also where it fails.

Entries are taken off the stack before they are looked at, and the two edges of a `|` are added
one after the other, so a failure keeps what was done until then. `Cursor.Closes` lists the exits
with what is left at each of them; the theorems here read off, one by one, the stack, the graph and
the position.

The graph is taken to be sound when the group is closed, and no entry of the stack is negative.
Then a vertex has a list, so an edge is refused only for an end that is no vertex
(`Graph.Sound.connect_eq_error`). The `|` lies in front of the vertex `bar + 1`, and the edge out of
the first branch begins at `bar`. Once the edge into the second branch has been added, only the end
of the group can be what is refused.
-/

namespace EpsilonMatch

namespace Graph

variable {g g' g'' : Graph} {v w : Int} {edges edges' : List (Int × Int)} {e : GraphError}

/-! ### Edges behind the others -/

/-- `g'` is `g` with `edges` put behind its own edges, in order. Each of them begins at a vertex
that has a list. -/
structure Extends (g : Graph) (edges : List (Int × Int)) (g' : Graph) : Prop where
  count : g'.vertexCount = g.vertexCount
  size : g'.rows.size = g.rows.size
  start : ∀ edge ∈ edges, 0 ≤ edge.1 ∧ edge.1 < g.rows.size
  lists : ∀ u : Nat, g'.lists[u]? =
    g.lists[u]?.map (· ++ (edges.filter (·.1 = (u : Int))).map (·.2))

theorem extends_of_connect (connected : connect v w g = .ok () g') : g.Extends [(v, w)] g' := by
  have next : g.after (.connect v w) = g' := by rw [after, Change.run, connected]
  have edge : g.added (.connect v w) = [(v, w)] := by rw [added, connected]
  obtain ⟨⟨hv, -⟩, -, row, -⟩ := connect_eq_ok_iff.1 connected
  constructor
  · rw [← next, vertexCount_after]
    rfl
  · rw [← next, size_rows_after]
  · intro edge mem
    rw [List.mem_singleton.1 mem]
    exact ⟨hv, row⟩
  · intro u
    rw [← next, getElem?_lists_after, edge]

theorem Extends.trans (first : g.Extends edges g') (second : g'.Extends edges' g'') :
    g.Extends (edges ++ edges') g'' := by
  constructor
  · rw [second.count, first.count]
  · rw [second.size, first.size]
  · intro edge mem
    rcases List.mem_append.1 mem with old | new
    · exact first.start edge old
    · rw [← first.size]
      exact second.start edge new
  · intro u
    rw [second.lists, first.lists, Option.map_map]
    simp [Function.comp_def]

theorem Sound.of_connect (sound : g.Sound) (connected : connect v w g = .ok () g') :
    g'.Sound := by
  have next : g.afterAll [.connect v w] = g' := by
    show g.after (.connect v w) = g'
    rw [after, Change.run, connected]
  rw [← next]
  exact sound.afterAll rfl

theorem Sound.of_refused (sound : g.Sound) (refused : connect v w g = .error e g') :
    g'.Sound :=
  (Graph.connect_eq_error refused).2 ▸ sound

/-- A sound graph refuses an edge only for an end that is no vertex, and stays as it is. -/
theorem Sound.connect_eq_error (sound : g.Sound) (refused : connect v w g = .error e g') :
    g' = g ∧ ((¬ (0 ≤ v ∧ v < g.vertexCount) ∧ e = .notVertex v g.vertexCount) ∨
      (0 ≤ v ∧ v < g.vertexCount) ∧ ¬ (0 ≤ w ∧ w < g.vertexCount) ∧
        e = .notVertex w g.vertexCount) := by
  obtain ⟨first, same⟩ := Graph.connect_eq_error refused
  refine ⟨same, ?_⟩
  by_cases hv : 0 ≤ v ∧ v < g.vertexCount
  · by_cases hw : 0 ≤ w ∧ w < g.vertexCount
    · have row : v < g.rows.size := by
        rw [← sound.count]
        exact hv.2
      obtain ⟨next, connected, -⟩ := exists_connect hv hw row
      rw [connected] at refused
      cases refused
    · refine .inr ⟨hv, hw, ?_⟩
      rw [first, if_pos hv, if_neg hw]
  · refine .inl ⟨hv, ?_⟩
    rw [first, if_neg hv]

end Graph

/-! ### What each exit leaves -/

namespace Cursor

open CompileError (locate)

variable {k : Cursor} {g : Graph} {pending : List Int} {i : Int}
  {outcome : Except CompileError Int} {s : Scan}

/-- At most two entries are taken off the stack, and one at least if there is one. -/
theorem Closes.taken (closes : Closes k g i pending (outcome, s)) :
    ∃ taken, pending = taken ++ s.pending ∧ taken.length ≤ 2 ∧ (taken = [] ↔ pending = []) := by
  have one {q : Int} {rest : List Int} : ∃ taken, q :: rest = taken ++ rest ∧
      taken.length ≤ 2 ∧ (taken = [] ↔ q :: rest = []) :=
    ⟨[q], rfl, Nat.le_succ 1, by simp⟩
  have two {o q : Int} {rest : List Int} : ∃ taken, o :: q :: rest = taken ++ rest ∧
      taken.length ≤ 2 ∧ (taken = [] ↔ o :: q :: rest = []) :=
    ⟨[o, q], rfl, Nat.le_refl 2, by simp⟩
  cases closes with
  | unmatched => exact ⟨[], rfl, Nat.zero_le 2, Iff.rfl⟩
  | past | group | stray | outside => exact one
  | pastBar | second | refusedEnter | refusedLeave | choice => exact two

/-- Reporting a fault comes to nothing but that fault, or there is no character to quote. -/
theorem locate_ne {pattern : Array Char} {position : Int} {fault : PatternFault}
    {e : CompileError} (notPast : e ≠ .pastPattern)
    (notFault : ∀ near, e ≠ .pattern ⟨fault, near, position⟩) :
    locate pattern position fault ≠ e := by
  rcases CompileError.locate_cases pattern position fault with ⟨near, said⟩ | said
  · rw [said]
    exact (notFault near).symm
  · rw [said]
    exact notPast.symm

/-- Where no edge is refused, a failure leaves the graph as it was. -/
theorem Closes.graph_of_error {e : CompileError} (closes : Closes k g i pending (.error e, s))
    (notEdge : ∀ refusal, e ≠ .edge refusal) : s.graph = g := by
  cases closes with
  | refusedEnter | refusedLeave => exact absurd rfl (notEdge _)
  | _ => rfl

/-- A refused edge belongs to a `|` on its `(`. If only the end of the group is no vertex, the edge
into the second branch has been added. -/
theorem Closes.graph_of_edge {e : GraphError} (closes : Closes k g i pending (.error (.edge e), s))
    (sound : g.Sound) (nonneg : ∀ q ∈ pending, 0 ≤ q) :
    ∃ bar left : Int, pending = bar :: left :: s.pending ∧
      charAt? k.pattern bar = some '|' ∧ charAt? k.pattern left = some '(' ∧
      if left < g.vertexCount ∧ bar + 1 < g.vertexCount then
        ¬ (0 ≤ i ∧ i < g.vertexCount) ∧ e = .notVertex i g.vertexCount ∧
          g.Extends [(left, bar + 1)] s.graph
      else
        e = .notVertex (if left < g.vertexCount then bar + 1 else left) g.vertexCount ∧
          s.graph = g := by
  cases closes with
  | unmatched said | outside _ said => exact absurd said (locate_ne nofun nofun)
  | @refusedEnter bar left rest _ _ parts opens refused =>
      have front : 0 ≤ bar := nonneg bar List.mem_cons_self
      have frontLeft : 0 ≤ left := nonneg left (List.mem_cons_of_mem _ List.mem_cons_self)
      refine ⟨bar, left, rfl, parts, opens, ?_⟩
      obtain ⟨same, ⟨outside, rfl⟩ | ⟨inside, outside, rfl⟩⟩ := sound.connect_eq_error refused
      · have notLeft : ¬ left < g.vertexCount := fun below => outside ⟨frontLeft, below⟩
        rw [if_neg fun both => notLeft both.1, if_neg notLeft]
        exact ⟨rfl, same⟩
      · have notBar : ¬ bar + 1 < g.vertexCount :=
          fun below => outside ⟨Int.le_add_one front, below⟩
        rw [if_neg fun both => notBar both.2, if_pos inside.2]
        exact ⟨rfl, same⟩
  | @refusedLeave bar left rest g' _ _ parts opens enter refused =>
      have front : 0 ≤ bar := nonneg bar List.mem_cons_self
      refine ⟨bar, left, rfl, parts, opens, ?_⟩
      have grown := Graph.extends_of_connect enter
      obtain ⟨inside, insideBar, -⟩ := Graph.connect_eq_ok_iff.1 enter
      rw [if_pos ⟨inside.2, insideBar.2⟩]
      -- the `|` itself lies in front of a vertex
      have vertex : 0 ≤ bar ∧ bar < g.vertexCount :=
        ⟨front, Int.lt_of_le_of_lt (Int.le_add_one (Int.le_refl _)) insideBar.2⟩
      obtain ⟨same, ⟨outside, -⟩ | ⟨-, outside, named⟩⟩ :=
        (sound.of_connect enter).connect_eq_error refused
      · rw [grown.count] at outside
        exact absurd vertex outside
      · rw [grown.count] at outside named
        subst same
        exact ⟨outside, named, grown⟩

/-- A group with a `|` gets both edges, from two different vertices. -/
theorem Closes.graph_of_bar {bar left : Int} {rest : List Int}
    (closes : Closes k g i (bar :: rest) (.ok left, s))
    (parts : charAt? k.pattern bar = some '|') :
    left ≠ bar ∧ rest = left :: s.pending ∧ g.Extends [(left, bar + 1), (bar, i)] s.graph := by
  cases closes with
  | group opens => cases parts.symm.trans opens
  | stray here _ notBar => exact absurd (Option.some.inj (here.symm.trans parts)) notBar
  | choice _ opens enter leave =>
      refine ⟨fun same => ?_, rfl,
        (Graph.extends_of_connect enter).trans (Graph.extends_of_connect leave)⟩
      rw [same] at opens
      cases parts.symm.trans opens

/-- Any other entry is returned as it is. -/
theorem Closes.graph_of_ne_bar {top left : Int} {rest : List Int}
    (closes : Closes k g i (top :: rest) (.ok left, s))
    (notBar : charAt? k.pattern top ≠ some '|') :
    left = top ∧ rest = s.pending ∧ s.graph = g := by
  cases closes with
  | choice parts _ _ _ => exact absurd parts notBar
  | _ => exact ⟨rfl, rfl, rfl⟩

/-- The position moves only to what lies under a `|` and is no `(`. -/
theorem Closes.position (closes : Closes k g i pending (outcome, s)) :
    (∃ bar rest near, pending = bar :: s.position :: rest ∧
      outcome = .error (.pattern ⟨.barNeedsGroup, some near, s.position⟩)) ∨
    s.position = k.position ∧ ∀ near place,
      outcome ≠ .error (.pattern ⟨.barNeedsGroup, near, place⟩) := by
  cases closes with
  | second _ here _ => exact .inl ⟨_, _, _, rfl, rfl⟩
  | unmatched said | outside _ said =>
      refine .inr ⟨rfl, fun near place same => ?_⟩
      cases same
      exact absurd said (locate_ne nofun nofun)
  | _ => exact .inr ⟨rfl, nofun⟩

/-- Whatever the exit, the graph stays sound. -/
theorem Closes.sound (closes : Closes k g i pending (outcome, s)) (sound : g.Sound) :
    s.graph.Sound := by
  cases closes with
  | refusedEnter _ _ refused => exact sound.of_refused refused
  | refusedLeave _ _ enter refused => exact (sound.of_connect enter).of_refused refused
  | choice _ _ enter leave => exact (sound.of_connect enter).of_connect leave
  | _ => exact sound

/-- Nothing is sealed while a group is closed. -/
theorem Closes.ne_graph (closes : Closes k g i pending (outcome, s)) (e : GraphError) :
    outcome ≠ .error (.graph e) := by
  intro same
  subst same
  cases closes with
  | unmatched said | outside _ said => exact absurd said (locate_ne nofun nofun)

/-! ### Summary -/

/-- **What closing a group leaves behind.** Over a sound graph and any stack without negative
entries, one or two entries are taken off the stack, and none only if there is none. If a fault of
the pattern is reported, or a position has no character, the graph is as before. If the graph
refuses an edge, it has got the edge from the `(` into the second branch exactly if the end of the
group is all that is no vertex; otherwise it is as before. A group with a `|` is returned with both
edges added, from two different vertices, and any other without a change. The graph is sound again
at all exits. The position moves only where a `|` lies on something that is no `(`, and there it
moves to what lies under the `|`. -/
theorem pairClose_effect (sound : g.Sound) (nonneg : ∀ q ∈ pending, 0 ≤ q)
    (closed : k.pairClose g pending i = (outcome, s)) :
    (∃ taken, pending = taken ++ s.pending ∧ taken.length ≤ 2 ∧ (taken = [] ↔ pending = [])) ∧
    ((∀ e, outcome = .error (.pattern e) → s.graph = g) ∧
      (outcome = .error .pastPattern → s.graph = g) ∧
      (∀ e, outcome = .error (.edge e) → ∃ bar left : Int, pending = bar :: left :: s.pending ∧
        charAt? k.pattern bar = some '|' ∧ charAt? k.pattern left = some '(' ∧
        if left < g.vertexCount ∧ bar + 1 < g.vertexCount then
          ¬ (0 ≤ i ∧ i < g.vertexCount) ∧ e = .notVertex i g.vertexCount ∧
            g.Extends [(left, bar + 1)] s.graph
        else
          e = .notVertex (if left < g.vertexCount then bar + 1 else left) g.vertexCount ∧
            s.graph = g) ∧
      ∀ e, outcome ≠ .error (.graph e)) ∧
    (∀ top rest left, pending = top :: rest → outcome = .ok left →
      (charAt? k.pattern top = some '|' → left ≠ top ∧ rest = left :: s.pending ∧
        g.Extends [(left, top + 1), (top, i)] s.graph) ∧
      (charAt? k.pattern top ≠ some '|' → left = top ∧ rest = s.pending ∧ s.graph = g)) ∧
    s.graph.Sound ∧
    ((∃ bar rest near, pending = bar :: s.position :: rest ∧
        outcome = .error (.pattern ⟨.barNeedsGroup, some near, s.position⟩)) ∨
      s.position = k.position ∧ ∀ near place,
        outcome ≠ .error (.pattern ⟨.barNeedsGroup, near, place⟩)) := by
  have closes : Closes k g i pending (outcome, s) := closed ▸ closes_pairClose k g pending i
  refine ⟨closes.taken, ⟨?_, ?_, ?_, closes.ne_graph⟩, ?_, closes.sound sound, closes.position⟩
  · intro e failed
    subst failed
    exact closes.graph_of_error fun refusal => CompileError.noConfusion
  · intro failed
    subst failed
    exact closes.graph_of_error fun refusal => CompileError.noConfusion
  · intro e failed
    subst failed
    exact closes.graph_of_edge sound nonneg
  · intro top rest left stack returned
    subst stack returned
    exact ⟨closes.graph_of_bar, closes.graph_of_ne_bar⟩

/-- The group `(P|Q)` is closed at its end, and at a position that is no vertex: then the first of
its two edges stays. -/
theorem twoBranches_pairClose_effect :
    (((Graph.edgeless 6).Sound ∧ ∀ q ∈ ([2, 0] : List Int), 0 ≤ q) ∧
      twoBranches.pairClose (.edgeless 6) [2, 0] 9 =
        (.error (.edge (.notVertex 9 6)), ⟨4, [], ⟨6, #[[3], [], [], [], [], []]⟩⟩) ∧
      (Graph.edgeless 6).Extends [(0, 3)] ⟨6, #[[3], [], [], [], [], []]⟩) ∧
    twoBranches.pairClose (.edgeless 6) [2, 0] 4 =
        (.ok 0, ⟨4, [], ⟨6, #[[3], [], [4], [], [], []]⟩⟩) ∧
      (Graph.edgeless 6).Extends [(0, 3), (2, 4)] ⟨6, #[[3], [], [4], [], [], []]⟩ := by
  have sound : (Graph.edgeless 6).Sound := Graph.sound_edgeless 6
  have nonneg : ∀ q ∈ ([2, 0] : List Int), 0 ≤ q := by decide
  have failed : twoBranches.pairClose (.edgeless 6) [2, 0] 9 =
      (.error (.edge (.notVertex 9 6)), ⟨4, [], ⟨6, #[[3], [], [], [], [], []]⟩⟩) := rfl
  have returned : twoBranches.pairClose (.edgeless 6) [2, 0] 4 =
      (.ok 0, ⟨4, [], ⟨6, #[[3], [], [4], [], [], []]⟩⟩) := rfl
  obtain ⟨-, ⟨-, -, refused, -⟩, -⟩ := pairClose_effect sound nonneg failed
  obtain ⟨-, -, paired, -⟩ := pairClose_effect sound nonneg returned
  obtain ⟨bar, left, stack, -, -, added⟩ := refused _ rfl
  obtain ⟨rfl, rfl⟩ : 2 = bar ∧ 0 = left := by simpa using stack
  rw [if_pos (by decide)] at added
  exact ⟨⟨⟨sound, nonneg⟩, failed, added.2.2⟩, returned, ((paired 2 [0] 0 rfl rfl).1 rfl).2.2⟩

end Cursor

end EpsilonMatch
