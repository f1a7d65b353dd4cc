import EpsilonMatch.Pattern.Symbol
import EpsilonMatch.Graph.Sealed
/-!
# EpsilonMatch.Automaton.Basic

Automata with one state per pattern character and an accept state behind
them.

* State `s` below the accept state is about to read the symbol at `s`, and
  reading it leads to state `s + 1`. These moves are not stored.
* The moves that read nothing are the edges of a graph. The graph need not fit
  the symbols: an automaton may be built from any pattern over any sealed graph.
  A state of the graph beyond the accept state has no symbol, and looking it up
  is the error `MatchError.pastPattern`.
-/

namespace EpsilonMatch

/-- The symbols to read, state by state, and the graph of silent moves. -/
structure Automaton where
  symbols : Array Char
  moves : SealedGraph
  deriving DecidableEq

/-- Why an automaton has no answer. -/
inductive MatchError
  /-- The text holds an operator of the pattern language. -/
  | metacharacter (c : Char) (position : Nat)
  /-- A state past the accept state has no symbol. -/
  | pastPattern
  /-- A state is no vertex of the graph. -/
  | graph (e : GraphError)
  deriving Repr, DecidableEq

/-- The wording of a match error. -/
def MatchError.message : MatchError → String
  | metacharacter c position =>
    "text contains the metacharacter '" ++ String.singleton c ++ "' at position " ++
      toString position
  | pastPattern => pastPatternMessage
  | graph e => e.message

namespace Automaton

/-- The state behind the last symbol. -/
def acceptState (a : Automaton) : Nat := a.symbols.size

/-- The pattern whose characters are the symbols. -/
def pattern (a : Automaton) : String := String.ofList a.symbols.toList

/-! ## Listing -/

/-- The symbol of a state as it is listed. -/
def symbolText (a : Automaton) (s : Nat) : Except MatchError String :=
  if s = a.acceptState then .ok "END"
  else
    match a.symbols[s]? with
    | some c => .ok (String.singleton c)
    | none => .error .pastPattern

/-- The targets of a state as they are listed. -/
def targetsText (targets : List Nat) : String :=
  " ".intercalate (targets.map toString)

/-- The line `state,symbol,targets` of a state. -/
def stateLine (a : Automaton) (s : Nat) : Except MatchError String := do
  let symbol ← a.symbolText s
  let targets ← (a.moves.toGraph.targets s).mapError .graph
  return toString s ++ "," ++ symbol ++ "," ++ targetsText targets

/-- One line per state of the graph, ascending. -/
def listing (a : Automaton) : Printout MatchError :=
  Printout.ofResults (a.moves.toGraph.vertices.map a.stateLine)

end Automaton

end EpsilonMatch
