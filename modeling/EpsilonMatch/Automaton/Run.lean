import EpsilonMatch.Automaton.Basic
import EpsilonMatch.Graph.Path
/-!
# EpsilonMatch.Automaton.Run

Runs of an automaton, the declarative side of
`EpsilonMatch.Automaton.Simulation`.

A run mixes silent moves, which are the edges of the graph, with moves that read
one character of the text and lead to the next state. It stays inside the
vertices of the graph; if the graph has a vertex for every state up to the accept
state, reading never leaves them.
-/

namespace EpsilonMatch.Automaton

/-- `a.Run s text t`: from state `s` the automaton may read exactly `text` and
be in state `t`. -/
inductive Run (a : Automaton) : Nat → List Char → Nat → Prop
  /-- Nothing is read in place. -/
  | nil (s : Nat) : Run a s [] s
  /-- A silent move reads nothing. -/
  | silent {s u t : Nat} {text : List Char} (edge : a.moves.toGraph.Edge s u)
      (rest : Run a u text t) : Run a s text t
  /-- The symbol at a state reads one character. -/
  | read {s t : Nat} {symbol c : Char} {text : List Char} (at_state : a.symbols[s]? = some symbol)
      (matched : symbol = c ∨ symbol = '.') (inside : s + 1 < a.moves.vertexCount)
      (rest : Run a (s + 1) text t) : Run a s (c :: text) t

namespace Run

variable {a : Automaton}

/-- Runs compose, and so do the texts they read. -/
theorem trans {s u t : Nat} {x y : List Char} (first : Run a s x u) (second : Run a u y t) :
    Run a s (x ++ y) t := by
  induction first with
  | nil => exact second
  | silent edge _ ih => exact .silent edge (ih second)
  | read at_state matched inside _ ih => exact .read at_state matched inside (ih second)

/-- A path of the graph reads nothing. -/
theorem of_path {s t : Nat} (path : a.moves.toGraph.Path s t) : Run a s [] t := by
  induction path with
  | refl => exact .nil s
  | tail _ last ih => exact ih.trans (.silent last (.nil _))

end Run

/-- Some run from the first state reads exactly `text` and ends in the accept
state. -/
def Recognizes (a : Automaton) (text : List Char) : Prop :=
  a.Run 0 text a.acceptState

end EpsilonMatch.Automaton
