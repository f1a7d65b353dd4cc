import EpsilonMatch.Automaton.Basic
import EpsilonMatch.Pattern.Scan
/-!
# EpsilonMatch.Pattern.Compiler

From patterns to automata.

A `Cursor` is a pattern with a position in it, and the position is the only
thing that one use of a cursor leaves to the next. `Cursor.compile` starts a
fresh pass each time; `compile` is the compilation by a fresh cursor.
-/

namespace EpsilonMatch

/-- A pattern and the position at which a fault would be reported. -/
structure Cursor where
  pattern : Array Char
  position : Int := 0
  deriving Repr, DecidableEq

namespace Cursor

/-- A cursor at the first character. -/
def ofPattern (pattern : List Char) : Cursor :=
  { pattern := pattern.toArray }

/-- The number of characters, which is also the accept state. -/
def size (k : Cursor) : Nat := k.pattern.size

/-- What comes of reporting a fault in the caller's words, at the current position. -/
def report (k : Cursor) (text : String) : CompileError :=
  .locate k.pattern k.position (.reported text)

/-- Runs a step of a pass from a given stack and graph. The scan that is
returned holds what the step changed, also when it failed. -/
def runScan {α : Type} (k : Cursor) (pending : List Int) (graph : Graph) (m : ScanM α) :
    Except CompileError α × Scan :=
  match m.run { position := k.position, pending, graph } with
  | .ok a s => (.ok a, s)
  | .error e s => (.error e, s)

/-- Closes the group that ends at `i`, over any stack and graph. -/
def pairClose (k : Cursor) (graph : Graph) (pending : List Int) (i : Int) :
    Except CompileError Int × Scan :=
  k.runScan pending graph (Scan.pairClose k.pattern i)

/-- Compiles the pattern and moves the cursor to where the pass ended. -/
def compile (k : Cursor) : Except CompileError Automaton × Cursor :=
  let (outcome, scan) := k.runScan [] (Graph.edgeless (k.size + 1)) (Scan.whole k.pattern)
  let automaton := do
    outcome
    let moves ← scan.graph.seal.mapError .graph
    return { symbols := k.pattern, moves }
  (automaton, { k with position := scan.position })

end Cursor

/-- The automaton of a pattern. -/
def compile (pattern : List Char) : Except CompileError Automaton :=
  (Cursor.ofPattern pattern).compile.1

end EpsilonMatch
