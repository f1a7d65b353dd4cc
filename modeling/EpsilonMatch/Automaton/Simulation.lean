import EpsilonMatch.Automaton.Basic
import EpsilonMatch.Graph.Closure
/-!
# EpsilonMatch.Automaton.Simulation

Whether an automaton reads a whole text, found by keeping the set of states in
which it may be.

The set of active states is closed under silent moves after every character.
Once it is empty it stays empty, so the simulation stops and leaves the rest of the
text unread.

* `Automaton.run` is the simulation with its cost, `Automaton.accepts` its
  verdict.
* `Automaton.activeAfter` reads every character, whatever the set.
-/

namespace EpsilonMatch

/-- Where a simulation stands. -/
structure Progress where
  /-- The active states, ascending. -/
  active : List Nat
  /-- The stack removals of all searches made so far. -/
  work : Nat
  /-- Has the simulation stopped since no state is active? -/
  stopped : Bool := false
  deriving Repr, DecidableEq

/-- The same progress, but no more of the text is read. -/
def Progress.stop (p : Progress) : Progress :=
  { p with stopped := true }

@[simp] theorem Progress.active_stop (p : Progress) : p.stop.active = p.active := rfl

namespace Automaton

/-- The states reached from `states` by reading `c`, silent moves aside. The
accept state reads nothing, even if it has moves. -/
def consume (a : Automaton) (c : Char) : List Nat → Except MatchError (List Nat)
  | [] => .ok []
  | s :: rest =>
    if s = a.acceptState then a.consume c rest
    else
      match a.symbols[s]? with
      | none => .error .pastPattern
      | some symbol => do
        let reached ← a.consume c rest
        return if reads symbol c then (s + 1) :: reached else reached

/-- Closes `states` under silent moves, on top of the work done so far. -/
def settle (a : Automaton) (work : Nat) (states : List Nat) : Except MatchError Progress := do
  let search ← (a.moves.toGraph.search (states.map Int.ofNat)).mapError .graph
  return { active := search.members, work := work + search.pops }

/-- Before anything is read. -/
def initial (a : Automaton) : Except MatchError Progress :=
  a.settle 0 [0]

/-- Reads one character. -/
def advance (a : Automaton) (p : Progress) (c : Char) : Except MatchError Progress := do
  a.settle p.work (← a.consume c p.active)

/-- Reads a text, up to its end or until no state is active. -/
def simulate (a : Automaton) (p : Progress) : List Char → Except MatchError Progress
  | [] => .ok p
  | c :: rest => do
    let next ← a.advance p c
    if next.active.isEmpty then return next.stop else a.simulate next rest

/-- The first operator of the pattern language in a text, with its position. -/
def firstMeta? (text : List Char) : Option (Char × Nat) :=
  text.zipIdx.find? fun (c, _) => isMeta c

/-- The simulation of a text. A text with an operator is refused before it is
read. -/
def run (a : Automaton) (text : List Char) : Except MatchError Progress :=
  match firstMeta? text with
  | some (c, position) => .error (.metacharacter c position)
  | none => do
    a.simulate (← a.initial) text

/-- Does the automaton read the whole text? -/
def accepts (a : Automaton) (text : List Char) : Except MatchError Bool := do
  return (← a.run text).active.contains a.acceptState

/-- The active states after every character of a text has been read. -/
def activeAfter (a : Automaton) (text : List Char) : Except MatchError (List Nat) := do
  return (← text.foldlM a.advance (← a.initial)).active

end Automaton

end EpsilonMatch
