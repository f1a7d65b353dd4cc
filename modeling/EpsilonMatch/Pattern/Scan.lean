import EpsilonMatch.Pattern.Error
import EpsilonMatch.Graph.Sealed
/-!
# EpsilonMatch.Pattern.Scan

The left-to-right pass that finds the silent moves of a pattern.

The pass keeps the positions of the operators `(` and `|` that wait for their
`)`, the latest first. Closing a group takes off a `(`, or a `|` and the `(`
below it; a `|` is the only thing that can part a `)` from its `(`. No tree is
built: a `*` is found by looking one character ahead, and what it repeats is the
character before it or the group that was just closed.

* `Scan` is what the pass changes. It is kept when the pass fails, so the effects
  of a failed step can be seen.
* `Scan.pairClose` closes one group, over any stack of integers and any graph.
* `Scan.step` handles one character and `Scan.scanFrom` the unread rest.
-/

namespace EpsilonMatch

/-- What a pass over a pattern changes. -/
structure Scan where
  /-- The position at which a fault would be reported. -/
  position : Int
  /-- The positions of operators that wait for a `)`, the latest first. -/
  pending : List Int
  /-- The silent moves found so far. -/
  graph : Graph
  deriving Repr, DecidableEq

/-- A step of a pass: it may fail, and what it changed until then stays
changed. -/
abbrev ScanM := EStateM CompileError Scan

namespace Scan

/-! ## Effects -/

/-- Reports further faults at `position`. -/
def moveTo (position : Int) : ScanM Unit :=
  modify fun s => { s with position }

/-- Fails with a fault at the current position. -/
def fail {α : Type} (pattern : Array Char) (fault : PatternFault) : ScanM α := do
  throw (.locate pattern (← get).position fault)

/-- Lets the operator at `position` wait for its `)`. -/
def push (position : Int) : ScanM Unit :=
  modify fun s => { s with pending := position :: s.pending }

/-- Takes off the latest waiting operator; `fault` if there is none. -/
def pop (pattern : Array Char) (fault : PatternFault) : ScanM Int := do
  match (← get).pending with
  | [] => fail pattern fault
  | latest :: rest =>
    modify fun s => { s with pending := rest }
    return latest

/-- The pattern character at a position. -/
def symbolAt (pattern : Array Char) (position : Int) : ScanM Char :=
  match charAt? pattern position with
  | some c => return c
  | none => throw .pastPattern

/-- Changes the graph, also if the change fails half-way. -/
def onGraph (change : GraphM Unit) : ScanM Unit := fun s =>
  match change s.graph with
  | .ok _ graph => .ok () { s with graph }
  | .error e graph => .error (.edge e) { s with graph }

/-- Adds a silent move. -/
def connect (v w : Int) : ScanM Unit :=
  onGraph (Graph.connect v w)

/-! ## The pass -/

/-- Closes the group that ends at `i` and returns the position of its `(`. A
`|` in the group gets its two moves: from `(` to the second branch, and from
the end of the first branch to `)`. -/
def pairClose (pattern : Array Char) (i : Int) : ScanM Int := do
  let latest ← pop pattern .unmatchedClose
  if (← symbolAt pattern latest) = '|' then
    let left ← pop pattern .barOutsideGroup
    if (← symbolAt pattern left) ≠ '(' then
      moveTo left
      fail pattern .barNeedsGroup
    connect left (latest + 1)
    connect latest i
    return left
  else
    return latest

/-- The position from which the character `c` at `i` would be repeated: that of
the matching `(` for a `)`, its own otherwise. Operators are paired on the
way. -/
def operandStart (pattern : Array Char) (i : Nat) (c : Char) : ScanM Int := do
  if c = '(' ∨ c = '|' then
    push i
    return i
  else if c = ')' then
    pairClose pattern i
  else
    return i

/-- Adds the moves between the operand that starts at `start` and the `*` that
may follow the character at `i`. -/
def lookAhead (start : Int) (i : Nat) (next? : Option Char) : ScanM Unit := do
  if next? = some '*' then
    connect start (i + 1)
    connect (i + 1) start

/-- Adds the move past the character `c` at `i`, if it reads nothing. -/
def advance (i : Nat) (c : Char) : ScanM Unit := do
  if c = '(' ∨ c = '*' ∨ c = ')' then
    connect i (i + 1)

/-- Handles the character `c` at `i`; `next?` is the character behind it. -/
def step (pattern : Array Char) (i : Nat) (c : Char) (next? : Option Char) : ScanM Unit := do
  moveTo i
  let start ← operandStart pattern i c
  lookAhead start i next?
  advance i c

/-- Handles the unread rest of a pattern, which begins at position `i`. -/
def scanFrom (pattern : Array Char) (i : Nat) : List Char → ScanM Unit
  | [] => return
  | c :: rest => do
    step pattern i c rest.head?
    scanFrom pattern (i + 1) rest

/-- Fails at the latest operator that still waits. -/
def finish (pattern : Array Char) : ScanM Unit := do
  match (← get).pending with
  | [] => return
  | latest :: _ =>
    moveTo latest
    fail pattern .unmatchedOperator

/-- The whole pass. -/
def whole (pattern : Array Char) : ScanM Unit := do
  scanFrom pattern 0 pattern.toList
  finish pattern

end Scan

end EpsilonMatch
