import EpsilonMatch.Pattern.Symbol
import EpsilonMatch.Graph.Basic
/-!
# EpsilonMatch.Pattern.Error

Why a pattern is refused.

A `PatternError` is a fault together with the place at which it is reported; the
place is a position and the character found there, if the position is not past the
end of the pattern. The other causes of `CompileError` cannot come out of a whole
compilation, but a single group may be closed over any stack and any graph
(`EpsilonMatch.Pattern.Scan`), and then they do.

Positions are integers, and a negative one counts from the end (`charAt?`). A
position that is too small for that has no character, and even reporting a fault
there fails.
-/

namespace EpsilonMatch

/-- What is wrong with a pattern. -/
inductive PatternFault
  /-- A `)` without a `(`. -/
  | unmatchedClose
  /-- A `|` that is in no group. -/
  | barOutsideGroup
  /-- A `|` in a group that has one already. -/
  | barNeedsGroup
  /-- A `(` or `|` whose group is never closed. -/
  | unmatchedOperator
  /-- A fault in a caller's own words. -/
  | reported (text : String)
  deriving Repr, DecidableEq

/-- The wording of a fault. -/
def PatternFault.message : PatternFault → String
  | unmatchedClose => "Unmatched closing parenthesis"
  | barOutsideGroup => "Alternation outside of a group"
  | barNeedsGroup => "Alternation needs its own group"
  | unmatchedOperator => "Not a proper regular expression - unmatched operator"
  | reported text => text

/-- A fault and the place at which it is reported. -/
structure PatternError where
  fault : PatternFault
  /-- The character at the position; none past the end of the pattern. -/
  near : Option Char
  position : Int
  deriving Repr, DecidableEq

namespace PatternError

/-- How the place of an error is quoted. -/
def nearText : Option Char → String
  | some c => String.singleton c
  | none => "EOL"

/-- The wording of an error. -/
def message (e : PatternError) : String :=
  e.fault.message ++ " - near '" ++ nearText e.near ++ "' at position " ++ toString e.position

end PatternError

/-- Why compiling, or closing a single group, ends without a result. -/
inductive CompileError
  /-- The pattern is malformed. -/
  | pattern (e : PatternError)
  /-- A position has no character of the pattern. -/
  | pastPattern
  /-- The graph refuses an edge. -/
  | edge (e : GraphError)
  /-- The finished graph cannot be sealed. -/
  | graph (e : GraphError)
  deriving Repr, DecidableEq

namespace CompileError

/-- The wording of a compile error. -/
def message : CompileError → String
  | pattern e => e.message
  | pastPattern => pastPatternMessage
  | edge e => e.message
  | graph e => e.message

/-- What comes of reporting a fault at a position of a pattern. -/
def locate (pattern : Array Char) (position : Int) (fault : PatternFault) : CompileError :=
  if position < pattern.size then
    match charAt? pattern position with
    | some c => .pattern { fault, near := some c, position }
    | none => .pastPattern
  else
    .pattern { fault, near := none, position }

/-- Either the fault is reported, or there is no character to quote. -/
theorem locate_cases (pattern : Array Char) (position : Int) (fault : PatternFault) :
    (∃ near, locate pattern position fault = .pattern { fault, near, position }) ∨
      locate pattern position fault = .pastPattern := by
  unfold locate
  by_cases before : position < pattern.size
  · rw [if_pos before]
    cases charAt? pattern position with
    | some c => exact .inl ⟨some c, rfl⟩
    | none => exact .inr rfl
  · rw [if_neg before]
    exact .inl ⟨none, rfl⟩

/-- A fault is reported wherever there is a character, and past the end. -/
theorem locate_eq_pattern {pattern : Array Char} {position : Int}
    (after : -(pattern.size : Int) ≤ position) (fault : PatternFault) :
    locate pattern position fault =
      .pattern { fault, near := charAt? pattern position, position } := by
  rw [locate]
  by_cases before : position < pattern.size
  · obtain ⟨c, here⟩ := Option.isSome_iff_exists.1 (isSome_charAt?_iff.2 ⟨after, before⟩)
    rw [if_pos before, here]
  · have none : charAt? pattern position = none := by
      rw [← Option.not_isSome_iff_eq_none, isSome_charAt?_iff]
      exact fun inside => before inside.2
    rw [if_neg before, none]

theorem locate_of_charAt? {pattern : Array Char} {position : Int} {c : Char}
    (here : charAt? pattern position = some c) (fault : PatternFault) :
    locate pattern position fault = .pattern { fault, near := some c, position } := by
  have inside := isSome_charAt?_iff.1 (Option.isSome_of_eq_some here)
  rw [locate_eq_pattern inside.1, here]

@[simp] theorem locate_natCast (pattern : Array Char) (place : Nat) (fault : PatternFault) :
    locate pattern place fault =
      .pattern { fault, near := pattern[place]?, position := place } := by
  rw [locate_eq_pattern (by omega), charAt?_natCast]

end CompileError

end EpsilonMatch
