/-!
# EpsilonMatch.Pattern.Symbol

The characters of a pattern. Four of them are operators: a group is written
between `(` and `)`, its two branches are parted by `|`, and `*` repeats what
precedes it. `.` reads any character, and every other character reads itself.

Patterns and texts are sequences of Unicode scalar values, one `Char` each: every
code point but the surrogates. Positions and lengths count them.
-/

namespace EpsilonMatch

/-- Operators of the pattern language; a text to match may not hold one. -/
def isMeta (c : Char) : Bool :=
  c = '(' || c = ')' || c = '|' || c = '*'

/-- The symbol that reads every character. -/
def wildcard : Char := '.'

/-- Does the pattern character `symbol` read the text character `c`? -/
def reads (symbol c : Char) : Bool :=
  symbol = c || symbol = wildcard

theorem reads_iff {symbol c : Char} : reads symbol c = true ↔ symbol = c ∨ symbol = '.' := by
  show (decide (symbol = c) || decide (symbol = '.')) = true ↔ _
  simp only [Bool.or_eq_true, decide_eq_true_eq]

theorem isMeta_iff {c : Char} :
    isMeta c = true ↔ c = '(' ∨ c = ')' ∨ c = '|' ∨ c = '*' := by
  simp [isMeta, or_assoc]

/-! ## Positions -/

/-- The character at a position of a pattern. A negative position counts from the end,
`-1` being that of the last character. -/
def charAt? (pattern : Array Char) (position : Int) : Option Char :=
  let index := if position < 0 then pattern.size + position else position
  if index < 0 then none else pattern[index.toNat]?

@[simp] theorem charAt?_natCast (pattern : Array Char) (i : Nat) :
    charAt? pattern i = pattern[i]? := by
  have front : ¬ (i : Int) < 0 := Int.not_lt.2 (Int.natCast_nonneg i)
  simp only [charAt?, if_neg front, Int.toNat_natCast]

/-- From the first position that counts from the end, up to the end, there is a character. -/
theorem isSome_charAt?_iff {pattern : Array Char} {position : Int} :
    (charAt? pattern position).isSome = true ↔
      -(pattern.size : Int) ≤ position ∧ position < pattern.size := by
  unfold charAt?
  by_cases back : position < 0
  · by_cases before : pattern.size + position < 0
    · simp [back, before]
      omega
    · simp [back, before]
      omega
  · simp [back]
    omega

/-- The wording for a position outside of a pattern. -/
def pastPatternMessage : String := "string index out of range"

end EpsilonMatch
