import Mathlib.Computability.Language
import EpsilonMatch.Pattern.Grammar
/-!
# EpsilonMatch.Pattern.Language

What a pattern means: the set of texts it stands for, read off its tree.

Concatenation, union and repetition mean what they say, with one exception. A
`*` right behind the `|` of a group has no operand, but it lets a text pass from
the first branch into the second, so such a group stands for an optional text of
the first branch followed by an optional text of the second.
-/

namespace EpsilonMatch

open scoped Computability

/-- The one-character texts that a symbol reads. -/
def symbolLanguage (symbol : Char) : Language Char :=
  {text | ∃ c, text = [c] ∧ isMeta c = false ∧ (symbol = c ∨ symbol = '.')}

/-- What a unit followed by `stars` times `*` stands for. -/
def repeated (unit : Language Char) (stars : Nat) : Language Char :=
  if stars = 0 then unit else unit∗

/-- What a group of two branches stands for; `stars` counts the `*` that the
second branch begins with. -/
def branches (left right : Language Char) (stars : Nat) : Language Char :=
  if stars = 0 then left + right else (left + 1) * (right + 1)

/-- The texts that a tree stands for. -/
def Body.language : Body → Language Char
  | leading _ => 1
  | symbol front c _ stars => front.language * repeated (symbolLanguage c) stars
  | group front inner stars => front.language * repeated inner.language stars
  | choice front left right stars =>
    front.language *
      repeated (branches left.language right.language right.leadingStars) stars

end EpsilonMatch
