import EpsilonMatch.Pattern.Symbol
/-!
# EpsilonMatch.Pattern.Grammar

Which patterns are well formed.

A `*` may stand anywhere, also where there is nothing to repeat. A `|` stands
inside a group, and a group has at most one.

* `WellFormed` is the grammar as a least set of texts.
* `Body` is the tree of a well-formed pattern, and `Body.text` writes it down.
-/

namespace EpsilonMatch

/-- The least set of texts that holds the empty one, every character that is no
operator, and `*`, and is closed under concatenation and the two kinds of
groups. -/
inductive WellFormed : List Char → Prop
  | nil : WellFormed []
  | ordinary {c : Char} (plain : isMeta c = false) : WellFormed [c]
  | star : WellFormed ['*']
  | append {p q : List Char} (left : WellFormed p) (right : WellFormed q) : WellFormed (p ++ q)
  | group {p : List Char} (inner : WellFormed p) : WellFormed ('(' :: p ++ [')'])
  | choice {p q : List Char} (left : WellFormed p) (right : WellFormed q) :
    WellFormed ('(' :: p ++ '|' :: q ++ [')'])

/-- The tree of a pattern, unit by unit from the left. A unit is a character or
a group, and `stars` counts the `*` right behind it. -/
inductive Body
  /-- The `*` that nothing precedes. -/
  | leading (stars : Nat)
  | symbol (front : Body) (c : Char) (plain : isMeta c = false) (stars : Nat)
  | group (front inner : Body) (stars : Nat)
  | choice (front left right : Body) (stars : Nat)

namespace Body

/-- A row of `*`. -/
def starRow (n : Nat) : List Char := List.replicate n '*'

/-- The pattern of a tree. -/
def text : Body → List Char
  | leading stars => starRow stars
  | symbol front c _ stars => front.text ++ c :: starRow stars
  | group front inner stars => front.text ++ '(' :: inner.text ++ ')' :: starRow stars
  | choice front left right stars =>
    front.text ++ '(' :: left.text ++ '|' :: right.text ++ ')' :: starRow stars

/-- How many `*` a pattern begins with. -/
def leadingStars : Body → Nat
  | leading stars => stars
  | symbol front _ _ _ | group front _ _ | choice front _ _ _ => front.leadingStars

end Body

theorem WellFormed.starRow (n : Nat) : WellFormed (Body.starRow n) := by
  induction n with
  | zero => exact .nil
  | succ n ih => exact .append .star ih

/-- Every tree writes a well-formed pattern. -/
theorem Body.wellFormed_text (b : Body) : WellFormed b.text := by
  induction b with
  | leading stars => exact .starRow stars
  | symbol front c plain stars ih =>
    exact .append ih (.append (.ordinary plain) (.starRow stars))
  | group front inner stars ihFront ihInner =>
    have := WellFormed.append ihFront (.append (.group ihInner) (.starRow stars))
    simpa [Body.text] using this
  | choice front left right stars ihFront ihLeft ihRight =>
    have := WellFormed.append ihFront (.append (.choice ihLeft ihRight) (.starRow stars))
    simpa [Body.text] using this

end EpsilonMatch
