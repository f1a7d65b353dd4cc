import Mathlib.Computability.Language
import EpsilonMatch.Pattern.Symbol
/-!
# EpsilonMatch.Proofs.Automaton.Part

Parts of an automaton and the texts that lead through them.

A `Part` is a labelled relation between states: a silent move, or a move that
reads one character. Parts are put side by side with `∪`. `Part.texts` are the
texts that lead from one state to another, and `Part.texts_union` computes them for
two parts in sequence.

The parts of a pattern occupy intervals of states (`Part.Within`): a move starts
inside the interval, and ends there or right behind it. So a walk that has left a
part does not come back, except over the moves of a `*`. The one thing that could
go wrong there is a walk that enters a part, goes back to its start, and leaves it
another way with characters already read. `Part.Quiet` excludes this: moves to
the first few states of a part are silent and come from those states, so who is
there has read nothing yet.

A proof that a walk reads nothing else gives the texts that may still be read in
every state, and checks that each move keeps to it (`Part.Walk.residual`).
-/

namespace EpsilonMatch

open scoped Computability

/-- The moves of a part of an automaton: from a state, reading a character or
nothing, to a state. -/
def Part := Nat → Option Char → Nat → Prop

namespace Part

variable {p q : Part} {i j k s t u : Nat} {x y : List Char}

@[ext] theorem ext (h : ∀ s l t, p s l t ↔ q s l t) : p = q := by
  funext s l t
  exact propext (h s l t)

/-- The moves of both parts. -/
instance : Union Part where
  union p q := fun s l t => p s l t ∨ q s l t

@[simp] theorem union_iff {l : Option Char} : (p ∪ q) s l t ↔ p s l t ∨ q s l t := Iff.rfl

/-- `p.Walk s x t`: moves of `p` lead from `s` to `t` and read exactly `x`. -/
inductive Walk (p : Part) : Nat → List Char → Nat → Prop
  | nil (s : Nat) : Walk p s [] s
  | step {s u t : Nat} {l : Option Char} {x : List Char} (move : p s l u) (rest : Walk p u x t) :
    Walk p s (l.toList ++ x) t

namespace Walk

theorem trans (first : p.Walk s x u) (second : p.Walk u y t) : p.Walk s (x ++ y) t := by
  induction first with
  | nil => exact second
  | step move _ ih =>
      rw [List.append_assoc]
      exact .step move (ih second)

theorem mono (h : ∀ s l t, p s l t → q s l t) (walk : p.Walk s x t) : q.Walk s x t := by
  induction walk with
  | nil s => exact .nil s
  | step move _ ih => exact .step (h _ _ _ move) ih

theorem silent (move : p s none t) : p.Walk s [] t := .step move (.nil t)

/-- If a property of states and of the texts to come holds at the end and is kept
by every move, it holds all along a walk. -/
theorem residual {P : Nat → List Char → Prop} (walk : p.Walk s x t) (stop : P t [])
    (step : ∀ s l u x, p s l u → P u x → P s (l.toList ++ x)) : P s x := by
  induction walk with
  | nil => exact stop
  | step move _ ih => exact step _ _ _ _ move (ih stop)

end Walk

/-- The texts that lead from `s` to `t`. -/
def texts (p : Part) (s t : Nat) : Language Char := {x | p.Walk s x t}

theorem nil_mem_texts : [] ∈ p.texts s s := .nil s

/-- A move in front of the texts of a part that lead on to other texts. -/
theorem mem_texts_mul_of_move {L : Language Char} {l : Option Char} (move : p s l u)
    (h : x ∈ p.texts u t * L) : l.toList ++ x ∈ p.texts s t * L := by
  obtain ⟨y, walk, z, hz, rfl⟩ := h
  exact ⟨l.toList ++ y, Walk.step move walk, z, hz, by simp⟩

theorem mem_texts_mul_of_mem {L : Language Char} (h : x ∈ L) : x ∈ p.texts s s * L :=
  ⟨[], nil_mem_texts, x, h, rfl⟩

/-- Moves start in `i, …, j - 1` and end in `i, …, j`. -/
def Within (p : Part) (i j : Nat) : Prop :=
  ∀ s l t, p s l t → i ≤ s ∧ s < j ∧ i ≤ t ∧ t ≤ j

/-- Moves to a state below `z` are silent and come from a state below `z`. -/
def Quiet (p : Part) (z : Nat) : Prop :=
  ∀ s l t, p s l t → t < z → l = none ∧ s < z

theorem Within.union (hp : p.Within i k) (hq : q.Within k j) (hik : i ≤ k) (hkj : k ≤ j) :
    (p ∪ q).Within i j := by
  intro s l t move
  cases move with
  | inl move =>
      have := hp s l t move
      omega
  | inr move =>
      have := hq s l t move
      omega

/-- A walk from behind a part does not move. -/
theorem Within.eq_nil (hp : p.Within i j) (walk : p.Walk j x t) : x = [] := by
  cases walk with
  | nil => rfl
  | step move =>
      have := hp _ _ _ move
      omega

/-! ### In sequence -/

theorem texts_union (hp : p.Within i k) (hq : q.Within k j) (hik : i ≤ k) (hkj : k ≤ j) :
    (p ∪ q).texts i j = p.texts i k * q.texts k j := by
  ext x
  constructor
  · intro walk
    -- up to `k` the walk has yet to pass `k`, and from there on it stays in `q`
    have residual := walk.residual
      (P := fun s x => (s ≤ k → x ∈ p.texts s k * q.texts k j) ∧ (k ≤ s → x ∈ q.texts s j))
      ⟨fun hs => ?_, fun _ => nil_mem_texts⟩ ?_
    · exact residual.1 hik
    · obtain rfl : j = k := by omega
      exact mem_texts_mul_of_mem nil_mem_texts
    · rintro s l u x (move | move) ⟨before, behind⟩
      · have := hp s l u move
        exact ⟨fun _ => mem_texts_mul_of_move move (before (by omega)), fun _ => by omega⟩
      · have := hq s l u move
        have rest : l.toList ++ x ∈ q.texts s j := Walk.step move (behind (by omega))
        refine ⟨fun hs => ?_, fun _ => rest⟩
        obtain rfl : s = k := by omega
        exact mem_texts_mul_of_mem rest
  · rintro ⟨u, first, v, second, rfl⟩
    exact (first.mono fun _ _ _ => .inl).trans (second.mono fun _ _ _ => .inr)

end Part

end EpsilonMatch
