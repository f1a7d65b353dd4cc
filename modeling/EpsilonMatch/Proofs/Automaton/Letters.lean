import EpsilonMatch.Automaton.Simulation
import Mathlib.Logic.Equiv.Defs
/-!
# EpsilonMatch.Proofs.Automaton.Letters

A simulation does not care which ordinary characters it reads.

A `Relettering` puts other characters for the ordinary ones and leaves the operators alone. What
a simulation asks about characters is whether a text holds an operator and whether a symbol reads
a character. The first question has the same answer after any relettering; the second does if
different characters stay different and the wildcard stays the wildcard (`Faithful`). Then the
simulation makes the same steps, state by state and search by search, and gives the same answer
or the same error (`Automaton.accepts_reletter`).
-/

namespace EpsilonMatch

/-- A change of characters that keeps every operator and makes no new one. -/
structure Relettering where
  letter : Char → Char
  operator : ∀ c, isMeta c = true → letter c = c
  ordinary : ∀ c, isMeta c = false → isMeta (letter c) = false

namespace Relettering

/-- The same character for all that are no operators. -/
def blank : Relettering where
  letter c := if isMeta c then c else 'x'
  operator _ operator := if_pos operator
  ordinary _ plain := by rw [plain]; rfl

/-- A rearrangement of all characters in which no operator moves. -/
def ofPerm (π : Equiv.Perm Char) (fixed : ∀ c, isMeta c = true → π c = c) : Relettering where
  letter := π
  operator := fixed
  ordinary c plain := by
    -- what is sent to an operator is that operator
    by_contra changed
    have operator : isMeta (π c) = true := by simpa using changed
    have same : π c = c := π.injective (fixed _ operator)
    rw [same, plain] at operator
    cases operator

@[simp] theorem isMeta_letter (r : Relettering) (c : Char) : isMeta (r.letter c) = isMeta c := by
  cases kind : isMeta c with
  | true => rw [r.operator c kind, kind]
  | false => exact r.ordinary c kind

/-- A symbol reads a character exactly as it did before. -/
def Faithful (r : Relettering) : Prop :=
  ∀ symbol c, reads (r.letter symbol) (r.letter c) = reads symbol c

theorem faithful_ofPerm {π : Equiv.Perm Char} (fixed : ∀ c, isMeta c = true → π c = c)
    (any : π '.' = '.') : (ofPerm π fixed).Faithful := by
  intro symbol c
  have wild : π symbol = π '.' ↔ symbol = '.' := π.injective.eq_iff
  rw [any] at wild
  rw [Bool.eq_iff_iff, reads_iff, reads_iff]
  show π symbol = π c ∨ π symbol = '.' ↔ _
  rw [π.injective.eq_iff, wild]

/-- The first operator of a text is where it was. -/
theorem firstMeta?_map (r : Relettering) (x : List Char) :
    Automaton.firstMeta? (x.map r.letter) = Automaton.firstMeta? x := by
  unfold Automaton.firstMeta?
  rw [List.zipIdx_map, List.find?_map]
  have same : (fun entry : Char × Nat => isMeta entry.1) ∘ Prod.map r.letter id =
      fun entry => isMeta entry.1 := by
    funext entry
    exact r.isMeta_letter entry.1
  rw [same]
  cases found : x.zipIdx.find? fun entry => isMeta entry.1 with
  | none => rfl
  | some entry =>
      have operator := List.find?_some found
      rw [Option.map_some, Prod.map, r.operator _ operator]
      rfl

end Relettering

namespace Automaton

variable {r : Relettering}

/-- The automaton with other symbols. -/
def reletter (r : Relettering) (a : Automaton) : Automaton :=
  { a with symbols := a.symbols.map r.letter }

@[simp] theorem moves_reletter (r : Relettering) (a : Automaton) :
    (a.reletter r).moves = a.moves := rfl

@[simp] theorem acceptState_reletter (r : Relettering) (a : Automaton) :
    (a.reletter r).acceptState = a.acceptState := Array.size_map

theorem consume_reletter (faithful : r.Faithful) (a : Automaton) (c : Char) (states : List Nat) :
    (a.reletter r).consume (r.letter c) states = a.consume c states := by
  induction states with
  | nil => rfl
  | cons s rest ih =>
      have symbol : (a.reletter r).symbols[s]? = a.symbols[s]?.map r.letter := Array.getElem?_map
      rw [consume, consume, acceptState_reletter, symbol, ih]
      cases a.symbols[s]? with
      | none => rfl
      | some symbol => simp only [Option.map_some, faithful symbol c]

/-- One character: the same states, closed under the same moves. -/
theorem advance_reletter (faithful : r.Faithful) (a : Automaton) (p : Progress) (c : Char) :
    (a.reletter r).advance p (r.letter c) = a.advance p c := by
  unfold advance
  rw [consume_reletter faithful]
  rfl

theorem simulate_reletter (faithful : r.Faithful) (a : Automaton) (p : Progress) (x : List Char) :
    (a.reletter r).simulate p (x.map r.letter) = a.simulate p x := by
  induction x generalizing p with
  | nil => rfl
  | cons c rest ih =>
      rw [List.map_cons, simulate, simulate, advance_reletter faithful]
      simp only [ih]

/-- With other letters in both the automaton and the text, the outcome is the same. -/
theorem accepts_reletter (faithful : r.Faithful) (a : Automaton) (x : List Char) :
    (a.reletter r).accepts (x.map r.letter) = a.accepts x := by
  have started : (a.reletter r).initial = a.initial := rfl
  have same : (a.reletter r).run (x.map r.letter) = a.run x := by
    unfold run
    rw [r.firstMeta?_map, started]
    simp only [simulate_reletter faithful]
  unfold accepts
  rw [same, acceptState_reletter]

end Automaton

end EpsilonMatch
