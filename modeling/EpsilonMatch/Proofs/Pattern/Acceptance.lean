import EpsilonMatch.Proofs.Pattern.Pass
/-!
# EpsilonMatch.Proofs.Pattern.Acceptance

Which patterns are compiled: exactly the well-formed ones.

A pattern that is not well formed has no tree, so the reader refuses it, and
with it the pass, always for a fault of the pattern. The other causes of a
`CompileError` are a matter of stacks and graphs that a pass of its own never
builds.
-/

namespace EpsilonMatch

/-- A pattern without a tree is refused for a fault of its own. -/
theorem compile_of_not_wellFormed {p : List Char} (h : ¬ WellFormed p) :
    ∃ e, compile p = .error (.pattern e) := by
  obtain ⟨⟨fault, place⟩, refused⟩ := exists_parse_eq_error h
  exact ⟨_, by rw [compile_eq, refused]⟩

theorem wellFormed_of_compile {p : List Char} {a : Automaton} (h : compile p = .ok a) :
    WellFormed p := by
  obtain ⟨b, text, -⟩ := exists_text_of_compile h
  exact wellFormed_iff_exists_text.2 ⟨b, text⟩

theorem exists_compile_of_wellFormed {p : List Char} (h : WellFormed p) :
    ∃ a, compile p = .ok a := by
  obtain ⟨b, rfl⟩ := wellFormed_iff_exists_text.1 h
  exact ⟨_, compile_text b⟩

/-- The compiler accepts the pattern. -/
def Compiles (p : List Char) : Prop := ∃ a, compile p = .ok a

theorem compiles_iff {p : List Char} : Compiles p ↔ WellFormed p := by
  constructor
  · intro compiled
    obtain ⟨a, h⟩ := compiled
    exact wellFormed_of_compile h
  · exact exists_compile_of_wellFormed

/-- A compiled automaton has the characters of its pattern for symbols, and its
graph one vertex per character and one for the accept state. -/
theorem fits_of_compile {p : List Char} {a : Automaton} (h : compile p = .ok a) :
    a.symbols = p.toArray ∧ a.moves.vertexCount = p.length + 1 := by
  obtain ⟨b, rfl, rfl⟩ := exists_text_of_compile h
  exact ⟨rfl, by simp [Body.automaton, Body.moves]⟩

/-- **The compiler accepts exactly its grammar.** A well-formed pattern is
compiled, to a graph over its positions and the accept state. Any other pattern is
refused, and only for a fault of the pattern. -/
theorem compile_iff_wellFormed (p : List Char) :
    ((∃ a, compile p = .ok a) ↔ WellFormed p) ∧
    ((∃ e, compile p = .error (.pattern e)) ↔ ¬ WellFormed p) ∧
    (∀ e, compile p = .error e → ∃ fault, e = .pattern fault) ∧
    ∀ a, compile p = .ok a →
      a.symbols = p.toArray ∧ a.moves.vertexCount = p.length + 1 ∧
        ∀ targets ∈ a.moves.rows, ∀ w ∈ targets, w < p.length + 1 := by
  refine ⟨⟨fun ⟨a, h⟩ => wellFormed_of_compile h, exists_compile_of_wellFormed⟩,
    ⟨?_, compile_of_not_wellFormed⟩, ?_, ?_⟩
  · rintro ⟨e, h⟩ wellFormed
    obtain ⟨a, compiled⟩ := exists_compile_of_wellFormed wellFormed
    simp [compiled] at h
  · intro e h
    by_cases wellFormed : WellFormed p
    · obtain ⟨a, compiled⟩ := exists_compile_of_wellFormed wellFormed
      simp [compiled] at h
    · obtain ⟨fault, refused⟩ := compile_of_not_wellFormed wellFormed
      exact ⟨fault, by simpa [refused] using h.symm⟩
  · intro a h
    obtain ⟨symbols, count⟩ := fits_of_compile h
    refine ⟨symbols, count, fun targets ht w hw => ?_⟩
    have := a.moves.target_lt targets ht w hw
    rw [← count]
    exact this

end EpsilonMatch
