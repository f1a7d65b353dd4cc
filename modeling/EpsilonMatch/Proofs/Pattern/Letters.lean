import EpsilonMatch.Proofs.Automaton.Letters
import EpsilonMatch.Proofs.Pattern.Diagnosis
import EpsilonMatch.Proofs.Pattern.Meaning
import Mathlib.Logic.Equiv.Basic
/-!
# EpsilonMatch.Proofs.Pattern.Letters

Only the operators and the wildcard are special.

To a pass, all characters that are no operators are alike. The proof goes through the trees: a
relettering of a pattern is a relettering of its tree (`parse_reletter`), which has the same size
and the same moves. If there is no tree, the same fault is found at the same place, and the
character there is an operator, whatever the fault (`exists_operator_of_refuse`); so even the
wording of the error is the same. Hence compiling commutes with relettering
(`compile_reletter`).

Two patterns that agree in their operators become one pattern when all other characters are
blanked, so they have the same moves or the same error. And a rearrangement of the characters
that leaves the operators and the wildcard alone can be undone, so it changes no verdict.
-/

namespace EpsilonMatch

variable {r : Relettering}

/-! ### Trees -/

namespace Body

/-- The tree with other characters. -/
def reletter (r : Relettering) : Body → Body
  | leading stars => leading stars
  | symbol front c plain stars =>
    symbol (front.reletter r) (r.letter c) (r.ordinary c plain) stars
  | group front inner stars => group (front.reletter r) (inner.reletter r) stars
  | choice front left right stars =>
    choice (front.reletter r) (left.reletter r) (right.reletter r) stars

@[simp] theorem size_reletter (r : Relettering) (b : Body) : (b.reletter r).size = b.size := by
  induction b with
  | leading stars => rfl
  | symbol front c plain stars ih => simp only [reletter, size, ih]
  | group front inner stars ihFront ihInner => simp only [reletter, size, ihFront, ihInner]
  | choice front left right stars ihFront ihLeft ihRight =>
      simp only [reletter, size, ihFront, ihLeft, ihRight]

@[simp] theorem startsStarred_reletter (r : Relettering) (b : Body) (followed : Bool) :
    (b.reletter r).startsStarred followed = b.startsStarred followed := by
  induction b generalizing followed with
  | leading stars => rfl
  | symbol front c plain stars ih => exact ih false
  | group front inner stars ih _ => exact ih false
  | choice front left right stars ih _ _ => exact ih false

/-- The moves of a tree do not depend on its characters. -/
theorem edges_reletter (r : Relettering) (b : Body) (followed : Bool) (i : Nat) :
    (b.reletter r).edges followed i = b.edges followed i := by
  induction b generalizing followed i with
  | leading stars => rfl
  | symbol front c plain stars ih => simp only [reletter, edges, size_reletter, ih]
  | group front inner stars ihFront ihInner =>
      simp only [reletter, edges, size_reletter, startsStarred_reletter, ihFront, ihInner]
  | choice front left right stars ihFront ihLeft ihRight =>
      simp only [reletter, edges, size_reletter, startsStarred_reletter, ihFront, ihLeft, ihRight]

theorem moves_reletter (r : Relettering) (b : Body) : (b.reletter r).moves = b.moves := by
  simp only [moves, size_reletter, edges_reletter]

theorem addStars_reletter (r : Relettering) (b : Body) (n : Nat) :
    (b.addStars n).reletter r = (b.reletter r).addStars n := by
  cases b with
  | leading stars => rfl
  | symbol front c plain stars => rfl
  | group front inner stars => rfl
  | choice front left right stars => rfl

end Body

/-! ### Reading -/

namespace Draft

/-- The draft with other characters. -/
def reletter (r : Relettering) (d : Draft) : Draft :=
  ⟨d.waiting.map fun entry => (entry.1.reletter r, entry.2), d.current.reletter r⟩

theorem waitingSize_reletter (r : Relettering) (waiting : List (Body × Opener)) :
    waitingSize (waiting.map fun entry => (entry.1.reletter r, entry.2)) = waitingSize waiting := by
  induction waiting with
  | nil => rfl
  | cons entry outer ih => simp only [List.map_cons, waitingSize, ih, Body.size_reletter]

theorem close_reletter (r : Relettering) (d : Draft) :
    (d.reletter r).close = d.close.map (reletter r) := by
  obtain ⟨waiting, current⟩ := d
  match waiting with
  | [] => simp [close, reletter, size, Except.map]
  | (front, .group) :: outer => rfl
  | [(left, .bar)] =>
    simp [close, reletter, size, waitingSize, Except.map]
  | (left, .bar) :: (front, .group) :: outer => rfl
  | (left, .bar) :: (front, .bar) :: outer =>
    simp [close, reletter, waitingSize_reletter, Except.map]

/-- Reading a character that has been changed is reading the character and changing the draft. -/
theorem read_reletter (r : Relettering) (d : Draft) (c : Char) :
    (d.reletter r).read (r.letter c) = (d.read c).map (reletter r) := by
  rcases char_cases c with plain | rfl | rfl | rfl | rfl
  · rw [read_plain d plain, read_plain _ (r.ordinary c plain)]
    rfl
  · rw [r.operator '*' rfl, read_star, read_star]
    simp [reletter, Except.map, Body.addStars_reletter]
  · rw [r.operator '(' rfl]
    rfl
  · rw [r.operator '|' rfl]
    rfl
  · rw [r.operator ')' rfl]
    exact close_reletter r d

theorem readAll_reletter (r : Relettering) (d : Draft) (x : List Char) :
    (d.reletter r).readAll (x.map r.letter) = (d.readAll x).map (reletter r) := by
  induction x generalizing d with
  | nil => rfl
  | cons c rest ih =>
      rw [List.map_cons, readAll_cons, readAll_cons, read_reletter]
      cases d.read c with
      | error e => rfl
      | ok next => exact ih next

theorem finish_reletter (r : Relettering) (d : Draft) :
    (d.reletter r).finish = d.finish.map (Body.reletter r) := by
  obtain ⟨waiting, current⟩ := d
  cases waiting with
  | nil => rfl
  | cons entry outer => simp [finish, reletter, waitingSize_reletter, Except.map]

end Draft

/-- A pattern with other characters has the tree with these characters, or the same fault at the
same place. -/
theorem parse_reletter (r : Relettering) (p : List Char) :
    parse (p.map r.letter) = (parse p).map (Body.reletter r) := by
  have read : Draft.empty.readAll (p.map r.letter) =
      (Draft.empty.readAll p).map (Draft.reletter r) := Draft.readAll_reletter r Draft.empty p
  unfold parse
  rw [read]
  cases Draft.empty.readAll p with
  | error e => rfl
  | ok d => exact Draft.finish_reletter r d

/-! ### Compiling -/

/-- A pattern with other characters is compiled to the automaton with these characters, or refused
with the same error. -/
theorem compile_reletter (r : Relettering) (p : List Char) :
    compile (p.map r.letter) = (compile p).map (Automaton.reletter r) := by
  rw [compile_eq, compile_eq, parse_reletter]
  cases found : parse p with
  | ok b =>
      show Except.ok _ = Except.ok _
      rw [Body.moves_reletter, Automaton.reletter, List.map_toArray]
  | error e =>
      obtain ⟨fault, place⟩ := e
      obtain ⟨c, at_place, operator⟩ := exists_operator_of_refuse found
      show Except.error _ = Except.error _
      simp only [List.getElem?_map, at_place, Option.map_some, r.operator c operator]

/-! ### Patterns that agree in their operators -/

/-- Two patterns of one length hold the same operators at the same positions. -/
structure Alike (p q : List Char) : Prop where
  length_eq : p.length = q.length
  agree : ∀ (i : Nat) (c d : Char), p[i]? = some c → q[i]? = some d →
    isMeta c = true ∧ d = c ∨ isMeta c = false ∧ isMeta d = false

theorem Alike.blank_eq {p q : List Char} (alike : Alike p q) :
    p.map Relettering.blank.letter = q.map Relettering.blank.letter := by
  refine List.ext_getElem? fun i => ?_
  rw [List.getElem?_map, List.getElem?_map]
  by_cases inside : i < p.length
  · have hp := List.getElem?_eq_getElem inside
    have hq := List.getElem?_eq_getElem (alike.length_eq ▸ inside : i < q.length)
    rw [hp, hq, Option.map_some, Option.map_some]
    rcases alike.agree i _ _ hp hq with ⟨-, same⟩ | ⟨plain, plain'⟩
    · rw [same]
    · simp [Relettering.blank, plain, plain']
  · rw [List.getElem?_eq_none (Nat.le_of_not_lt inside),
      List.getElem?_eq_none (alike.length_eq ▸ Nat.le_of_not_lt inside)]

theorem Alike.compile_cases {p q : List Char} (alike : Alike p q) :
    (∃ a b, compile p = .ok a ∧ compile q = .ok b ∧ a.moves = b.moves) ∨
      ∃ e, compile p = .error (.pattern e) ∧ compile q = .error (.pattern e) := by
  -- blanked, the patterns are one, and blanking keeps the moves and every error
  have same : (compile p).map (Automaton.reletter .blank) =
      (compile q).map (Automaton.reletter .blank) := by
    rw [← compile_reletter, ← compile_reletter, alike.blank_eq]
  cases hp : compile p with
  | ok a =>
      cases hq : compile q with
      | ok b =>
          rw [hp, hq] at same
          have blanked : a.reletter .blank = b.reletter .blank := Except.ok.inj same
          refine .inl ⟨a, b, rfl, rfl, ?_⟩
          rw [← Automaton.moves_reletter .blank a, blanked, Automaton.moves_reletter]
      | error e =>
          rw [hp, hq] at same
          cases same
  | error e =>
      cases hq : compile q with
      | ok b =>
          rw [hp, hq] at same
          cases same
      | error e' =>
          rw [hp, hq] at same
          obtain ⟨fault, refused⟩ := compile_of_not_wellFormed fun wellFormed => by
            obtain ⟨a, compiled⟩ := exists_compile_of_wellFormed wellFormed
            rw [hp] at compiled
            cases compiled
          obtain rfl : e = .pattern fault := Except.error.inj (hp.symm.trans refused)
          obtain rfl : .pattern fault = e' := Except.error.inj same
          exact .inr ⟨fault, rfl, rfl⟩

/-! ### Verdicts -/

/-- Why a pattern has no verdict on a text. -/
inductive Refusal
  /-- The pattern is not compiled. -/
  | pattern (e : CompileError)
  /-- The text cannot be read. -/
  | text (e : MatchError)
  deriving DecidableEq

/-- Compiles a pattern and matches a text with it. -/
def verdict (p x : List Char) : Except Refusal Bool := do
  let a ← (compile p).mapError .pattern
  (a.accepts x).mapError .text

/-- A change of characters that keeps what reads what changes no verdict. -/
theorem verdict_reletter (faithful : r.Faithful) (p x : List Char) :
    verdict (p.map r.letter) (x.map r.letter) = verdict p x := by
  unfold verdict
  rw [compile_reletter]
  cases compile p with
  | error e => rfl
  | ok a =>
      show ((a.reletter r).accepts (x.map r.letter)).mapError Refusal.text = _
      rw [Automaton.accepts_reletter faithful]
      rfl

/-- A pattern that is not compiled has a fault of its own, and a text that cannot be read holds an
operator. -/
theorem verdict_cases (p x : List Char) :
    (∃ accepted, verdict p x = .ok accepted) ∨
      (∃ e, verdict p x = .error (.pattern (.pattern e))) ∨
      ∃ c i, verdict p x = .error (.text (.metacharacter c i)) := by
  unfold verdict
  by_cases wellFormed : WellFormed p
  · obtain ⟨b, rfl⟩ := wellFormed_iff_exists_text.1 wellFormed
    rw [compile_text]
    show (∃ accepted, (b.automaton.accepts x).mapError Refusal.text = .ok accepted) ∨
      (∃ e, (b.automaton.accepts x).mapError Refusal.text = .error (.pattern (.pattern e))) ∨
      ∃ c i, (b.automaton.accepts x).mapError Refusal.text = .error (.text (.metacharacter c i))
    rcases Automaton.accepts_cases b.fits_automaton x with ⟨v, accepted⟩ | ⟨c, i, refused⟩
    · rw [accepted]
      exact .inl ⟨v, rfl⟩
    · rw [refused]
      exact .inr (.inr ⟨c, i, rfl⟩)
  · obtain ⟨e, refused⟩ := compile_of_not_wellFormed wellFormed
    rw [refused]
    exact .inr (.inl ⟨e, rfl⟩)

/-! ### Summary -/

/-- **Only the operators and the wildcard are special.** Patterns that agree in their operators
are compiled to the same moves, row by row, or refused with the same error, the quoted character
included. A rearrangement of the characters that leaves the operators and the wildcard alone,
applied to a pattern and a text, changes nothing about the outcome: a verdict, the error of the
pattern, or the error that names the first operator of the text. -/
theorem ordinary_characters_alike :
    (∀ p q : List Char, Alike p q →
      (∃ a b, compile p = .ok a ∧ compile q = .ok b ∧ a.moves = b.moves) ∨
        ∃ e, compile p = .error (.pattern e) ∧ compile q = .error (.pattern e)) ∧
    (∀ π : Equiv.Perm Char, (∀ c, isMeta c = true ∨ c = '.' → π c = c) →
      ∀ p x : List Char, verdict (p.map π) (x.map π) = verdict p x) ∧
    ∀ p x : List Char,
      (∃ accepted, verdict p x = .ok accepted) ∨
        (∃ e, verdict p x = .error (.pattern (.pattern e))) ∨
        ∃ c i, verdict p x = .error (.text (.metacharacter c i)) := by
  refine ⟨fun p q alike => alike.compile_cases, fun π fixed p x => ?_, verdict_cases⟩
  have operators : ∀ c, isMeta c = true → π c = c := fun c operator => fixed c (.inl operator)
  exact verdict_reletter (Relettering.faithful_ofPerm operators (fixed '.' (.inr rfl))) p x

/-- Exchanges a letter and the line break. -/
def brokenLines : Equiv.Perm Char := Equiv.swap 'E' '\n'

/-- The patterns `(E.` and `(.E` are refused alike. With line breaks for letters, `(E|.)*` has the
same verdict on `EE` and the same error for `E)`. -/
theorem brokenLines_characters_alike :
    (Alike ['(', 'E', '.'] ['(', '.', 'E'] ∧
      ((∃ a b, compile ['(', 'E', '.'] = .ok a ∧ compile ['(', '.', 'E'] = .ok b ∧
          a.moves = b.moves) ∨
        ∃ e, compile ['(', 'E', '.'] = .error (.pattern e) ∧
          compile ['(', '.', 'E'] = .error (.pattern e))) ∧
    (∀ c, isMeta c = true ∨ c = '.' → brokenLines c = c) ∧
    verdict ("(E|.)*".toList.map brokenLines) ("EE".toList.map brokenLines) =
      verdict "(E|.)*".toList "EE".toList ∧
    verdict ("(E|.)*".toList.map brokenLines) ("E)".toList.map brokenLines) =
      verdict "(E|.)*".toList "E)".toList := by
  have alike : Alike ['(', 'E', '.'] ['(', '.', 'E'] := by
    refine ⟨rfl, fun i c d hc hd => ?_⟩
    match i with
    | 0 =>
        obtain rfl : '(' = c := Option.some.inj hc
        obtain rfl : '(' = d := Option.some.inj hd
        exact .inl ⟨rfl, rfl⟩
    | 1 =>
        obtain rfl : 'E' = c := Option.some.inj hc
        obtain rfl : '.' = d := Option.some.inj hd
        exact .inr ⟨rfl, rfl⟩
    | 2 =>
        obtain rfl : '.' = c := Option.some.inj hc
        obtain rfl : 'E' = d := Option.some.inj hd
        exact .inr ⟨rfl, rfl⟩
    | i + 3 => cases hc
  have fixed : ∀ c, isMeta c = true ∨ c = '.' → brokenLines c = c := by
    intro c special
    refine Equiv.swap_apply_of_ne_of_ne (fun letter => ?_) (fun lineBreak => ?_)
    · rw [letter] at special
      exact absurd special (by decide)
    · rw [lineBreak] at special
      exact absurd special (by decide)
  obtain ⟨patterns, verdicts, -⟩ := ordinary_characters_alike
  exact ⟨⟨alike, patterns _ _ alike⟩, fixed, verdicts _ fixed _ _, verdicts _ fixed _ _⟩

end EpsilonMatch
