import EpsilonMatch.Proofs.Pattern.Meaning
/-!
# EpsilonMatch.Proofs.Pattern.Alternation

What a group of two branches has to do with groups of one branch each.

As a rule `(p|q)` accepts a text exactly if `(p)` or `(q)` does. The exception is
a second branch that begins with `*`. The `*` is tied to the `|` in front of it
like to a symbol, and from the `|` a walk may leave the group. So it may pass from
the end of the first branch into the second, and from the start of the second out
of the group: `(p|q)` then also accepts the texts that join an optional text of
the first branch and an optional text of the second
(`accepts_alternation_iff`).
-/

namespace EpsilonMatch

open scoped Computability

namespace Body

/-! ### Brackets -/

/-- The tree of `(p)`. -/
def bracketed (b : Body) : Body := .group (.leading 0) b 0

/-- The tree of `(p|q)`. -/
def alternation (b c : Body) : Body := .choice (.leading 0) b c 0

theorem text_bracketed (b : Body) : b.bracketed.text = '(' :: b.text ++ [')'] := by
  simp [bracketed, text, starRow]

theorem text_alternation (b c : Body) :
    (b.alternation c).text = '(' :: b.text ++ '|' :: c.text ++ [')'] := by
  simp [alternation, text, starRow]

theorem language_bracketed (b : Body) : b.bracketed.language = b.language := by
  rw [bracketed, language, language, one_mul]
  rfl

theorem language_alternation (b c : Body) :
    (b.alternation c).language = branches b.language c.language c.leadingStars := by
  rw [alternation, language, language, one_mul]
  rfl

/-- A pattern begins with as many `*` as its tree says. -/
theorem leadingStars_pos_iff {b : Body} : 0 < b.leadingStars ↔ b.text.head? = some '*' := by
  have behind (front : Body) (c : Char) (rest : List Char) (hc : c ≠ '*')
      (ih : 0 < front.leadingStars ↔ front.text.head? = some '*') :
      0 < front.leadingStars ↔ (front.text ++ c :: rest).head? = some '*' := by
    cases h : front.text with
    | nil => simpa [h, hc] using ih
    | cons d text => simpa [h] using ih
  induction b with
  | leading stars => cases stars <;> simp [leadingStars, text, starRow, List.replicate_succ]
  | symbol front c plain stars ih => exact behind front c _ (plain_iff.1 plain).2.2.2 ih
  | group front inner stars ih _ =>
      simp only [text, List.cons_append, List.append_assoc]
      exact behind front '(' _ (by decide) ih
  | choice front first second stars ih _ _ =>
      simp only [text, List.cons_append, List.append_assoc]
      exact behind front '(' _ (by decide) ih

end Body

/-! ### Branches -/

theorem mem_add_one_iff {L : Language Char} {x : List Char} : x ∈ L + 1 ↔ x = [] ∨ x ∈ L := by
  rw [Language.mem_add, Language.mem_one, or_comm]

/-- A group of two branches stands for the texts of both, and if the second
begins with `*`, for an optional text of one and an optional text of the other. -/
theorem mem_branches_iff {L M : Language Char} {stars : Nat} {x : List Char} :
    x ∈ branches L M stars ↔ x ∈ L ∨ x ∈ M ∨
      0 < stars ∧ ∃ y z, y ++ z = x ∧ (y = [] ∨ y ∈ L) ∧ (z = [] ∨ z ∈ M) := by
  rw [branches]
  split
  next none =>
    rw [Language.mem_add]
    simp [none]
  next some =>
    simp only [Language.mem_mul, mem_add_one_iff, Nat.pos_of_ne_zero some, true_and]
    constructor
    · rintro ⟨y, hy, z, hz, rfl⟩
      exact .inr (.inr ⟨y, z, rfl, hy, hz⟩)
    · rintro (h | h | ⟨y, z, rfl, hy, hz⟩)
      · exact ⟨x, .inr h, [], .inl rfl, List.append_nil x⟩
      · exact ⟨[], .inl rfl, x, .inr h, rfl⟩
      · exact ⟨y, hy, z, hz, rfl⟩

theorem Body.accepts_automaton_iff {b : Body} {x : List Char}
    (plain : ∀ c ∈ x, isMeta c = false) :
    b.automaton.accepts x = .ok true ↔ x ∈ b.language :=
  (Automaton.accepts_eq_true_iff b.fits_automaton plain).trans (recognizes_automaton_iff plain)

/-- The text is one that the left automaton accepts, or nothing, and behind it
one that the right automaton accepts, or nothing. -/
def Joined (left right : Automaton) (x : List Char) : Prop :=
  ∃ y z, y ++ z = x ∧ (y = [] ∨ left.accepts y = .ok true) ∧ (z = [] ∨ right.accepts z = .ok true)

theorem joined_bracketed_iff {b c : Body} {x : List Char} (plain : ∀ d ∈ x, isMeta d = false) :
    Joined b.bracketed.automaton c.bracketed.automaton x ↔
      ∃ y z, y ++ z = x ∧ (y = [] ∨ y ∈ b.language) ∧ (z = [] ∨ z ∈ c.language) := by
  have split (y z : List Char) (h : y ++ z = x) :
      ((y = [] ∨ b.bracketed.automaton.accepts y = .ok true) ∧
        (z = [] ∨ c.bracketed.automaton.accepts z = .ok true)) ↔
      (y = [] ∨ y ∈ b.language) ∧ (z = [] ∨ z ∈ c.language) := by
    have left : ∀ d ∈ y, isMeta d = false :=
      fun d hd => plain d (h ▸ List.mem_append_left z hd)
    have right : ∀ d ∈ z, isMeta d = false :=
      fun d hd => plain d (h ▸ List.mem_append_right y hd)
    rw [Body.accepts_automaton_iff left, Body.accepts_automaton_iff right]
    rw [Body.language_bracketed, Body.language_bracketed]
  refine exists_congr fun y => exists_congr fun z => ?_
  exact and_congr_right (split y z)

/-- **Alternation is union, but for a `*` behind the `|`.** If two patterns are
compiled, so is the group of both. Its verdict on a text is that one of the two
groups accepts it, or that the second pattern begins with `*` and the text joins
one that the first group accepts, or nothing, and one that the second does, or
nothing. The law fails exactly for the texts that are accepted for this last
reason alone. -/
theorem accepts_alternation_iff {p q : List Char} {a b : Automaton} (hp : compile p = .ok a)
    (hq : compile q = .ok b) :
    ∃ both left right, compile ('(' :: p ++ '|' :: q ++ [')']) = .ok both ∧
      compile ('(' :: p ++ [')']) = .ok left ∧ compile ('(' :: q ++ [')']) = .ok right ∧
      ∀ x : List Char, (∀ c ∈ x, isMeta c = false) → ∃ v v₁ v₂, both.accepts x = .ok v ∧
        left.accepts x = .ok v₁ ∧ right.accepts x = .ok v₂ ∧
        (v = true ↔ v₁ = true ∨ v₂ = true ∨ q.head? = some '*' ∧ Joined left right x) ∧
        (v ≠ (v₁ || v₂) ↔
          q.head? = some '*' ∧ Joined left right x ∧ v₁ = false ∧ v₂ = false) := by
  obtain ⟨b, rfl, -⟩ := exists_text_of_compile hp
  obtain ⟨c, rfl, -⟩ := exists_text_of_compile hq
  refine ⟨(b.alternation c).automaton, b.bracketed.automaton, c.bracketed.automaton, ?_, ?_, ?_, ?_⟩
  · rw [← Body.text_alternation, compile_text]
  · rw [← Body.text_bracketed, compile_text]
  · rw [← Body.text_bracketed, compile_text]
  · intro x plain
    obtain ⟨v, accepted, meaning⟩ := (b.alternation c).exists_accepts_automaton plain
    obtain ⟨v₁, accepted₁, meaning₁⟩ := b.bracketed.exists_accepts_automaton plain
    obtain ⟨v₂, accepted₂, meaning₂⟩ := c.bracketed.exists_accepts_automaton plain
    rw [Body.language_bracketed] at meaning₁ meaning₂
    have verdict : v = true ↔ v₁ = true ∨ v₂ = true ∨ c.text.head? = some '*' ∧
        Joined b.bracketed.automaton c.bracketed.automaton x := by
      rw [meaning, meaning₁, meaning₂, Body.language_alternation, mem_branches_iff,
        Body.leadingStars_pos_iff, joined_bracketed_iff plain]
    refine ⟨v, v₁, v₂, accepted, accepted₁, accepted₂, verdict, ?_⟩
    cases v₁ with
    | true => simp [verdict]
    | false =>
        cases v₂ with
        | true => simp [verdict]
        | false => simp [verdict]

/-- The tree of `a`. -/
def plainBranch : Body := .symbol (.leading 0) 'a' rfl 0

/-- The tree of `*b`. -/
def danglingBranch : Body := .symbol (.leading 1) 'b' rfl 0

/-- The branches `a` and `*b`, and the text `ab`. -/
theorem danglingBranch_accepts_iff :
    (compile ['a'] = .ok plainBranch.automaton ∧
      compile ['*', 'b'] = .ok danglingBranch.automaton ∧
      ∀ c ∈ ['a', 'b'], isMeta c = false) ∧
    ∃ both left right, compile ['(', 'a', '|', '*', 'b', ')'] = .ok both ∧
      compile ['(', 'a', ')'] = .ok left ∧ compile ['(', '*', 'b', ')'] = .ok right ∧
      ∃ v v₁ v₂, both.accepts ['a', 'b'] = .ok v ∧ left.accepts ['a', 'b'] = .ok v₁ ∧
        right.accepts ['a', 'b'] = .ok v₂ ∧
        (v = true ↔ v₁ = true ∨ v₂ = true ∨
          ['*', 'b'].head? = some '*' ∧ Joined left right ['a', 'b']) ∧
        (v ≠ (v₁ || v₂) ↔ ['*', 'b'].head? = some '*' ∧ Joined left right ['a', 'b'] ∧
          v₁ = false ∧ v₂ = false) := by
  have hp : compile ['a'] = .ok plainBranch.automaton := compile_text plainBranch
  have hq : compile ['*', 'b'] = .ok danglingBranch.automaton := compile_text danglingBranch
  have plain : ∀ c ∈ ['a', 'b'], isMeta c = false := by simp [isMeta]
  obtain ⟨both, left, right, h, h₁, h₂, verdicts⟩ := accepts_alternation_iff hp hq
  exact ⟨⟨hp, hq, plain⟩, both, left, right, h, h₁, h₂, verdicts _ plain⟩

/-- Alternation is not union: `(a|*b)` accepts `ab`, and neither `(a)` nor `(*b)`
does. -/
theorem not_alternation_is_union :
    ¬ ∀ (p q : List Char) (a b : Automaton), compile p = .ok a → compile q = .ok b →
      ∃ both left right, compile ('(' :: p ++ '|' :: q ++ [')']) = .ok both ∧
        compile ('(' :: p ++ [')']) = .ok left ∧ compile ('(' :: q ++ [')']) = .ok right ∧
        ∀ x : List Char, (∀ c ∈ x, isMeta c = false) →
          (both.accepts x = .ok true ↔ left.accepts x = .ok true ∨ right.accepts x = .ok true) := by
  intro union
  obtain ⟨both, left, right, h, h₁, h₂, law⟩ := union ['a'] ['*', 'b'] _ _
    (compile_text plainBranch) (compile_text danglingBranch)
  obtain rfl := Except.ok.inj ((compile_text (plainBranch.alternation danglingBranch)).symm.trans h)
  obtain rfl := Except.ok.inj ((compile_text plainBranch.bracketed).symm.trans h₁)
  obtain rfl := Except.ok.inj ((compile_text danglingBranch.bracketed).symm.trans h₂)
  have accepted : (plainBranch.alternation danglingBranch).automaton.accepts ['a', 'b'] =
      .ok true := by decide +kernel
  have refused₁ : plainBranch.bracketed.automaton.accepts ['a', 'b'] = .ok false := by
    decide +kernel
  have refused₂ : danglingBranch.bracketed.automaton.accepts ['a', 'b'] = .ok false := by
    decide +kernel
  have := (law ['a', 'b'] (by simp [isMeta])).1 accepted
  rw [refused₁, refused₂] at this
  simp at this

end EpsilonMatch
