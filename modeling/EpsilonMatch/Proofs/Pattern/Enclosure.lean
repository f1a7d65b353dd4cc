import EpsilonMatch.Proofs.Pattern.Alternation
/-!
# EpsilonMatch.Proofs.Pattern.Enclosure

Which fragments may stand between a `(` and a `)` of their own.

The `(` in front of a fragment and the `)` behind it belong together if the fragment
is a pattern, or two patterns with a `|` between them (`Enclosable`). They need not: in
`(a)(b)` they belong to two groups, although the fragment `a)(b` between them is no
pattern. `compiles_enclosed_iff` says for which fragments the whole is a pattern, and
`Body.mem_groups_enclosed_iff` for which of these the two parentheses are a pair.

The pairs are read off the tree (`Body.groups`). The proof looks at the first and the
last unit of the tree: both are groups, and they are the same one exactly if the
fragment is enclosed.
-/

namespace EpsilonMatch

/-! ### Pairs of parentheses -/

/-- The positions of the `(`, the `|` if there is one, and the `)` of a group. -/
structure GroupPlace where
  left : Nat
  bar? : Option Nat
  right : Nat
  deriving DecidableEq

namespace Body

/-- The places of all groups of a tree whose pattern begins at position `i`. -/
def groups : Body → Nat → List GroupPlace
  | leading _, _ => []
  | symbol front _ _ _, i => front.groups i
  | group front inner _, i =>
    let left := i + front.size
    let right := left + 1 + inner.size
    front.groups i ++ ⟨left, none, right⟩ :: inner.groups (left + 1)
  | choice front first second _, i =>
    let left := i + front.size
    let bar := left + 1 + first.size
    let right := bar + 1 + second.size
    front.groups i ++
      ⟨left, some bar, right⟩ :: (first.groups (left + 1) ++ second.groups (bar + 1))

/-- The groups of a tree lie inside its pattern. -/
theorem groups_range {b : Body} {i : Nat} {place : GroupPlace} (h : place ∈ b.groups i) :
    i ≤ place.left ∧ place.left < place.right ∧ place.right < i + b.size := by
  induction b generalizing i with
  | leading stars => exact absurd h List.not_mem_nil
  | symbol front c plain stars ih =>
      have := ih h
      simp only [size]
      omega
  | group front inner stars ihFront ihInner =>
      simp only [groups, List.mem_append, List.mem_cons] at h
      simp only [size]
      rcases h with h | rfl | h
      · have := ihFront h
        omega
      · simp only
        omega
      · have := ihInner h
        omega
  | choice front first second stars ihFront ihFirst ihSecond =>
      simp only [groups, List.mem_append, List.mem_cons] at h
      simp only [size]
      rcases h with h | rfl | h | h
      · have := ihFront h
        omega
      · simp only
        omega
      · have := ihFirst h
        omega
      · have := ihSecond h
        omega

end Body

/-! ### What a group may hold -/

/-- A pattern, or two patterns with a `|` between them. -/
def Enclosable (p : List Char) : Prop :=
  Compiles p ∨ ∃ l r, p = l ++ '|' :: r ∧ Compiles l ∧ Compiles r

theorem enclosable_text (b : Body) : Enclosable b.text :=
  .inl (compiles_iff.2 b.wellFormed_text)

theorem enclosable_branches (b c : Body) : Enclosable (b.text ++ '|' :: c.text) :=
  .inr ⟨_, _, rfl, compiles_iff.2 b.wellFormed_text, compiles_iff.2 c.wellFormed_text⟩

/-- What may stand in a group makes one. -/
theorem Enclosable.exists_tree {p : List Char} (h : Enclosable p) :
    ∃ b : Body, b.text = '(' :: p ++ [')'] ∧
      ∃ place ∈ b.groups 0, place.left = 0 ∧ place.right = p.length + 1 := by
  rcases h with h | ⟨l, r, rfl, hl, hr⟩
  · obtain ⟨b, rfl⟩ := wellFormed_iff_exists_text.1 (compiles_iff.1 h)
    refine ⟨b.bracketed, b.text_bracketed, ⟨0, none, b.size + 1⟩, ?_, rfl, by simp⟩
    simp [Body.bracketed, Body.groups, Body.size, Nat.add_comm]
  · obtain ⟨b, rfl⟩ := wellFormed_iff_exists_text.1 (compiles_iff.1 hl)
    obtain ⟨c, rfl⟩ := wellFormed_iff_exists_text.1 (compiles_iff.1 hr)
    refine ⟨b.alternation c, by simp [Body.text_alternation],
      ⟨0, some (b.size + 1), b.size + 1 + 1 + c.size⟩, ?_, rfl, by simp; omega⟩
    simp [Body.alternation, Body.groups, Body.size, Nat.add_comm]

theorem Enclosable.wellFormed {p : List Char} (h : Enclosable p) :
    WellFormed ('(' :: p ++ [')']) := by
  obtain ⟨b, text, -⟩ := h.exists_tree
  exact text ▸ b.wellFormed_text

/-! ### The last unit -/

/-- A pattern that ends in `)` has no stars behind the character that its last unit
ends in, and that character is a `)`. -/
theorem last_of_text {x y : List Char} {c : Char} {stars : Nat}
    (h : y ++ c :: Body.starRow stars = x ++ [')']) : stars = 0 ∧ c = ')' ∧ y = x := by
  cases stars with
  | zero =>
      obtain ⟨same, last⟩ := List.append_inj' h rfl
      exact ⟨rfl, by simpa [Body.starRow] using last, same⟩
  | succ stars =>
      have row : Body.starRow (stars + 1) = Body.starRow stars ++ ['*'] := Body.starRow_add stars 1
      rw [row, ← List.cons_append, ← List.append_assoc] at h
      have last := (List.append_inj' h rfl).2
      simp at last

/-- The last unit of a pattern that ends in `)` is a group, and its `(` is the one that
belongs to this `)`. -/
theorem Body.last_group {b : Body} {x : List Char} (h : b.text = x ++ [')']) :
    ∃ (front : Body) (y : List Char), x = front.text ++ '(' :: y ∧ Enclosable y ∧
      ∀ place ∈ b.groups 0, place.right = x.length → place.left = front.size := by
  cases b with
  | leading stars =>
      have mem : ')' ∈ starRow stars := by
        rw [text] at h
        simp [h]
      exact absurd (List.eq_of_mem_replicate mem) (by decide)
  | symbol front c plain stars =>
      obtain ⟨-, rfl, -⟩ := last_of_text h
      exact absurd plain (by decide)
  | group front inner stars =>
      obtain ⟨rfl, -, rfl⟩ := last_of_text h
      refine ⟨front, inner.text, rfl, enclosable_text inner, fun place mem right => ?_⟩
      simp only [groups, List.mem_append, List.mem_cons] at mem
      simp only [List.length_append, List.length_cons, length_text] at right
      rcases mem with mem | rfl | mem
      · have := groups_range mem
        omega
      · exact Nat.zero_add _
      · have := groups_range mem
        omega
  | choice front first second stars =>
      obtain ⟨rfl, -, rfl⟩ := last_of_text h
      refine ⟨front, first.text ++ '|' :: second.text, by simp, enclosable_branches first second,
        fun place mem right => ?_⟩
      simp only [groups, List.mem_append, List.mem_cons] at mem
      simp only [List.length_append, List.length_cons, length_text] at right
      rcases mem with mem | rfl | mem | mem
      · have := groups_range mem
        omega
      · exact Nat.zero_add _
      · have := groups_range mem
        omega
      · have := groups_range mem
        omega

/-! ### The first unit -/

/-- A `(` at the start begins a group, with a pattern behind it. -/
def OpensGroup (p : List Char) : Prop :=
  ∀ rest, p = '(' :: rest → ∃ x m, rest = x ++ ')' :: m ∧ Enclosable x ∧ Compiles m

theorem OpensGroup.append {p u : List Char} (hp : OpensGroup p) (hu : OpensGroup u)
    (wellFormed : WellFormed u) : OpensGroup (p ++ u) := by
  intro rest h
  cases p with
  | nil => exact hu rest h
  | cons d f =>
      obtain ⟨rfl, rfl⟩ := List.cons.inj h
      obtain ⟨x, m, rfl, hx, hm⟩ := hp f rfl
      exact ⟨x, m ++ u, by simp, hx, compiles_iff.2 (.append (compiles_iff.1 hm) wellFormed)⟩

theorem opensGroup_of_ne {c : Char} (hc : c ≠ '(') (rest : List Char) :
    OpensGroup (c :: rest) := by
  intro rest' h
  exact absurd (List.cons.inj h).1 hc

theorem Enclosable.opensGroup {x : List Char} (hx : Enclosable x) (stars : Nat) :
    OpensGroup ('(' :: x ++ ')' :: Body.starRow stars) := by
  intro rest h
  exact ⟨x, _, (List.cons.inj h).2.symm, hx, compiles_iff.2 (.starRow stars)⟩

theorem Enclosable.wellFormed_stars {x : List Char} (hx : Enclosable x) (stars : Nat) :
    WellFormed ('(' :: x ++ ')' :: Body.starRow stars) := by
  have := WellFormed.append hx.wellFormed (.starRow stars)
  simpa using this

theorem Body.opensGroup (b : Body) : OpensGroup b.text := by
  induction b with
  | leading stars =>
      cases stars with
      | zero =>
          intro rest h
          cases h
      | succ stars => exact opensGroup_of_ne (by decide) _
  | symbol front c plain stars ih =>
      exact ih.append (opensGroup_of_ne (plain_iff.1 plain).1 _)
        (.append (.ordinary plain) (.starRow stars))
  | group front inner stars ih _ =>
      have holds := enclosable_text inner
      rw [text, List.append_assoc]
      exact ih.append (holds.opensGroup stars) (holds.wellFormed_stars stars)
  | choice front first second stars ih _ _ =>
      have holds := enclosable_branches first second
      have units : (choice front first second stars).text =
          front.text ++ ('(' :: (first.text ++ '|' :: second.text) ++ ')' :: starRow stars) := by
        simp [text]
      rw [units]
      exact ih.append (holds.opensGroup stars) (holds.wellFormed_stars stars)

/-! ### Fragments -/

/-- The parentheses around the fragment belong to two groups: the fragment closes the
first and opens the second. -/
def Straddles (p : List Char) : Prop :=
  ∃ x m y, p = x ++ ')' :: m ++ '(' :: y ∧ Enclosable x ∧ Compiles m ∧ Enclosable y

/-- A fragment in parentheses is a pattern exactly if it is enclosed by them or makes
two groups of them. -/
theorem compiles_enclosed_iff {p : List Char} :
    Compiles ('(' :: p ++ [')']) ↔ Enclosable p ∨ Straddles p := by
  rw [compiles_iff]
  constructor
  · intro wellFormed
    obtain ⟨b, text⟩ := wellFormed_iff_exists_text.1 wellFormed
    obtain ⟨front, y, whole, hy, -⟩ := Body.last_group text
    cases start : front.text with
    | nil =>
        rw [start] at whole
        exact .inl ((List.cons.inj whole).2 ▸ hy)
    | cons d f =>
        rw [start, List.cons_append] at whole
        obtain ⟨rfl, rfl⟩ := List.cons.inj whole
        obtain ⟨x, m, rfl, hx, hm⟩ := front.opensGroup f start
        exact .inr ⟨x, m, y, rfl, hx, hm, hy⟩
  · intro h
    rcases h with h | ⟨x, m, y, rfl, hx, hm, hy⟩
    · exact h.wellFormed
    · have := WellFormed.append (.append hx.wellFormed (compiles_iff.1 hm)) hy.wellFormed
      simpa using this

/-- From the start of a pattern, what may stand in a group is read to its end, and a
`)` behind it is refused. -/
theorem Enclosable.exists_readAll {p : List Char} (h : Enclosable p) :
    ∃ d, Draft.empty.readAll p = .ok d ∧ ∃ e, d.close = .error e := by
  rcases h with h | ⟨l, r, rfl, hl, hr⟩
  · obtain ⟨b, rfl⟩ := wellFormed_iff_exists_text.1 (compiles_iff.1 h)
    exact ⟨_, Draft.readAll_text [] b, _, rfl⟩
  · obtain ⟨b, rfl⟩ := wellFormed_iff_exists_text.1 (compiles_iff.1 hl)
    obtain ⟨c, rfl⟩ := wellFormed_iff_exists_text.1 (compiles_iff.1 hr)
    refine ⟨⟨[(b, .bar)], c⟩, ?_, _, rfl⟩
    have first : Draft.empty.readAll b.text = .ok ⟨[], b⟩ := Draft.readAll_text [] b
    rw [Draft.readAll_append_of_readAll first, Draft.readAll_cons_of_read (Draft.read_bar _)]
    exact Draft.readAll_text _ c

theorem Straddles.not_enclosable {p : List Char} (h : Straddles p) : ¬ Enclosable p := by
  intro enclosable
  obtain ⟨x, m, y, rfl, hx, -, -⟩ := h
  obtain ⟨d, readFirst, e, refused⟩ := hx.exists_readAll
  obtain ⟨whole, readWhole, -⟩ := enclosable.exists_readAll
  rw [List.append_assoc, Draft.readAll_append_of_readAll readFirst, List.cons_append,
    Draft.readAll_cons, Draft.read_close, refused] at readWhole
  cases readWhole

/-- The parentheses around a fragment are a pair exactly if the fragment is a pattern,
or two with a `|` between them. -/
theorem Body.mem_groups_enclosed_iff {b : Body} {p : List Char}
    (text : b.text = '(' :: p ++ [')']) :
    (∃ place ∈ b.groups 0, place.left = 0 ∧ place.right = p.length + 1) ↔ Enclosable p := by
  constructor
  · intro paired
    obtain ⟨place, mem, left, right⟩ := paired
    obtain ⟨front, y, whole, hy, only⟩ := Body.last_group text
    have none : front.size = 0 := by rw [← only place mem right, left]
    have start : front.text = [] := List.length_eq_zero_iff.1 (by rw [length_text, none])
    rw [start] at whole
    exact (List.cons.inj whole).2 ▸ hy
  · intro enclosable
    obtain ⟨b', text', paired⟩ := enclosable.exists_tree
    rwa [Body.text_injective (text.trans text'.symm)]

end EpsilonMatch
