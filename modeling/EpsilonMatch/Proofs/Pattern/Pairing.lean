import EpsilonMatch.Proofs.Pattern.Enclosure
import Mathlib.Data.List.Pairwise
/-!
# EpsilonMatch.Proofs.Pattern.Pairing

Which parentheses belong together, said by the grammar alone.

A `(` and a `)` are paired if a pattern stands between them, or two patterns with a `|`
between them (`Paired`). In a well-formed pattern these are exactly the groups of its tree
(`Body.mem_groups_iff_paired`), although nothing is said about the rest of the pattern: what
was read in front of the `(` waits while the group is read, and a group that has been read
stays a group (`Draft.groups_readAll`).

Every parenthesis and every `|` belongs to a group (`Body.exists_group`), and to one only
(`Body.eq_of_shared`).
-/

namespace EpsilonMatch

/-- The places of a `(` and a `)` that belong together, and of the `|` between them. -/
inductive Paired (p : List Char) : GroupPlace → Prop
  /-- A pattern stands between them. -/
  | group {x y z : List Char} (whole : p = x ++ '(' :: y ++ ')' :: z) (inner : WellFormed y) :
    Paired p ⟨x.length, none, x.length + 1 + y.length⟩
  /-- Two patterns with a `|` stand between them. -/
  | choice {x l r z : List Char} (whole : p = x ++ '(' :: l ++ '|' :: r ++ ')' :: z)
    (left : WellFormed l) (right : WellFormed r) :
    Paired p ⟨x.length, some (x.length + 1 + l.length), x.length + 1 + l.length + 1 + r.length⟩

/-! ### Groups are paired -/

theorem Body.paired_of_mem_groups {b : Body} {i : Nat} {place : GroupPlace}
    (mem : place ∈ b.groups i) {p x z : List Char} (whole : p = x ++ (b.text ++ z))
    (hx : x.length = i) : Paired p place := by
  induction b generalizing i x z with
  | leading stars => exact absurd mem List.not_mem_nil
  | symbol front c plain stars ih =>
      exact ih mem (by rw [whole, text, List.append_assoc]) hx
  | group front inner stars ihFront ihInner =>
      have start : (x ++ front.text).length = i + front.size := by simp [hx]
      simp only [groups, List.mem_append, List.mem_cons] at mem
      rcases mem with mem | rfl | mem
      · exact ihFront (z := '(' :: (inner.text ++ ')' :: (starRow stars ++ z))) mem
          (by simp [whole, text]) hx
      · have paired : Paired p _ := .group (x := x ++ front.text) (y := inner.text)
          (z := starRow stars ++ z) (by simp [whole, text]) inner.wellFormed_text
        rwa [start, length_text] at paired
      · refine ihInner (x := x ++ front.text ++ ['(']) (z := ')' :: (starRow stars ++ z)) mem ?_ ?_
        · simp [whole, text]
        · rw [List.length_append, start, List.length_singleton]
  | choice front first second stars ihFront ihFirst ihSecond =>
      have start : (x ++ front.text).length = i + front.size := by simp [hx]
      simp only [groups, List.mem_append, List.mem_cons] at mem
      rcases mem with mem | rfl | mem | mem
      · exact ihFront
          (z := '(' :: (first.text ++ '|' :: (second.text ++ ')' :: (starRow stars ++ z)))) mem
          (by simp [whole, text]) hx
      · have paired : Paired p _ := .choice (x := x ++ front.text) (l := first.text)
          (r := second.text) (z := starRow stars ++ z) (by simp [whole, text])
          first.wellFormed_text second.wellFormed_text
        rwa [start, length_text, length_text] at paired
      · refine ihFirst (x := x ++ front.text ++ ['('])
          (z := '|' :: (second.text ++ ')' :: (starRow stars ++ z))) mem ?_ ?_
        · simp [whole, text]
        · rw [List.length_append, start, List.length_singleton]
      · refine ihSecond (x := x ++ front.text ++ ['('] ++ first.text ++ ['|'])
          (z := ')' :: (starRow stars ++ z)) mem ?_ ?_
        · simp [whole, text]
        · simp [hx]
          omega

/-! ### What is paired is a group -/

@[simp] theorem Body.groups_addStars (b : Body) (n i : Nat) :
    (b.addStars n).groups i = b.groups i := by
  cases b <;> rfl

namespace Draft

/-- The groups up to the latest waiting operator. -/
def waitingGroups : List (Body × Opener) → List GroupPlace
  | [] => []
  | (front, _) :: outer => waitingGroups outer ++ front.groups (waitingSize outer)

/-- The groups that have been read. -/
def groups (d : Draft) : List GroupPlace :=
  waitingGroups d.waiting ++ d.current.groups (waitingSize d.waiting)

theorem groups_close {d d' : Draft} (h : d.close = .ok d') : d.groups ⊆ d'.groups := by
  obtain ⟨waiting, current⟩ := d
  intro place mem
  match waiting with
  | [] => cases h
  | (front, .group) :: outer =>
      obtain rfl := Except.ok.inj h
      simp only [groups, waitingGroups, waitingSize, Body.groups, List.mem_append,
        List.mem_cons] at mem ⊢
      tauto
  | [(_, .bar)] => cases h
  | (left, .bar) :: (front, .group) :: outer =>
      obtain rfl := Except.ok.inj h
      simp only [groups, waitingGroups, waitingSize, Body.groups, List.mem_append,
        List.mem_cons] at mem ⊢
      tauto
  | (_, .bar) :: (_, .bar) :: _ => cases h

/-- A group that has been read stays a group. -/
theorem groups_read {d d' : Draft} {c : Char} (h : d.read c = .ok d') : d.groups ⊆ d'.groups := by
  rcases char_cases c with plain | rfl | rfl | rfl | rfl
  · rw [read_plain d plain] at h
    obtain rfl := Except.ok.inj h
    exact List.Subset.refl _
  · obtain rfl := Except.ok.inj h
    simp [groups]
  · obtain rfl := Except.ok.inj h
    simp [groups, waitingGroups, Body.groups]
  · obtain rfl := Except.ok.inj h
    simp [groups, waitingGroups, Body.groups]
  · exact groups_close h

theorem groups_readAll {d d' : Draft} {x : List Char} (h : d.readAll x = .ok d') :
    d.groups ⊆ d'.groups := by
  induction x generalizing d with
  | nil =>
      obtain rfl : d = d' := by simpa using h
      exact List.Subset.refl _
  | cons c rest ih =>
      rw [readAll_cons] at h
      cases hc : d.read c with
      | error e => simp [hc, Except.bind] at h
      | ok next =>
          rw [hc] at h
          exact List.Subset.trans (groups_read hc) (ih h)

theorem exists_readAll_of_append {d d' : Draft} {x y : List Char}
    (h : d.readAll (x ++ y) = .ok d') :
    ∃ m, d.readAll x = .ok m ∧ m.readAll y = .ok d' := by
  cases read : d.readAll x with
  | ok m => exact ⟨m, rfl, by rwa [readAll_append_of_readAll read] at h⟩
  | error e =>
      rw [readAll, List.foldlM_append] at h
      replace h : (d.readAll x).bind (·.readAll y) = .ok d' := h
      rw [read] at h
      cases h

end Draft

/-- In a pattern, what is paired is a group of its tree. -/
theorem Body.mem_groups_of_paired {b : Body} {place : GroupPlace} (h : Paired b.text place) :
    place ∈ b.groups 0 := by
  have read : Draft.empty.readAll b.text = .ok ⟨[], b⟩ := Draft.readAll_text [] b
  have kept {d : Draft} {z : List Char} (rest : d.readAll z = .ok ⟨[], b⟩)
      (mem : place ∈ d.groups) : place ∈ b.groups 0 := Draft.groups_readAll rest mem
  cases h with
  | @group x y z whole inner =>
      obtain ⟨t, rfl⟩ := wellFormed_iff_exists_text.1 inner
      rw [whole, List.append_assoc] at read
      obtain ⟨⟨waiting, front⟩, before, rest⟩ := Draft.exists_readAll_of_append read
      have size : Draft.waitingSize waiting + front.size = x.length := by
        have text : x = Draft.text ⟨waiting, front⟩ := (Draft.text_readAll before).symm
        rw [text, Draft.length_text, Draft.size]
      have closed : Draft.read ⟨(front, .group) :: waiting, t⟩ ')' =
          .ok ⟨waiting, .group front t 0⟩ := rfl
      rw [List.cons_append, Draft.readAll_cons_of_read (Draft.read_open _),
        Draft.readAll_append_of_readAll (Draft.readAll_text _ t),
        Draft.readAll_cons_of_read closed] at rest
      refine kept rest ?_
      simp [Draft.groups, groups, size]
  | @choice x l r z whole left right =>
      obtain ⟨t, rfl⟩ := wellFormed_iff_exists_text.1 left
      obtain ⟨u, rfl⟩ := wellFormed_iff_exists_text.1 right
      simp only [List.append_assoc, List.cons_append] at whole
      rw [whole] at read
      obtain ⟨⟨waiting, front⟩, before, rest⟩ := Draft.exists_readAll_of_append read
      have size : Draft.waitingSize waiting + front.size = x.length := by
        have text : x = Draft.text ⟨waiting, front⟩ := (Draft.text_readAll before).symm
        rw [text, Draft.length_text, Draft.size]
      have closed : Draft.read ⟨(t, .bar) :: (front, .group) :: waiting, u⟩ ')' =
          .ok ⟨waiting, .choice front t u 0⟩ := rfl
      rw [Draft.readAll_cons_of_read (Draft.read_open _),
        Draft.readAll_append_of_readAll (Draft.readAll_text _ t),
        Draft.readAll_cons_of_read (Draft.read_bar _),
        Draft.readAll_append_of_readAll (Draft.readAll_text _ u),
        Draft.readAll_cons_of_read closed] at rest
      refine kept rest ?_
      simp [Draft.groups, groups, size]

/-- The groups of a tree are what the grammar pairs in its pattern. -/
theorem Body.mem_groups_iff_paired {b : Body} {place : GroupPlace} :
    place ∈ b.groups 0 ↔ Paired b.text place := by
  constructor
  · intro mem
    exact paired_of_mem_groups mem (x := []) (z := []) (by simp) rfl
  · exact mem_groups_of_paired

/-! ### The characters of a group -/

/-- A `(` stands at the left end of a pair, a `)` at its right end, and a `|` between. -/
theorem Paired.getElem? {p : List Char} {place : GroupPlace} (h : Paired p place) :
    p[place.left]? = some '(' ∧ p[place.right]? = some ')' ∧
      ∀ o, place.bar? = some o → p[o]? = some '|' := by
  cases h with
  | @group x y z whole inner =>
      refine ⟨by simp [whole], ?_, by simp⟩
      have split : p = (x ++ '(' :: y) ++ ')' :: z := by simp [whole]
      have size : x.length + 1 + y.length = (x ++ '(' :: y).length := by simp; omega
      simp only [size, split]
      simp
  | @choice x l r z whole left right =>
      refine ⟨by simp [whole], ?_, fun o ho => ?_⟩
      · have split : p = (x ++ '(' :: l ++ '|' :: r) ++ ')' :: z := by simp [whole]
        have size : x.length + 1 + l.length + 1 + r.length =
            (x ++ '(' :: l ++ '|' :: r).length := by simp; omega
        simp only [size, split]
        simp
      · obtain rfl := Option.some.inj ho
        have split : p = (x ++ '(' :: l) ++ '|' :: (r ++ ')' :: z) := by simp [whole]
        have size : x.length + 1 + l.length = (x ++ '(' :: l).length := by simp; omega
        simp only [size, split]
        simp

/-- The character at a position of `x`, the one behind `x`, or one of the rest. -/
theorem getElem?_append_cons_iff {x z : List Char} {c d : Char} {k : Nat} :
    (x ++ c :: z)[k]? = some d ↔
      (k < x.length ∧ x[k]? = some d) ∨ (k = x.length ∧ c = d) ∨
        ∃ j, k = x.length + 1 + j ∧ z[j]? = some d := by
  rw [List.getElem?_append]
  split
  next hk =>
    constructor
    · intro h
      exact .inl ⟨hk, h⟩
    · intro h
      rcases h with ⟨-, h⟩ | ⟨rfl, -⟩ | ⟨j, rfl, -⟩
      · exact h
      · omega
      · omega
  next hk =>
    obtain ⟨j, rfl⟩ := Nat.exists_eq_add_of_le (Nat.le_of_not_lt hk)
    cases j with
    | zero =>
        simp
        omega
    | succ j =>
        have past : x.length + (j + 1) - x.length = j + 1 := by omega
        rw [past, List.getElem?_cons_succ]
        constructor
        · intro h
          exact .inr (.inr ⟨j, by omega, h⟩)
        · intro h
          rcases h with ⟨hlt, -⟩ | ⟨heq, -⟩ | ⟨j', hj, h⟩
          · omega
          · omega
          · obtain rfl : j = j' := by omega
            exact h

theorem eq_star_of_getElem? {n k : Nat} {c : Char} (h : (Body.starRow n)[k]? = some c) :
    c = '*' :=
  List.eq_of_mem_replicate (List.mem_of_getElem? h)

/-- The character of a group stands at a position. -/
def GroupPlace.Holds (place : GroupPlace) (c : Char) (v : Nat) : Prop :=
  (c = '(' ∧ place.left = v) ∨ (c = '|' ∧ place.bar? = some v) ∨ (c = ')' ∧ place.right = v)

@[simp] theorem GroupPlace.holds_open_iff {place : GroupPlace} {v : Nat} :
    place.Holds '(' v ↔ place.left = v := by
  simp [Holds]

@[simp] theorem GroupPlace.holds_bar_iff {place : GroupPlace} {v : Nat} :
    place.Holds '|' v ↔ place.bar? = some v := by
  simp [Holds]

@[simp] theorem GroupPlace.holds_close_iff {place : GroupPlace} {v : Nat} :
    place.Holds ')' v ↔ place.right = v := by
  simp [Holds]

theorem Paired.getElem?_of_holds {p : List Char} {place : GroupPlace} (h : Paired p place)
    {c : Char} {v : Nat} (holds : place.Holds c v) : p[v]? = some c := by
  obtain ⟨left, right, bar⟩ := h.getElem?
  rcases holds with ⟨rfl, rfl⟩ | ⟨rfl, same⟩ | ⟨rfl, rfl⟩
  · exact left
  · exact bar v same
  · exact right

/-- Every parenthesis and every `|` of a pattern belongs to a group. -/
theorem Body.exists_group {b : Body} {c : Char} (operator : isMeta c = true) (hstar : c ≠ '*')
    {i k v : Nat} (h : b.text[k]? = some c) (hv : v = i + k) :
    ∃ place ∈ b.groups i, place.Holds c v := by
  induction b generalizing i k with
  | leading stars => exact absurd (eq_star_of_getElem? h) hstar
  | symbol front d plain stars ih =>
      rw [text, getElem?_append_cons_iff] at h
      rcases h with ⟨-, h⟩ | ⟨-, rfl⟩ | ⟨j, -, h⟩
      · exact ih h hv
      · simp [plain] at operator
      · exact absurd (eq_star_of_getElem? h) hstar
  | group front inner stars ihFront ihInner =>
      simp only [text, List.append_assoc, List.cons_append, getElem?_append_cons_iff,
        length_text] at h
      simp only [groups, List.mem_append, List.mem_cons, or_and_right, exists_or, exists_eq_left]
      rcases h with ⟨-, h⟩ | ⟨rfl, rfl⟩ | ⟨j, rfl, ⟨-, h⟩ | ⟨rfl, rfl⟩ | ⟨j, -, h⟩⟩
      · exact .inl (ihFront h hv)
      · exact .inr (.inl (.inl ⟨rfl, hv.symm⟩))
      · exact .inr (.inr (ihInner h (by omega)))
      · refine .inr (.inl (.inr (.inr ⟨rfl, ?_⟩)))
        simp only
        omega
      · exact absurd (eq_star_of_getElem? h) hstar
  | choice front first second stars ihFront ihFirst ihSecond =>
      simp only [text, List.append_assoc, List.cons_append, getElem?_append_cons_iff,
        length_text] at h
      simp only [groups, List.mem_append, List.mem_cons, or_and_right, exists_or, exists_eq_left]
      rcases h with ⟨-, h⟩ | ⟨rfl, rfl⟩ | ⟨j, rfl, ⟨-, h⟩ | ⟨rfl, rfl⟩ |
        ⟨j, rfl, ⟨-, h⟩ | ⟨rfl, rfl⟩ | ⟨j, -, h⟩⟩⟩
      · exact .inl (ihFront h hv)
      · exact .inr (.inl (.inl ⟨rfl, hv.symm⟩))
      · exact .inr (.inr (.inl (ihFirst h (by omega))))
      · refine .inr (.inl (.inr (.inl ⟨rfl, ?_⟩)))
        simp only [Option.some.injEq]
        omega
      · exact .inr (.inr (.inr (ihSecond h (by omega))))
      · refine .inr (.inl (.inr (.inr ⟨rfl, ?_⟩)))
        simp only
        omega
      · exact absurd (eq_star_of_getElem? h) hstar

/-! ### Groups have nothing in common -/

namespace Body

/-- The `|` of a group stands between its parentheses. -/
theorem groups_bar {b : Body} {i o : Nat} {place : GroupPlace} (mem : place ∈ b.groups i)
    (bar : place.bar? = some o) : place.left < o ∧ o < place.right := by
  induction b generalizing i with
  | leading stars => exact absurd mem List.not_mem_nil
  | symbol front c plain stars ih => exact ih mem
  | group front inner stars ihFront ihInner =>
      simp only [groups, List.mem_append, List.mem_cons] at mem
      rcases mem with mem | rfl | mem
      · exact ihFront mem
      · cases bar
      · exact ihInner mem
  | choice front first second stars ihFront ihFirst ihSecond =>
      simp only [groups, List.mem_append, List.mem_cons] at mem
      rcases mem with mem | rfl | mem | mem
      · exact ihFront mem
      · obtain rfl := Option.some.inj bar
        simp only
        omega
      · exact ihFirst mem
      · exact ihSecond mem

end Body

/-- Two groups have no parenthesis and no `|` in common. -/
structure GroupPlace.Apart (g g' : GroupPlace) : Prop where
  left : g.left ≠ g'.left
  right : g.right ≠ g'.right
  bar : ∀ o, g.bar? = some o → g'.bar? ≠ some o

instance : Std.Symm GroupPlace.Apart where
  symm _ _ h := ⟨h.left.symm, h.right.symm, fun o ho ho' => h.bar o ho' ho⟩

namespace Body

/-- Groups of trees that follow each other are apart. -/
theorem apart_of_groups {b c : Body} {i j : Nat} (behind : i + b.size ≤ j) {g g' : GroupPlace}
    (mem : g ∈ b.groups i) (mem' : g' ∈ c.groups j) : g.Apart g' := by
  have range := groups_range mem
  have range' := groups_range mem'
  refine ⟨by omega, by omega, fun o bar bar' => ?_⟩
  have := groups_bar mem bar
  have := groups_bar mem' bar'
  omega

/-- A group is apart from those of a tree inside it, if its `|` is outside the tree. -/
theorem apart_of_inside {c : Body} {j : Nat} {g g' : GroupPlace} (mem : g' ∈ c.groups j)
    (left : g.left < j) (right : j + c.size ≤ g.right)
    (bar : ∀ o, g.bar? = some o → o < j ∨ j + c.size ≤ o) : g.Apart g' := by
  have range := groups_range mem
  refine ⟨by omega, by omega, fun o ho ho' => ?_⟩
  have := groups_bar mem ho'
  have := bar o ho
  omega

theorem apart_of_front {front : Body} {i : Nat} {g g' : GroupPlace} (mem : g ∈ front.groups i)
    (left : g'.left = i + front.size) (right : g'.left < g'.right)
    (bar : ∀ o, g'.bar? = some o → g'.left < o) : g.Apart g' := by
  have range := groups_range mem
  refine ⟨by omega, by omega, fun o ho ho' => ?_⟩
  have := groups_bar mem ho
  have := bar o ho'
  omega

theorem pairwise_apart (b : Body) (i : Nat) : (b.groups i).Pairwise GroupPlace.Apart := by
  induction b generalizing i with
  | leading stars => exact .nil
  | symbol front c plain stars ih => exact ih i
  | group front inner stars ihFront ihInner =>
      rw [groups, List.pairwise_append, List.pairwise_cons]
      refine ⟨ihFront i, ⟨fun g mem => ?_, ihInner _⟩, fun g mem g' mem' => ?_⟩
      · exact apart_of_inside mem (by simp) (by simp) (by simp)
      · rcases List.mem_cons.1 mem' with rfl | mem'
        · exact apart_of_front mem rfl (by simp only; omega) (by simp)
        · exact apart_of_groups (by omega) mem mem'
  | choice front first second stars ihFront ihFirst ihSecond =>
      rw [groups, List.pairwise_append, List.pairwise_cons, List.pairwise_append]
      refine ⟨ihFront i, ⟨fun g mem => ?_, ihFirst _, ihSecond _, fun g mem g' mem' => ?_⟩,
        fun g mem g' mem' => ?_⟩
      · rcases List.mem_append.1 mem with mem | mem
        · exact apart_of_inside mem (by simp) (by simp only; omega) (by simp)
        · exact apart_of_inside mem (by simp only; omega) (by simp) (by simp)
      · exact apart_of_groups (by omega) mem mem'
      · rcases List.mem_cons.1 mem' with rfl | mem'
        · exact apart_of_front mem rfl (by simp only; omega) (by simp; omega)
        · rcases List.mem_append.1 mem' with mem' | mem'
          · exact apart_of_groups (by omega) mem mem'
          · exact apart_of_groups (by omega) mem mem'

/-- A parenthesis or `|` belongs to one group only. -/
theorem eq_of_shared {b : Body} {i : Nat} {g g' : GroupPlace} (mem : g ∈ b.groups i)
    (mem' : g' ∈ b.groups i) {c : Char} {v : Nat} (holds : g.Holds c v) (holds' : g'.Holds c v) :
    g = g' := by
  by_contra ne
  have apart : g.Apart g' := (b.pairwise_apart i).forall mem mem' ne
  rcases holds with ⟨rfl, h⟩ | ⟨rfl, h⟩ | ⟨rfl, h⟩
  · rcases holds' with ⟨-, h'⟩ | ⟨hc, -⟩ | ⟨hc, -⟩
    · exact apart.left (h.trans h'.symm)
    · exact absurd hc (by decide)
    · exact absurd hc (by decide)
  · rcases holds' with ⟨hc, -⟩ | ⟨-, h'⟩ | ⟨hc, -⟩
    · exact absurd hc (by decide)
    · exact apart.bar v h h'
    · exact absurd hc (by decide)
  · rcases holds' with ⟨hc, -⟩ | ⟨hc, -⟩ | ⟨-, h'⟩
    · exact absurd hc (by decide)
    · exact absurd hc (by decide)
    · exact apart.right (h.trans h'.symm)

end Body

end EpsilonMatch
