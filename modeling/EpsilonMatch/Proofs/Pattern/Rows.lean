import EpsilonMatch.Proofs.Graph.History
import EpsilonMatch.Proofs.Pattern.Pairing
import Mathlib.Logic.ExistsUnique
/-!
# EpsilonMatch.Proofs.Pattern.Rows

The silent moves of a pattern, row by row.

At each position a left-to-right pass may add to several rows: that of the position, that
of the `*` behind it and, where a group ends, those of its `(` and its `|`. So a row is
filled at up to two positions, which may be far apart, and the order of its targets is the
order of these positions.

* `movesAt` lists what the pass finds at one position, given which group ends there. The
  moves of a tree are these lists, one behind the other (`Body.edges_eq_flatMap`).
* `SilentRows` says for every kind of position what its row is, with the groups given by
  the grammar (`Paired`). The graph of a pattern has these rows and there is no other such
  graph (`SilentRows.unique`).
* `Body.length_edges` counts the moves.
-/

namespace EpsilonMatch

/-! ### One position -/

/-- Does a `*` stand at a position? -/
def starAt (p : List Char) (v : Nat) : Bool := p[v]? = some '*'

theorem starAt_eq_false {p : List Char} {v : Nat} {c : Char} (h : p[v]? = some c) (hc : c ≠ '*') :
    starAt p v = false := by
  simp [starAt, h, hc]

theorem starAt_eq_true {p : List Char} {v : Nat} (h : p[v]? = some '*') : starAt p v = true := by
  simp [starAt, h]

/-- The `*` right behind a position, if there is one. -/
def starBehind (p : List Char) (v : Nat) : List Nat := if starAt p (v + 1) then [v + 1] else []

/-- The moves of the `|` of a group: from the `(` to the second branch, and from the end of
the first one to the `)`. -/
def GroupPlace.barMoves (g : GroupPlace) : List (Nat × Nat) :=
  match g.bar? with
  | some o => [(g.left, o + 1), (o, g.right)]
  | none => []

/-- The moves that a pass finds at position `v`; `ends` gives the group that ends at a
position. -/
def movesAt (p : List Char) (ends : Nat → Option GroupPlace) (v : Nat) : List (Nat × Nat) :=
  (match ends v with
    | some g => g.barMoves ++ loop g.left (v + 1) (starAt p (v + 1))
    | none => loop v (v + 1) (starAt p (v + 1))) ++
  if p[v]? = some '(' ∨ p[v]? = some '*' ∨ p[v]? = some ')' then [(v, v + 1)] else []

section
variable {p : List Char} {ends : Nat → Option GroupPlace}

theorem movesAt_close {g : GroupPlace} (h : p[g.right]? = some ')')
    (closes : ends g.right = some g) :
    movesAt p ends g.right = g.barMoves ++ loop g.left (g.right + 1) (starAt p (g.right + 1)) ++
      [(g.right, g.right + 1)] := by
  simp [movesAt, closes, h]

/-- Groups end at a `)` only. -/
def EndsAtClose (p : List Char) (ends : Nat → Option GroupPlace) : Prop :=
  ∀ v, p[v]? ≠ some ')' → ends v = none

theorem EndsAtClose.movesAt_of_ne (h : EndsAtClose p ends) {v : Nat} {c : Char}
    (hv : p[v]? = some c) (hc : c ≠ ')') :
    movesAt p ends v = loop v (v + 1) (starAt p (v + 1)) ++
      if c = '(' ∨ c = '*' then [(v, v + 1)] else [] := by
  have none : ends v = none := h v (by simpa [hv] using hc)
  simp [movesAt, none, hv, hc]

/-! ### The moves of a tree -/

/-- A text stands in a pattern from position `i` on. -/
def StandsAt (p : List Char) : List Char → Nat → Prop
  | [], _ => True
  | c :: y, i => p[i]? = some c ∧ StandsAt p y (i + 1)

@[simp] theorem standsAt_append {x y : List Char} {i : Nat} :
    StandsAt p (x ++ y) i ↔ StandsAt p x i ∧ StandsAt p y (i + x.length) := by
  induction x generalizing i with
  | nil => simp [StandsAt]
  | cons c rest ih => simp [StandsAt, ih, and_assoc, Nat.add_assoc, Nat.add_comm 1]

theorem standsAt_length (x y : List Char) : StandsAt (x ++ y) y x.length := by
  induction y generalizing x with
  | nil => trivial
  | cons c rest ih =>
      have behind := ih (x ++ [c])
      rw [List.append_assoc, List.singleton_append, List.length_append] at behind
      exact ⟨by simp, behind⟩

theorem flatMap_range'_add {α : Type} (f : Nat → List α) (i m n : Nat) :
    (List.range' i (m + n)).flatMap f =
      (List.range' i m).flatMap f ++ (List.range' (i + m) n).flatMap f := by
  rw [← List.range'_append_1, List.flatMap_append]

/-- A tree begins with `*` if its text does, or if it is empty and a `*` stands behind it. -/
theorem Body.startsStarred_starAt {b : Body} {i : Nat} (stands : StandsAt p b.text i) :
    b.startsStarred (starAt p (i + b.size)) = starAt p i := by
  induction b with
  | leading stars =>
      cases stars with
      | zero => simp [startsStarred, size]
      | succ stars =>
          have star : p[i]? = some '*' := stands.1
          simp [startsStarred, starAt_eq_true star]
  | symbol front c plain stars ih =>
      simp only [text, standsAt_append, length_text] at stands
      obtain ⟨hfront, hc, -⟩ := stands
      have := ih hfront
      rwa [starAt_eq_false hc (plain_iff.1 plain).2.2.2] at this
  | group front inner stars ih _ =>
      simp only [text, standsAt_append, List.append_assoc, List.cons_append, length_text] at stands
      obtain ⟨hfront, hc, -⟩ := stands
      have := ih hfront
      rwa [starAt_eq_false hc (by decide)] at this
  | choice front first second stars ih _ _ =>
      simp only [text, standsAt_append, List.append_assoc, List.cons_append, length_text] at stands
      obtain ⟨hfront, hc, -⟩ := stands
      have := ih hfront
      rwa [starAt_eq_false hc (by decide)] at this

/-- The moves of a row of stars are those that the pass finds at their positions. -/
theorem EndsAtClose.starEdges_eq_flatMap (h : EndsAtClose p ends) {i stars : Nat}
    (stands : StandsAt p (Body.starRow stars) i) :
    Body.starEdges (starAt p (i + stars)) i stars =
      (List.range' i stars).flatMap (movesAt p ends) := by
  induction stars generalizing i with
  | zero => rfl
  | succ stars ih =>
      obtain ⟨star, rest⟩ := stands
      have starred : (0 < stars || starAt p (i + 1 + stars)) = starAt p (i + 1) :=
        Body.startsStarred_starAt (b := .leading stars) rest
      rw [Body.starEdges, List.range'_succ, List.flatMap_cons, ← ih rest,
        h.movesAt_of_ne star (by decide), ← starred, ← Nat.add_assoc i, Nat.add_right_comm i]
      simp

/-- The moves of a tree are those that the pass finds at the positions of its pattern. -/
theorem Body.edges_eq_flatMap (h : EndsAtClose p ends) {b : Body} {i : Nat}
    (stands : StandsAt p b.text i) (closes : ∀ g ∈ b.groups i, ends g.right = some g) :
    b.edges (starAt p (i + b.size)) i = (List.range' i b.size).flatMap (movesAt p ends) := by
  induction b generalizing i with
  | leading stars => exact h.starEdges_eq_flatMap stands
  | symbol front c plain stars ih =>
      have ordinary := plain_iff.1 plain
      simp only [text, standsAt_append, StandsAt, length_text] at stands
      obtain ⟨hfront, hc, hstars⟩ := stands
      -- what stands behind the front is no `*`, here and below
      have frontEdges := ih hfront closes
      rw [starAt_eq_false hc ordinary.2.2.2] at frontEdges
      have starred : (0 < stars || starAt p (i + front.size + 1 + stars)) = _ :=
        startsStarred_starAt (b := .leading stars) hstars
      simp only [edges, size, flatMap_range'_add, ← Nat.add_assoc, List.range'_one,
        List.flatMap_singleton]
      rw [frontEdges, starred, h.starEdges_eq_flatMap hstars, h.movesAt_of_ne hc ordinary.2.1]
      simp [ordinary.1, ordinary.2.2.2]
  | group front inner stars ihFront ihInner =>
      simp only [text, standsAt_append, StandsAt, List.append_assoc, List.cons_append,
        length_text] at stands
      obtain ⟨hfront, hleft, hinner, hright, hstars⟩ := stands
      have frontEdges := ihFront hfront fun g mem => closes g (by simp [groups, mem])
      rw [starAt_eq_false hleft (by decide)] at frontEdges
      have innerEdges := ihInner hinner fun g mem => closes g (by simp [groups, mem])
      have innerStar := startsStarred_starAt hinner
      rw [starAt_eq_false hright (by decide)] at innerEdges innerStar
      have starred : (0 < stars || starAt p (i + front.size + 1 + inner.size + 1 + stars)) = _ :=
        startsStarred_starAt (b := .leading stars) hstars
      have rightMoves := movesAt_close hright (closes ⟨i + front.size, none, _⟩ (by simp [groups]))
      simp only [edges, size, flatMap_range'_add, ← Nat.add_assoc, List.range'_one,
        List.flatMap_singleton]
      rw [frontEdges, innerEdges, innerStar, starred, h.starEdges_eq_flatMap hstars,
        h.movesAt_of_ne hleft (by decide), rightMoves]
      simp [GroupPlace.barMoves]
  | choice front first second stars ihFront ihFirst ihSecond =>
      simp only [text, standsAt_append, StandsAt, List.append_assoc, List.cons_append,
        length_text] at stands
      obtain ⟨hfront, hleft, hfirst, hbar, hsecond, hright, hstars⟩ := stands
      have frontEdges := ihFront hfront fun g mem => closes g (by simp [groups, mem])
      rw [starAt_eq_false hleft (by decide)] at frontEdges
      have firstEdges := ihFirst hfirst fun g mem => closes g (by simp [groups, mem])
      have firstStar := startsStarred_starAt hfirst
      rw [starAt_eq_false hbar (by decide)] at firstEdges firstStar
      have secondEdges := ihSecond hsecond fun g mem => closes g (by simp [groups, mem])
      have secondStar := startsStarred_starAt hsecond
      rw [starAt_eq_false hright (by decide)] at secondEdges secondStar
      have starred : (0 < stars || starAt p
          (i + front.size + 1 + first.size + 1 + second.size + 1 + stars)) = _ :=
        startsStarred_starAt (b := .leading stars) hstars
      have rightMoves := movesAt_close hright
        (closes ⟨i + front.size, some (i + front.size + 1 + first.size), _⟩ (by simp [groups]))
      simp only [edges, size, flatMap_range'_add, ← Nat.add_assoc, List.range'_one,
        List.flatMap_singleton]
      rw [frontEdges, firstEdges, firstStar, secondEdges, secondStar, starred,
        h.starEdges_eq_flatMap hstars, h.movesAt_of_ne hleft (by decide),
        h.movesAt_of_ne hbar (by decide), rightMoves]
      simp [GroupPlace.barMoves]

/-! ### Which rows a position adds to -/

theorem targetsOf_loop_here {here star : Nat} (h : here ≠ star) (starred : Bool) :
    targetsOf (loop here star starred) here = if starred then [star] else [] := by
  cases starred <;> simp [loop, targetsOf_cons, h.symm]

theorem targetsOf_loop_star {here star : Nat} (h : here ≠ star) (starred : Bool) :
    targetsOf (loop here star starred) star = if starred then [here] else [] := by
  cases starred <;> simp [loop, targetsOf_cons, h]

theorem targetsOf_loop_of_ne {here star v : Nat} (hv : v ≠ here) (hv' : v ≠ star)
    (starred : Bool) : targetsOf (loop here star starred) v = [] := by
  cases starred <;> simp [loop, targetsOf_cons, hv.symm, hv'.symm]

theorem targetsOf_barMoves_of_ne {g : GroupPlace} {v : Nat} (left : g.left ≠ v)
    (bar : g.bar? ≠ some v) : targetsOf g.barMoves v = [] := by
  unfold GroupPlace.barMoves
  split
  next o ho =>
    have other : o ≠ v := fun same => bar (same ▸ ho)
    simp [targetsOf_cons, left, other]
  next => rfl

/-- A position adds to its own row, to that of the `*` behind it, and to those of the group
that ends there. -/
theorem targetsOf_movesAt_of_ne {u v : Nat} (own : u ≠ v) (star : starAt p v = true → u + 1 ≠ v)
    (group : ∀ g, ends u = some g → g.left ≠ v ∧ g.bar? ≠ some v) :
    targetsOf (movesAt p ends u) v = [] := by
  have quiet {here : Nat} (h : here ≠ v) :
      targetsOf (loop here (u + 1) (starAt p (u + 1))) v = [] := by
    by_cases hv : v = u + 1
    · subst hv
      cases hs : starAt p (u + 1) with
      | false => rfl
      | true => exact absurd rfl (star hs)
    · exact targetsOf_loop_of_ne h.symm hv _
  have step : targetsOf (if p[u]? = some '(' ∨ p[u]? = some '*' ∨ p[u]? = some ')'
      then [(u, u + 1)] else []) v = [] := by
    split <;> simp [targetsOf_cons, own]
  rw [movesAt, targetsOf_append, step, List.append_nil]
  cases ended : ends u with
  | none => exact quiet own
  | some g =>
      obtain ⟨left, bar⟩ := group g ended
      rw [targetsOf_append, targetsOf_barMoves_of_ne left bar, quiet left]
      rfl

/-- What a position other than a `)` adds to its own row. -/
theorem EndsAtClose.targetsOf_own (h : EndsAtClose p ends) {v : Nat} {c : Char}
    (hv : p[v]? = some c) (hc : c ≠ ')') :
    targetsOf (movesAt p ends v) v =
      starBehind p v ++ if c = '(' ∨ c = '*' then [v + 1] else [] := by
  rw [h.movesAt_of_ne hv hc, targetsOf_append,
    targetsOf_loop_here (Nat.ne_of_lt (Nat.lt_succ_self v)), starBehind]
  by_cases step : c = '(' ∨ c = '*'
  · simp [step, targetsOf_cons]
  · simp [step]

/-- What a position other than a `)` adds to the row of the `*` behind it. -/
theorem EndsAtClose.targetsOf_star (h : EndsAtClose p ends) {v : Nat} {c : Char}
    (hv : p[v]? = some c) (hc : c ≠ ')') (star : p[v + 1]? = some '*') :
    targetsOf (movesAt p ends v) (v + 1) = [v] := by
  rw [h.movesAt_of_ne hv hc, targetsOf_append,
    targetsOf_loop_star (Nat.ne_of_lt (Nat.lt_succ_self v)), starAt_eq_true star]
  by_cases step : c = '(' ∨ c = '*'
  · simp [step, targetsOf_cons]
  · simp [step]

end

/-! ### Sums over the positions -/

theorem flatMap_range'_of_forall_eq_nil {α : Type} {f : Nat → List α} {i n : Nat}
    (h : ∀ u, i ≤ u → u < i + n → f u = []) : (List.range' i n).flatMap f = [] := by
  rw [List.flatMap_eq_nil_iff]
  intro u mem
  obtain ⟨low, high⟩ := List.mem_range'_1.1 mem
  exact h u low high

theorem flatMap_range'_split {α : Type} (f : Nat → List α) {i n l : Nat} (low : i ≤ l)
    (high : l < i + n) :
    (List.range' i n).flatMap f =
      (List.range' i (l - i)).flatMap f ++ f l ++
        (List.range' (l + 1) (i + n - (l + 1))).flatMap f := by
  have count : n = l - i + (1 + (i + n - (l + 1))) := by omega
  have start : i + (l - i) = l := Nat.add_sub_cancel' low
  conv_lhs => rw [count, flatMap_range'_add, flatMap_range'_add, start]
  simp

theorem flatMap_range'_single {α : Type} {f : Nat → List α} {i n l : Nat} (low : i ≤ l)
    (high : l < i + n) (only : ∀ u, i ≤ u → u ≠ l → f u = []) :
    (List.range' i n).flatMap f = f l := by
  rw [flatMap_range'_split f low high,
    flatMap_range'_of_forall_eq_nil fun u _ _ => only u (by omega) (by omega),
    flatMap_range'_of_forall_eq_nil fun u _ _ => only u (by omega) (by omega)]
  simp

theorem flatMap_range'_pair {α : Type} {f : Nat → List α} {i n l c : Nat} (low : i ≤ l)
    (lt : l < c) (high : c < i + n) (only : ∀ u, i ≤ u → u ≠ l → u ≠ c → f u = []) :
    (List.range' i n).flatMap f = f l ++ f c := by
  rw [flatMap_range'_split f low (Nat.lt_trans lt high),
    flatMap_range'_of_forall_eq_nil fun u _ _ => only u (by omega) (by omega) (by omega),
    flatMap_range'_single (l := c) lt (by omega)
      fun u _ ne => only u (by omega) (by omega) ne]
  rfl

/-! ### The rows of a pattern -/

/-- The rows of a pattern, with the order and the repetitions of their targets: one row for
each character and an empty one for the accept state. -/
structure SilentRows (p : List Char) (rows : Array (List Nat)) : Prop where
  size : rows.size = p.length + 1
  /-- A `(` leads into its group, to the second branch if there is one, and past the group if
  this is starred. -/
  left {g : GroupPlace} : Paired p g →
    rows[g.left]? = some (starBehind p g.left ++ (g.left + 1) ::
      (g.bar?.toList.map (· + 1) ++ starBehind p g.right))
  /-- A `|` leads to the end of its group. -/
  bar {g : GroupPlace} {o : Nat} : Paired p g → g.bar? = some o →
    rows[o]? = some (starBehind p o ++ [g.right])
  right {g : GroupPlace} : Paired p g → rows[g.right]? = some [g.right + 1]
  /-- A `*` leads back to what it repeats, unless the pattern begins with it. -/
  starFirst : p[0]? = some '*' → rows[0]? = some (starBehind p 0 ++ [1])
  starGroup {g : GroupPlace} : Paired p g → p[g.right + 1]? = some '*' →
    rows[g.right + 1]? = some (g.left :: (starBehind p (g.right + 1) ++ [g.right + 2]))
  starSingle {v : Nat} {c : Char} : p[v]? = some c → c ≠ ')' → p[v + 1]? = some '*' →
    rows[v + 1]? = some (v :: (starBehind p (v + 1) ++ [v + 2]))
  ordinary {v : Nat} {c : Char} : p[v]? = some c → isMeta c = false →
    rows[v]? = some (starBehind p v)
  accept : rows[p.length]? = some []

namespace Body

/-- The group that ends at a position. -/
def endsAt (b : Body) (v : Nat) : Option GroupPlace :=
  (b.groups 0).find? fun g => g.right = v

theorem eq_of_paired {b : Body} {g g' : GroupPlace} (h : Paired b.text g) (h' : Paired b.text g')
    {c : Char} {v : Nat} (holds : g.Holds c v) (holds' : g'.Holds c v) : g = g' :=
  eq_of_shared (mem_groups_of_paired h) (mem_groups_of_paired h') holds holds'

theorem paired_of_endsAt {b : Body} {g : GroupPlace} {v : Nat} (h : b.endsAt v = some g) :
    Paired b.text g ∧ g.right = v :=
  ⟨mem_groups_iff_paired.1 (List.mem_of_find?_eq_some h), by simpa using List.find?_some h⟩

theorem endsAt_right {b : Body} {g : GroupPlace} (h : Paired b.text g) :
    b.endsAt g.right = some g := by
  cases found : b.endsAt g.right with
  | none =>
      have := List.find?_eq_none.1 found g (mem_groups_of_paired h)
      simp at this
  | some g' =>
      obtain ⟨paired, right⟩ := paired_of_endsAt found
      rw [eq_of_paired paired h (.inr (.inr ⟨rfl, right⟩)) (.inr (.inr ⟨rfl, rfl⟩))]

theorem endsAtClose (b : Body) : EndsAtClose b.text b.endsAt := by
  intro v noClose
  cases found : b.endsAt v with
  | none => rfl
  | some g =>
      obtain ⟨paired, rfl⟩ := paired_of_endsAt found
      exact absurd paired.getElem?.2.1 noClose

/-- What position `u` adds to row `v`. -/
def adds (b : Body) (v u : Nat) : List Nat := targetsOf (movesAt b.text b.endsAt u) v

theorem edges_eq_movesAt (b : Body) :
    b.edges false 0 = (List.range' 0 b.size).flatMap (movesAt b.text b.endsAt) := by
  have behind : starAt b.text (0 + b.size) = false := by simp [starAt]
  have := b.edges_eq_flatMap b.endsAtClose (standsAt_length [] b.text)
    fun g mem => endsAt_right (mem_groups_iff_paired.1 mem)
  rwa [List.length_nil, behind] at this

theorem getElem?_rows_moves {b : Body} {v : Nat} (hv : v ≤ b.size) :
    b.moves.rows[v]? = some ((List.range' 0 b.size).flatMap (b.adds v)) := by
  have row : b.moves.rows[v]? = some (targetsOf (b.edges false 0) v) :=
    Graph.getElem?_rows_ofEdges (Nat.lt_succ_of_le hv)
  rw [row, edges_eq_movesAt, targetsOf_flatMap]
  rfl

/-- A position adds to its own row, to that of the `*` behind it, and to those of the group
that ends there. -/
theorem adds_eq_nil {b : Body} {u v : Nat} (own : u ≠ v)
    (star : b.text[v]? = some '*' → u + 1 ≠ v)
    (group : ∀ g, Paired b.text g → g.right = u → g.left ≠ v ∧ g.bar? ≠ some v) :
    b.adds v u = [] := by
  refine targetsOf_movesAt_of_ne own (fun h => star (by simpa [starAt] using h)) fun g ended => ?_
  obtain ⟨paired, right⟩ := paired_of_endsAt ended
  exact group g paired right

/-- To the row of any other position, no group adds. -/
theorem not_opens {b : Body} {v : Nat} (left : b.text[v]? ≠ some '(')
    (bar : b.text[v]? ≠ some '|') {g : GroupPlace} (h : Paired b.text g) :
    g.left ≠ v ∧ g.bar? ≠ some v := by
  obtain ⟨hleft, -, hbar⟩ := h.getElem?
  exact ⟨fun same => left (same ▸ hleft), fun same => bar (hbar v same)⟩

section
variable {b : Body} {g : GroupPlace}

theorem adds_own {v : Nat} {c : Char} (hv : b.text[v]? = some c) (hc : c ≠ ')') :
    b.adds v v = starBehind b.text v ++ if c = '(' ∨ c = '*' then [v + 1] else [] :=
  b.endsAtClose.targetsOf_own hv hc

theorem adds_close (h : Paired b.text g) (v : Nat) :
    b.adds v g.right =
      targetsOf g.barMoves v ++
        targetsOf (loop g.left (g.right + 1) (starAt b.text (g.right + 1))) v ++
        if g.right = v then [g.right + 1] else [] := by
  rw [adds, movesAt_close h.getElem?.2.1 (endsAt_right h), targetsOf_append, targetsOf_append,
    targetsOf_cons, targetsOf_nil, List.append_nil]

theorem paired_range (h : Paired b.text g) :
    g.left < g.right ∧ g.right < b.size ∧ ∀ o, g.bar? = some o → g.left < o ∧ o < g.right := by
  have mem := mem_groups_of_paired h
  obtain ⟨-, order, inside⟩ := groups_range mem
  exact ⟨order, by simpa using inside, fun o bar => groups_bar mem bar⟩

/-- To the row of a parenthesis or `|` only its own position adds, and the end of its group. -/
theorem adds_eq_nil_of_holds (h : Paired b.text g) {c : Char} {u v : Nat} (holds : g.Holds c v)
    (hc : c ≠ '*') (own : u ≠ v) (other : u ≠ g.right) : b.adds v u = [] := by
  have hv := h.getElem?_of_holds holds
  refine adds_eq_nil own (by simp [hv, hc]) fun g' paired ended => ?_
  have foreign {d : Char} : ¬ g'.Holds d v := by
    intro holds'
    obtain rfl : d = c := Option.some.inj ((paired.getElem?_of_holds holds').symm.trans hv)
    exact other (eq_of_paired paired h holds' holds ▸ ended.symm)
  exact ⟨fun left => foreign (GroupPlace.holds_open_iff.2 left),
    fun bar => foreign (GroupPlace.holds_bar_iff.2 bar)⟩

theorem getElem?_rows_left (h : Paired b.text g) :
    b.moves.rows[g.left]? = some (starBehind b.text g.left ++ (g.left + 1) ::
      (g.bar?.toList.map (· + 1) ++ starBehind b.text g.right)) := by
  obtain ⟨order, inside, bars⟩ := paired_range h
  obtain ⟨hleft, -, -⟩ := h.getElem?
  have only : ∀ u, 0 ≤ u → u ≠ g.left → u ≠ g.right → b.adds g.left u = [] := fun u _ =>
    adds_eq_nil_of_holds h (GroupPlace.holds_open_iff.2 rfl) (by decide)
  have opening : b.adds g.left g.left = starBehind b.text g.left ++ [g.left + 1] :=
    adds_own hleft (by decide)
  have closing : b.adds g.left g.right =
      g.bar?.toList.map (· + 1) ++ starBehind b.text g.right := by
    have barTargets : targetsOf g.barMoves g.left = g.bar?.toList.map (· + 1) := by
      unfold GroupPlace.barMoves
      split
      next o bar => simp [targetsOf_cons, bar, Nat.ne_of_gt (bars o bar).1]
      next none => simp [none]
    rw [adds_close h, barTargets, targetsOf_loop_here (by omega), if_neg (Nat.ne_of_gt order),
      starBehind, List.append_nil]
  rw [getElem?_rows_moves (by omega),
    flatMap_range'_pair (Nat.zero_le _) order (by omega) only, opening, closing]
  simp

theorem getElem?_rows_bar (h : Paired b.text g) {o : Nat} (bar : g.bar? = some o) :
    b.moves.rows[o]? = some (starBehind b.text o ++ [g.right]) := by
  obtain ⟨order, inside, bars⟩ := paired_range h
  obtain ⟨-, -, hbar⟩ := h.getElem?
  have between := bars o bar
  have only : ∀ u, 0 ≤ u → u ≠ o → u ≠ g.right → b.adds o u = [] := fun u _ =>
    adds_eq_nil_of_holds h (GroupPlace.holds_bar_iff.2 bar) (by decide)
  have own : b.adds o o = starBehind b.text o := by
    rw [adds_own (hbar o bar) (by decide)]
    simp
  have closing : b.adds o g.right = [g.right] := by
    rw [adds_close h, targetsOf_loop_of_ne (by omega) (by omega), if_neg (Nat.ne_of_gt between.2)]
    simp [GroupPlace.barMoves, bar, targetsOf_cons, Nat.ne_of_lt between.1]
  rw [getElem?_rows_moves (by omega),
    flatMap_range'_pair (Nat.zero_le _) between.2 (by omega) only, own, closing]

theorem getElem?_rows_right (h : Paired b.text g) :
    b.moves.rows[g.right]? = some [g.right + 1] := by
  obtain ⟨order, inside, bars⟩ := paired_range h
  have only : ∀ u, 0 ≤ u → u ≠ g.right → b.adds g.right u = [] := fun u _ own =>
    adds_eq_nil_of_holds h (GroupPlace.holds_close_iff.2 rfl) (by decide) own own
  have closing : b.adds g.right g.right = [g.right + 1] := by
    rw [adds_close h, targetsOf_loop_of_ne (by omega) (by omega),
      targetsOf_barMoves_of_ne (Nat.ne_of_lt order)
        fun bar => Nat.lt_irrefl _ (bars _ bar).2]
    simp
  rw [getElem?_rows_moves (by omega), flatMap_range'_single (Nat.zero_le _) (by omega) only,
    closing]

/-- The row of a `*` behind a character: what the character adds and what the `*` does. -/
theorem getElem?_rows_star {v start : Nat} (star : b.text[v + 1]? = some '*')
    (before : b.adds (v + 1) v = [start]) :
    b.moves.rows[v + 1]? = some (start :: (starBehind b.text (v + 1) ++ [v + 2])) := by
  have inside : v + 1 < b.size := by
    rw [← length_text]
    exact (List.getElem?_eq_some_iff.1 star).1
  have only : ∀ u, 0 ≤ u → u ≠ v → u ≠ v + 1 → b.adds (v + 1) u = [] := by
    intro u _ other own
    refine adds_eq_nil own (fun _ => by omega) fun g paired _ => ?_
    exact not_opens (by simp [star]) (by simp [star]) paired
  have own : b.adds (v + 1) (v + 1) = starBehind b.text (v + 1) ++ [v + 2] :=
    adds_own star (by decide)
  rw [getElem?_rows_moves (by omega),
    flatMap_range'_pair (Nat.zero_le _) (Nat.lt_succ_self v) (by omega) only, before, own]
  rfl

theorem adds_star_of_close (h : Paired b.text g) (star : b.text[g.right + 1]? = some '*') :
    b.adds (g.right + 1) g.right = [g.left] := by
  obtain ⟨order, inside, bars⟩ := paired_range h
  rw [adds_close h, targetsOf_loop_star (by omega), starAt_eq_true star,
    targetsOf_barMoves_of_ne (by omega) fun bar => by have := bars _ bar; omega]
  simp

/-- The row of a position that is neither starred from before nor part of a group. -/
theorem getElem?_rows_own {v : Nat} {c : Char} (hv : b.text[v]? = some c) (left : c ≠ '(')
    (bar : c ≠ '|') (right : c ≠ ')') (first : c = '*' → v = 0) :
    b.moves.rows[v]? = some (starBehind b.text v ++ if c = '*' then [v + 1] else []) := by
  have inside : v < b.size := by
    rw [← length_text]
    exact (List.getElem?_eq_some_iff.1 hv).1
  have only : ∀ u, 0 ≤ u → u ≠ v → b.adds v u = [] := by
    intro u _ own
    refine adds_eq_nil own (fun star => ?_) fun g paired _ => ?_
    · have := first (Option.some.inj (hv.symm.trans star))
      omega
    · exact not_opens (by simp [hv, left]) (by simp [hv, bar]) paired
  rw [getElem?_rows_moves (Nat.le_of_lt inside),
    flatMap_range'_single (Nat.zero_le _) (by omega) only, adds_own hv right]
  simp [left]

theorem getElem?_rows_accept : b.moves.rows[b.size]? = some [] := by
  rw [getElem?_rows_moves (Nat.le_refl _), flatMap_range'_of_forall_eq_nil]
  intro u _ inside
  refine adds_eq_nil (by omega) (by simp) fun g paired _ => ?_
  exact not_opens (by simp) (by simp) paired

end

theorem silentRows (b : Body) : SilentRows b.text b.moves.rows where
  size := by simp [moves, SealedGraph.ofEdges]
  left := getElem?_rows_left
  bar h bar := getElem?_rows_bar h bar
  right := getElem?_rows_right
  starFirst star := getElem?_rows_own star (by decide) (by decide) (by decide) fun _ => rfl
  starGroup h star := getElem?_rows_star star (adds_star_of_close h star)
  starSingle hv close star := getElem?_rows_star star (b.endsAtClose.targetsOf_star hv close star)
  ordinary hv plain := by
    have := plain_iff.1 plain
    simpa [this.2.2.2] using getElem?_rows_own hv this.1 this.2.2.1 this.2.1
      fun star => absurd star this.2.2.2
  accept := by simpa using getElem?_rows_accept

end Body

/-! ### How many moves there are -/

/-- The moves at each character, were each `*` to repeat something. -/
def moveCount (p : List Char) : Nat :=
  p.count '(' + p.count ')' + 3 * p.count '*' + 2 * p.count '|'

theorem moveCount_append (x y : List Char) :
    moveCount (x ++ y) = moveCount x + moveCount y := by
  simp only [moveCount, List.count_append]
  omega

theorem moveCount_open (y : List Char) : moveCount ('(' :: y) = 1 + moveCount y :=
  moveCount_append ['('] y

theorem moveCount_close (y : List Char) : moveCount (')' :: y) = 1 + moveCount y :=
  moveCount_append [')'] y

theorem moveCount_bar (y : List Char) : moveCount ('|' :: y) = 2 + moveCount y :=
  moveCount_append ['|'] y

theorem moveCount_plain {c : Char} (plain : isMeta c = false) (y : List Char) :
    moveCount (c :: y) = moveCount y := by
  simp [moveCount, plain_iff.1 plain]

theorem moveCount_starRow (stars : Nat) : moveCount (Body.starRow stars) = 3 * stars := by
  simp [moveCount, Body.starRow, List.count_replicate]

namespace Body

@[simp] theorem length_loop (here star : Nat) (starred : Bool) :
    (loop here star starred).length = 2 * starred.toNat := by
  cases starred <;> rfl

theorem length_starEdges (followed : Bool) (i stars : Nat) :
    (starEdges followed i stars).length + 2 * (0 < stars || followed).toNat =
      3 * stars + 2 * followed.toNat := by
  induction stars generalizing i with
  | zero => simp [starEdges]
  | succ stars ih =>
      have := ih (i + 1)
      simp only [starEdges, List.length_append, List.length_cons, length_loop, Nat.succ_pos,
        decide_true, Bool.true_or, Bool.toNat_true]
      omega

/-- Only the `*` that a pattern begins with repeats nothing. -/
theorem length_edges (b : Body) (followed : Bool) (i : Nat) :
    (b.edges followed i).length + 2 * (b.startsStarred followed).toNat =
      moveCount b.text + 2 * followed.toNat := by
  induction b generalizing followed i with
  | leading stars =>
      rw [text, moveCount_starRow]
      exact length_starEdges followed i stars
  | symbol front c plain stars ih =>
      have frontCount := ih false i
      have starCount := length_starEdges followed (i + front.size + 1) stars
      rw [Bool.toNat_false] at frontCount
      simp only [edges, text, startsStarred, List.length_append, length_loop, moveCount_append,
        moveCount_plain plain, moveCount_starRow]
      omega
  | group front inner stars ihFront ihInner =>
      have frontCount := ihFront false i
      have innerCount := ihInner false (i + front.size + 1)
      have starCount := length_starEdges followed (i + front.size + 1 + inner.size + 1) stars
      rw [Bool.toNat_false] at frontCount innerCount
      simp only [edges, text, startsStarred, List.length_append, List.length_cons, length_loop,
        moveCount_append, moveCount_open, moveCount_close, moveCount_starRow]
      omega
  | choice front first second stars ihFront ihFirst ihSecond =>
      have frontCount := ihFront false i
      have firstCount := ihFirst false (i + front.size + 1)
      have secondCount := ihSecond false (i + front.size + 1 + first.size + 1)
      have starCount := length_starEdges followed
        (i + front.size + 1 + first.size + 1 + second.size + 1) stars
      rw [Bool.toNat_false] at frontCount firstCount secondCount
      simp only [edges, text, startsStarred, List.length_append, List.length_cons, List.length_nil,
        length_loop, moveCount_append, moveCount_open, moveCount_bar, moveCount_close,
        moveCount_starRow]
      omega

end Body

theorem Graph.edgeCount_ofEdges {n : Nat} {edges : List (Nat × Nat)}
    (range : ∀ e ∈ edges, e.1 < n ∧ e.2 < n) : (ofEdges n edges).edgeCount = edges.length := by
  induction edges using List.reverseRecOn with
  | nil => simp [← edgeless_eq_ofEdges, edgeless, edgeCount]
  | append_singleton edges e ih =>
      obtain ⟨v, w⟩ := e
      obtain ⟨hv, hw⟩ := range (v, w) (by simp)
      have connected : connect v w (ofEdges n edges) = .ok () (ofEdges n (edges ++ [(v, w)])) :=
        connect_ofEdges hv hw
      obtain ⟨-, -, -, next⟩ := connect_eq_ok_iff.1 connected
      rw [← next, edgeCount, Array.toList_modify, Int.toNat_natCast, Int.toNat_natCast,
        length_flatten_modify w (by simpa using hv), List.length_append, List.length_singleton,
        ← ih fun e mem => range e (by simp [mem])]
      rfl

/-! ### The graph of a pattern -/

/-- The rows are determined, if every operator but `*` belongs to a group. -/
theorem SilentRows.unique {p : List Char}
    (covered : ∀ v c, p[v]? = some c → isMeta c = true → c ≠ '*' → ∃ g, Paired p g ∧ g.Holds c v)
    {rows rows' : Array (List Nat)} (h : SilentRows p rows) (h' : SilentRows p rows') :
    rows = rows' := by
  refine Array.ext_getElem? fun v => ?_
  rcases Nat.lt_trichotomy v p.length with inside | rfl | outside
  · obtain ⟨c, hv⟩ : ∃ c, p[v]? = some c := ⟨_, List.getElem?_eq_getElem inside⟩
    rcases char_cases c with plain | rfl | rfl | rfl | rfl
    · rw [h.ordinary hv plain, h'.ordinary hv plain]
    · cases v with
      | zero => rw [h.starFirst hv, h'.starFirst hv]
      | succ v =>
          have before : p[v]? = some p[v] := List.getElem?_eq_getElem (Nat.lt_of_succ_lt inside)
          by_cases close : p[v] = ')'
          · rw [close] at before
            obtain ⟨g, paired, holds⟩ := covered v ')' before rfl (by decide)
            obtain rfl := GroupPlace.holds_close_iff.1 holds
            rw [h.starGroup paired hv, h'.starGroup paired hv]
          · rw [h.starSingle before close hv, h'.starSingle before close hv]
    · obtain ⟨g, paired, holds⟩ := covered v '(' hv rfl (by decide)
      obtain rfl := GroupPlace.holds_open_iff.1 holds
      rw [h.left paired, h'.left paired]
    · obtain ⟨g, paired, holds⟩ := covered v '|' hv rfl (by decide)
      have bar := GroupPlace.holds_bar_iff.1 holds
      rw [h.bar paired bar, h'.bar paired bar]
    · obtain ⟨g, paired, holds⟩ := covered v ')' hv rfl (by decide)
      obtain rfl := GroupPlace.holds_close_iff.1 holds
      rw [h.right paired, h'.right paired]
  · rw [h.accept, h'.accept]
  · rw [Array.getElem?_eq_none (by rw [h.size]; exact outside),
      Array.getElem?_eq_none (by rw [h'.size]; exact outside)]

namespace Body

theorem exists_paired {b : Body} {v : Nat} {c : Char} (hv : b.text[v]? = some c)
    (operator : isMeta c = true) (hc : c ≠ '*') : ∃ g, Paired b.text g ∧ g.Holds c v := by
  obtain ⟨g, mem, holds⟩ := exists_group (i := 0) operator hc hv (Nat.zero_add v).symm
  exact ⟨g, mem_groups_iff_paired.1 mem, holds⟩

theorem edgeCount_moves (b : Body) :
    b.moves.toGraph.edgeCount + 2 * (starAt b.text 0).toNat = moveCount b.text := by
  have range : ∀ e ∈ b.edges false 0, e.1 < b.size + 1 ∧ e.2 < b.size + 1 := by
    intro e mem
    have := edges_range (v := e.1) (w := e.2) mem
    omega
  have first : b.startsStarred (starAt b.text (0 + b.size)) = starAt b.text 0 :=
    startsStarred_starAt (standsAt_length [] b.text)
  have behind : starAt b.text (0 + b.size) = false := by simp [starAt]
  rw [behind] at first
  have count := b.length_edges false 0
  rw [moves, SealedGraph.toGraph_ofEdges, Graph.edgeCount_ofEdges range, ← first]
  simpa using count

end Body

/-- **The rows of a compiled pattern.** The graph has the rows that `SilentRows` lists, with
the order and the repetitions of their targets, and no other rows fit that list: the pairs of
the grammar are the groups of the tree, and every `(`, `|` and `)` belongs to exactly one. -/
theorem compile_rows {p : List Char} {a : Automaton} (compiled : compile p = .ok a) :
    (∀ rows, SilentRows p rows ↔ rows = a.moves.rows) ∧
    (∃ b : Body, b.text = p ∧ ∀ g, Paired p g ↔ g ∈ b.groups 0) ∧
    (∀ (v : Nat) (c : Char), isMeta c = true → c ≠ '*' →
      (p[v]? = some c ↔ ∃! g, Paired p g ∧ g.Holds c v)) ∧
    a.moves.toGraph.edgeCount =
      p.count '(' + p.count ')' + p.count '*' + 2 * p.count '|' + 2 * p.tail.count '*' := by
  obtain ⟨b, rfl, rfl⟩ := exists_text_of_compile compiled
  refine ⟨fun rows => ⟨fun h => ?_, fun same => ?_⟩,
    ⟨b, rfl, fun g => Body.mem_groups_iff_paired.symm⟩,
    fun v c operator hc => ⟨fun hv => ?_, fun unique => ?_⟩, ?_⟩
  · exact h.unique (fun v c => Body.exists_paired) b.silentRows
  · exact same ▸ b.silentRows
  · obtain ⟨g, paired, holds⟩ := Body.exists_paired hv operator hc
    exact ⟨g, ⟨paired, holds⟩, fun g' h => Body.eq_of_paired h.1 paired h.2 holds⟩
  · obtain ⟨g, ⟨paired, holds⟩, -⟩ := unique
    exact paired.getElem?_of_holds holds
  · have count := b.edgeCount_moves
    have first : b.text.count '*' = b.text.tail.count '*' + (starAt b.text 0).toNat := by
      cases b.text with
      | nil => rfl
      | cons c rest => by_cases star : c = '*' <;> simp [starAt, star]
    rw [moveCount] at count
    show b.moves.toGraph.edgeCount = _
    omega

/-- The tree of `*(u|*(w)*)*`. -/
def starredBranches : Body :=
  .choice (.leading 1) (.symbol (.leading 0) 'u' rfl 0)
    (.group (.leading 1) (.symbol (.leading 0) 'w' rfl 0) 1) 1

theorem starredBranches_rows :
    compile starredBranches.text = .ok starredBranches.automaton ∧
    SilentRows starredBranches.text
      #[[1], [2, 4, 10], [], [4, 9], [3, 5], [6, 8], [], [8], [5, 9], [10], [1, 11], []] ∧
    (∃! g, Paired starredBranches.text g ∧ g.Holds ')' 9) ∧
    starredBranches.moves.toGraph.edgeCount = 16 := by
  have compiled := compile_text starredBranches
  obtain ⟨rows, -, pairs, count⟩ := compile_rows compiled
  exact ⟨compiled, (rows _).2 (by decide), (pairs 9 ')' rfl (by decide)).1 (by decide),
    count.trans (by decide)⟩

end EpsilonMatch
