import EpsilonMatch.Proofs.Graph.EdgeList
import EpsilonMatch.Proofs.Pattern.Draft
/-!
# EpsilonMatch.Proofs.Pattern.Edges

The silent moves of a pattern, read off its tree.

`Body.edges` lists the moves in the order in which a left-to-right pass finds
them. A pass looks one character ahead, so the moves between a unit and the `*`
behind it come with the unit, before the `*` is read; the flag `followed` says
whether a `*` stands behind the tree that is not part of it. The moves between an
operator and the `*` that leads the tree behind it come with the operator, for
the same reason (`Body.startsStarred`).

The moves of a draft (`Draft.edges`) are those of its trees and of the operators
between them. The tree of a whole pattern gives the graph `Body.moves`.
-/

namespace EpsilonMatch

/-- The two moves between `here` and the `*` at `star` that repeats what starts
`here`; none if there is no `*`. -/
def loop (here star : Nat) (starred : Bool) : List (Nat × Nat) :=
  if starred then [(here, star), (star, here)] else []

@[simp] theorem mem_loop {here star v w : Nat} {starred : Bool} :
    (v, w) ∈ loop here star starred ↔
      starred = true ∧ (v = here ∧ w = star ∨ v = star ∧ w = here) := by
  cases starred <;> simp [loop]

namespace Body

/-! ### The moves of a tree -/

/-- Does a pattern begin with `*`, given whether one stands behind it? -/
def startsStarred : Body → Bool → Bool
  | leading stars, followed => 0 < stars || followed
  | symbol front _ _ _, _ | group front _ _, _ | choice front _ _ _, _ =>
    front.startsStarred false

theorem startsStarred_false_iff {b : Body} : b.startsStarred false = true ↔ 0 < b.leadingStars := by
  induction b with
  | leading stars => simp [startsStarred, leadingStars]
  | symbol front c plain stars ih => simpa [startsStarred, leadingStars] using ih
  | group front inner stars ih _ => simpa [startsStarred, leadingStars] using ih
  | choice front left right stars ih _ _ => simpa [startsStarred, leadingStars] using ih

/-- The moves of `stars` times `*` from position `i` on. -/
def starEdges (followed : Bool) : Nat → Nat → List (Nat × Nat)
  | _, 0 => []
  | i, stars + 1 =>
    loop i (i + 1) (0 < stars || followed) ++ (i, i + 1) :: starEdges followed (i + 1) stars

/-- The moves of a tree whose pattern begins at position `i`. -/
def edges : Body → Bool → Nat → List (Nat × Nat)
  | leading stars, followed, i => starEdges followed i stars
  | symbol front _ _ stars, followed, i =>
    let here := i + front.size
    front.edges false i ++ loop here (here + 1) (0 < stars || followed) ++
      starEdges followed (here + 1) stars
  | group front inner stars, followed, i =>
    let left := i + front.size
    let right := left + 1 + inner.size
    front.edges false i ++ loop left (left + 1) (inner.startsStarred false) ++
      (left, left + 1) :: inner.edges false (left + 1) ++
      loop left (right + 1) (0 < stars || followed) ++
      (right, right + 1) :: starEdges followed (right + 1) stars
  | choice front first second stars, followed, i =>
    let left := i + front.size
    let bar := left + 1 + first.size
    let right := bar + 1 + second.size
    front.edges false i ++ loop left (left + 1) (first.startsStarred false) ++
      (left, left + 1) :: first.edges false (left + 1) ++
      loop bar (bar + 1) (second.startsStarred false) ++ second.edges false (bar + 1) ++
      [(left, bar + 1), (bar, right)] ++
      loop left (right + 1) (0 < stars || followed) ++
      (right, right + 1) :: starEdges followed (right + 1) stars

/-! ### One more star

Reading a `*` prolongs the last row of stars of a tree. The moves up to then are
those of the tree with a `*` behind it. -/

theorem starEdges_succ (followed : Bool) (i stars : Nat) :
    starEdges followed i (stars + 1) =
      starEdges true i stars ++ loop (i + stars) (i + stars + 1) followed ++
        [(i + stars, i + stars + 1)] := by
  induction stars generalizing i with
  | zero => simp [starEdges]
  | succ stars ih =>
      rw [starEdges, ih]
      simp [starEdges, Nat.add_assoc, Nat.add_comm 1]

theorem startsStarred_addStars (b : Body) (followed : Bool) :
    (b.addStars 1).startsStarred followed = b.startsStarred true := by
  cases b <;> simp [addStars, startsStarred]

theorem edges_addStars (b : Body) (followed : Bool) (i : Nat) :
    (b.addStars 1).edges followed i =
      b.edges true i ++ loop (i + b.size) (i + b.size + 1) followed ++
        [(i + b.size, i + b.size + 1)] := by
  cases b <;> simp [addStars, edges, starEdges_succ, size, Nat.add_assoc]

/-! ### Range -/

theorem starEdges_range {i stars v w : Nat} (h : (v, w) ∈ starEdges false i stars) :
    i ≤ v ∧ v < i + stars ∧ i ≤ w ∧ w ≤ i + stars := by
  induction stars generalizing i with
  | zero => simp [starEdges] at h
  | succ stars ih =>
      simp only [starEdges, List.mem_append, List.mem_cons, mem_loop, Prod.mk.injEq,
        Bool.or_false, decide_eq_true_eq] at h
      rcases h with h | h | h
      · omega
      · omega
      · have := ih h
        omega

/-- The moves of a tree start inside its pattern, and end inside it or right
behind it. -/
theorem edges_range {b : Body} {i v w : Nat} (h : (v, w) ∈ b.edges false i) :
    i ≤ v ∧ v < i + b.size ∧ i ≤ w ∧ w ≤ i + b.size := by
  induction b generalizing i with
  | leading stars => exact starEdges_range h
  | symbol front c plain stars ih =>
      simp only [edges, List.mem_append, mem_loop, Bool.or_false, decide_eq_true_eq] at h
      simp only [size]
      rcases h with (h | h) | h
      · have := ih h
        omega
      · omega
      · have := starEdges_range h
        omega
  | group front inner stars ihFront ihInner =>
      simp only [edges, List.mem_append, List.mem_cons, mem_loop, Prod.mk.injEq, Bool.or_false,
        decide_eq_true_eq] at h
      simp only [size]
      rcases h with (((h | h) | h | h) | h) | h | h
      · have := ihFront h
        omega
      · omega
      · omega
      · have := ihInner h
        omega
      · omega
      · omega
      · have := starEdges_range h
        omega
  | choice front left right stars ihFront ihLeft ihRight =>
      simp only [edges, List.mem_append, List.mem_cons, List.not_mem_nil, or_false, mem_loop,
        Prod.mk.injEq, Bool.or_false, decide_eq_true_eq] at h
      simp only [size]
      rcases h with ((((((h | h) | h | h) | h) | h) | h) | h) | h | h
      · have := ihFront h
        omega
      · omega
      · omega
      · have := ihLeft h
        omega
      · omega
      · have := ihRight h
        omega
      · omega
      · omega
      · omega
      · have := starEdges_range h
        omega

/-- The silent moves of a whole pattern, one vertex per character and one for
the accept state. -/
def moves (b : Body) : SealedGraph :=
  .ofEdges (b.size + 1) (b.edges false 0) fun (v, w) edge => by
    have := edges_range edge
    omega

end Body

/-! ### The moves of a draft -/

/-- The moves of an operator at position `i`; `starred` says whether a `*`
stands behind it. -/
def Opener.edges (op : Opener) (i : Nat) (starred : Bool) : List (Nat × Nat) :=
  loop i (i + 1) starred ++
    match op with
    | group => [(i, i + 1)]
    | bar => []

namespace Draft

/-- The moves up to the latest waiting operator. -/
def waitingEdges : List (Body × Opener) → Bool → List (Nat × Nat)
  | [], _ => []
  | (front, op) :: outer, starred =>
    waitingEdges outer (front.startsStarred false) ++ front.edges false (waitingSize outer) ++
      op.edges (waitingSize outer + front.size) starred

/-- The moves of a pattern that has been read in part; `followed` says whether
the next character is a `*`. -/
def edges (d : Draft) (followed : Bool) : List (Nat × Nat) :=
  waitingEdges d.waiting (d.current.startsStarred followed) ++
    d.current.edges followed (waitingSize d.waiting)

@[simp] theorem edges_empty (followed : Bool) : empty.edges followed = [] := rfl

end Draft

end EpsilonMatch
