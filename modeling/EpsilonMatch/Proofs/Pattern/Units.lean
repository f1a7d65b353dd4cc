import EpsilonMatch.Pattern.Language
import EpsilonMatch.Proofs.Automaton.Part
import EpsilonMatch.Proofs.Pattern.Edges
/-!
# EpsilonMatch.Proofs.Pattern.Units

The texts that lead through the units of a pattern.

A unit is a symbol or a group, and the `*` behind it repeat it. For each way of
building a unit there is a part of an automaton, made of the moves that
`EpsilonMatch.Proofs.Pattern.Edges` lists, and a theorem that computes its texts
from those of the parts inside: `texts_stars`, `texts_reading`, `texts_repeated`,
`texts_grouped` and `texts_branched`. `Spans` is what they have in common, and what
the induction over a tree needs of its units.

The moves of a `*` run in both directions. Between a unit and its `*` that is
what repeats the unit. Behind a `(` they lead back to the `(`, which changes
nothing, for a walk can only come that way before it has read anything
(`Part.Quiet`). Behind a `|` they lead from the end of the first branch into the
second, and from the start of the second to the end of the first
(`behindFirst`, `fromSecond`).

Proof shape: a walk through the part is put together from walks through the parts
inside; for the converse, `RepeatAhead` and `BranchAhead` say what may still be
read in each state, with one lemma for each kind of move.
-/

namespace EpsilonMatch.Part

open scoped Computability
open Body (starEdges)

variable {p q : Part} {i j s t z : Nat} {x : List Char}

/-- The silent moves of a list of edges. -/
def ofEdges (edges : List (Nat × Nat)) : Part := fun s l t => l = none ∧ (s, t) ∈ edges

@[simp] theorem ofEdges_silent {edges : List (Nat × Nat)} :
    ofEdges edges s none t ↔ (s, t) ∈ edges := by
  simp [ofEdges]

@[simp] theorem ofEdges_read {edges : List (Nat × Nat)} {d : Char} :
    ¬ ofEdges edges s (some d) t := by
  simp [ofEdges]

/-- A part from `i` to `j` whose texts are `L`, and where nothing has been read
before state `z`. -/
structure Spans (p : Part) (i z j : Nat) (L : Language Char) : Prop where
  start : i ≤ z
  stop : z ≤ j
  within : p.Within i j
  quiet : p.Quiet z
  texts : p.texts i j = L

/-! ### A row of stars -/

theorem walk_stars (followed : Bool) (i stars : Nat) :
    (ofEdges (starEdges followed i stars)).Walk i [] (i + stars) := by
  induction stars generalizing i with
  | zero => exact .nil i
  | succ stars ih =>
      have here : ofEdges (starEdges followed i (stars + 1)) i none (i + 1) :=
        ⟨rfl, by simp [starEdges]⟩
      have rest := ih (i + 1)
      rw [Nat.add_right_comm, Nat.add_assoc] at rest
      refine .step here (rest.mono fun s l t move => ⟨move.1, ?_⟩)
      rw [starEdges]
      exact List.mem_append_right _ (List.mem_cons_of_mem _ move.2)

theorem within_stars (i stars : Nat) :
    (ofEdges (starEdges false i stars)).Within i (i + stars) := by
  rintro s l t ⟨-, edge⟩
  exact Body.starEdges_range edge

theorem texts_stars (i stars : Nat) :
    (ofEdges (starEdges false i stars)).texts i (i + stars) = 1 := by
  ext x
  rw [Language.mem_one]
  constructor
  · intro walk
    refine walk.residual (P := fun _ x => x = []) rfl ?_
    rintro s l u x ⟨rfl, -⟩ rfl
    rfl
  · rintro rfl
    exact walk_stars false i stars

theorem Spans.stars (i stars : Nat) :
    (ofEdges (starEdges false i stars)).Spans i (i + stars) (i + stars) 1 := by
  refine ⟨by omega, Nat.le_refl _, within_stars i stars, ?_, texts_stars i stars⟩
  rintro s l t ⟨silent, edge⟩ -
  exact ⟨silent, (Body.starEdges_range edge).2.1⟩

/-! ### A symbol -/

/-- The move that reads a character at `i`, if the symbol there reads it. -/
def reading (i : Nat) (symbol : Char) : Part := fun s l t =>
  s = i ∧ t = i + 1 ∧ ∃ c, l = some c ∧ isMeta c = false ∧ (symbol = c ∨ symbol = '.')

@[simp] theorem reading_silent {symbol : Char} : ¬ reading i symbol s none t := by
  simp [reading]

@[simp] theorem reading_read {symbol d : Char} :
    reading i symbol s (some d) t ↔
      s = i ∧ t = i + 1 ∧ isMeta d = false ∧ (symbol = d ∨ symbol = '.') := by
  simp [reading]

theorem within_reading (i : Nat) (symbol : Char) : (reading i symbol).Within i (i + 1) := by
  rintro s l t ⟨rfl, rfl, -⟩
  omega

theorem quiet_reading (i : Nat) (symbol : Char) : (reading i symbol).Quiet (i + 1) := by
  rintro s l t ⟨rfl, rfl, -⟩ ht
  omega

theorem texts_reading (i : Nat) (symbol : Char) :
    (reading i symbol).texts i (i + 1) = symbolLanguage symbol := by
  ext x
  constructor
  · intro walk
    have residual := walk.residual
      (P := fun s x => (s = i → x ∈ symbolLanguage symbol) ∧ (s = i + 1 → x = []))
      ⟨fun h => by omega, fun _ => rfl⟩ ?_
    · exact residual.1 rfl
    · rintro s l u x ⟨rfl, rfl, c, rfl, plain, hread⟩ ⟨-, rest⟩
      exact ⟨fun _ => ⟨c, by simp [rest rfl], plain, hread⟩, fun h => by omega⟩
  · rintro ⟨c, rfl, plain, hread⟩
    have move : reading i symbol i (some c) (i + 1) := ⟨rfl, rfl, c, rfl, plain, hread⟩
    exact Walk.step move (.nil (i + 1))

theorem Spans.reading (i : Nat) (symbol : Char) :
    (reading i symbol).Spans i (i + 1) (i + 1) (symbolLanguage symbol) :=
  ⟨by omega, Nat.le_refl _, within_reading i symbol, quiet_reading i symbol,
    texts_reading i symbol⟩

/-! ### A repeated unit -/

/-- A unit from `start` to `after` with `stars` times `*` behind it. -/
def repeated (unit : Part) (start after stars : Nat) : Part :=
  unit ∪ ofEdges (loop start after (0 < stars)) ∪ ofEdges (starEdges false after stars)

@[simp] theorem repeated_silent {unit : Part} {start after stars : Nat} :
    repeated unit start after stars s none t ↔ unit s none t ∨
      (s, t) ∈ loop start after (0 < stars) ∨ (s, t) ∈ starEdges false after stars := by
  simp [repeated, or_assoc]

@[simp] theorem repeated_read {unit : Part} {start after stars : Nat} {d : Char} :
    repeated unit start after stars s (some d) t ↔ unit s (some d) t := by
  simp [repeated]

theorem repeated_zero (unit : Part) (start after : Nat) : repeated unit start after 0 = unit := by
  ext s l t
  simp [repeated, ofEdges, starEdges, loop]

section Repeated

variable {unit : Part} {start after stars z' : Nat}

theorem within_repeated (within : unit.Within start after) (order : start < after) :
    (repeated unit start after stars).Within start (after + stars) := by
  rintro s l t ((move | ⟨-, edge⟩) | ⟨-, edge⟩)
  · have := within s l t move
    omega
  · simp only [mem_loop, decide_eq_true_eq] at edge
    omega
  · have := Body.starEdges_range edge
    omega

/-- A starred unit is walked through any number of times. -/
theorem walk_repeated (starred : 0 < stars) {pieces : List (List Char)}
    (h : ∀ x ∈ pieces, x ∈ unit.texts start after) :
    (repeated unit start after stars).Walk start pieces.flatten after := by
  have enter : repeated unit start after stars start none after :=
    .inl (.inr ⟨rfl, by simp [starred]⟩)
  have again : repeated unit start after stars after none start :=
    .inl (.inr ⟨rfl, by simp [starred]⟩)
  induction pieces with
  | nil => exact Walk.silent enter
  | cons x pieces ih =>
      have first : unit.Walk start x after := h x List.mem_cons_self
      have rest := ih fun y hy => h y (List.mem_cons_of_mem x hy)
      exact (first.mono fun s l t move => .inl (.inl move)).trans (.step again rest)

/-- What may still be read in each state of a starred unit. Below `z` nothing of
the unit has been read, so the walk may also leave it alone. -/
structure RepeatAhead (unit : Part) (start after z s : Nat) (x : List Char) : Prop where
  inside : s < after → x ∈ unit.texts s after * (unit.texts start after)∗ ∨
    s < z ∧ x ∈ (unit.texts start after)∗
  behind : after ≤ s → x ∈ (unit.texts start after)∗

namespace RepeatAhead

variable {l : Option Char}

theorem of_inside (hs : s < after) (h : x ∈ unit.texts s after * (unit.texts start after)∗ ∨
    s < z ∧ x ∈ (unit.texts start after)∗) : RepeatAhead unit start after z s x :=
  ⟨fun _ => h, fun _ => by omega⟩

theorem of_behind (hs : after ≤ s) (h : x ∈ (unit.texts start after)∗) :
    RepeatAhead unit start after z s x :=
  ⟨fun _ => by omega, fun _ => h⟩

/-- At the start of the unit there are any number of repetitions to come. -/
theorem at_start (order : start < after) (h : RepeatAhead unit start after z start x) :
    x ∈ (unit.texts start after)∗ := by
  have again : unit.texts start after * (unit.texts start after)∗ ≤ (unit.texts start after)∗ :=
    mul_kstar_le_kstar
  cases h.inside order with
  | inl h => exact again h
  | inr h => exact h.2

theorem unit_move (within : unit.Within start after) (quiet : unit.Quiet z) (move : unit s l t)
    (h : RepeatAhead unit start after z t x) :
    RepeatAhead unit start after z s (l.toList ++ x) := by
  have range := within s l t move
  refine of_inside (by omega) ?_
  by_cases ht : t < after
  · cases h.inside ht with
    | inl h => exact .inl (mem_texts_mul_of_move move h)
    | inr h =>
        -- back at the start of the unit nothing of it has been read
        obtain ⟨rfl, hs⟩ := quiet s l t move h.1
        exact .inr ⟨hs, h.2⟩
  · obtain rfl : t = after := by omega
    exact .inl (mem_texts_mul_of_move move (mem_texts_mul_of_mem (h.behind (Nat.le_refl _))))

theorem loop_move {starred : Bool} (hz : start < z) (order : start < after)
    (edge : (s, t) ∈ loop start after starred) (h : RepeatAhead unit start after z t x) :
    RepeatAhead unit start after z s x := by
  rw [mem_loop] at edge
  rcases edge.2 with ⟨rfl, rfl⟩ | ⟨rfl, rfl⟩
  · -- past the unit
    exact of_inside order (.inr ⟨hz, h.behind (Nat.le_refl _)⟩)
  · -- back for another repetition
    exact of_behind (Nat.le_refl _) (h.at_start order)

theorem star_move (edge : (s, t) ∈ starEdges false after stars)
    (h : RepeatAhead unit start after z t x) : RepeatAhead unit start after z s x := by
  have range := Body.starEdges_range edge
  exact of_behind range.1 (h.behind range.2.2.1)

end RepeatAhead

theorem texts_repeated (within : unit.Within start after) (quiet : unit.Quiet z)
    (hz : start < z) (order : start < after) (stars : Nat) :
    (repeated unit start after stars).texts start (after + stars) =
      EpsilonMatch.repeated (unit.texts start after) stars := by
  cases stars with
  | zero =>
      rw [repeated_zero]
      rfl
  | succ stars =>
      show _ = (unit.texts start after)∗
      ext x
      constructor
      · intro walk
        have ahead := walk.residual (P := RepeatAhead unit start after z)
          (.of_behind (by omega) (Language.nil_mem_kstar _)) ?_
        · exact ahead.at_start order
        · rintro s l t x ((move | ⟨rfl, edge⟩) | ⟨rfl, edge⟩) h
          · exact h.unit_move within quiet move
          · exact h.loop_move hz order edge
          · exact h.star_move edge
      · intro hx
        obtain ⟨pieces, rfl, hpieces⟩ := Language.mem_kstar.1 hx
        have row := (walk_stars false after (stars + 1)).mono fun s l t move =>
          show repeated unit start after (stars + 1) s l t from .inr move
        have walk := (walk_repeated (Nat.succ_pos stars) hpieces).trans row
        rwa [List.append_nil] at walk

/-- Behind what precedes it, a unit adds to the texts what its repetition does. -/
theorem Spans.behind {front : Part} {L M : Language Char} (hfront : front.Spans i z start L)
    (hunit : unit.Spans start z' after M) (hz' : start < z') (stars : Nat) :
    (front ∪ repeated unit start after stars).Spans i z (after + stars)
      (L * EpsilonMatch.repeated M stars) := by
  have order : start < after := Nat.lt_of_lt_of_le hz' hunit.stop
  have within : (repeated unit start after stars).Within start (after + stars) :=
    within_repeated hunit.within order
  have hi : i ≤ start := Nat.le_trans hfront.start hfront.stop
  constructor
  · exact hfront.start
  · exact Nat.le_trans hfront.stop (by omega)
  · exact hfront.within.union within hi (by omega)
  · intro s l t move ht
    cases move with
    | inl move => exact hfront.quiet s l t move ht
    | inr move =>
        have := within s l t move
        have := hfront.stop
        omega
  · rw [texts_union hfront.within within hi (by omega), hfront.texts]
    rw [texts_repeated hunit.within hunit.quiet hz' order, hunit.texts]

end Repeated

/-! ### A group -/

/-- A group without a `|`, its `(` at `left` and its `)` at `right`; `starred` says
whether a `*` stands behind the `(`. -/
def grouped (inner : Part) (left right : Nat) (starred : Bool) : Part :=
  inner ∪ ofEdges (loop left (left + 1) starred ++ [(left, left + 1), (right, right + 1)])

section Grouped

variable {inner : Part} {left right : Nat} {starred : Bool}

@[simp] theorem grouped_silent :
    grouped inner left right starred s none t ↔ inner s none t ∨
      (s, t) ∈ loop left (left + 1) starred ++ [(left, left + 1), (right, right + 1)] := by
  simp only [grouped, union_iff, ofEdges_silent]

@[simp] theorem grouped_read {d : Char} :
    grouped inner left right starred s (some d) t ↔ inner s (some d) t := by
  simp [grouped]

theorem within_grouped (within : inner.Within (left + 1) right) (order : left < right) :
    (grouped inner left right starred).Within left (right + 1) := by
  intro s l t move
  cases move with
  | inl move =>
      have := within s l t move
      omega
  | inr move =>
      have edge := move.2
      simp only [List.mem_append, List.mem_cons, List.not_mem_nil, or_false, mem_loop,
        Prod.mk.injEq] at edge
      omega

theorem quiet_grouped (quiet : inner.Quiet z) (hleft : left < z)
    (hstar : starred = true → left + 1 < z) (hz : z ≤ right) :
    (grouped inner left right starred).Quiet z := by
  intro s l t move ht
  cases move with
  | inl move => exact quiet s l t move ht
  | inr move =>
      obtain ⟨silent, edge⟩ := move
      simp only [List.mem_append, List.mem_cons, List.not_mem_nil, or_false, mem_loop,
        Prod.mk.injEq] at edge
      refine ⟨silent, ?_⟩
      rcases edge with ⟨on, edge⟩ | edge
      · have := hstar on
        omega
      · omega

theorem texts_grouped (within : inner.Within (left + 1) right) (order : left < right) :
    (grouped inner left right starred).texts left (right + 1) = inner.texts (left + 1) right := by
  ext x
  constructor
  · intro walk
    have residual := walk.residual (P := fun s x =>
      (s = left → x ∈ inner.texts (left + 1) right) ∧
      (left < s → s ≤ right → x ∈ inner.texts s right) ∧ (right < s → x = []))
      ⟨fun h => by omega, fun _ h => by omega, fun _ => rfl⟩ ?_
    · exact residual.1 rfl
    · rintro s l u x (move | ⟨rfl, edge⟩) ⟨atLeft, inside, behind⟩
      · have range := within s l u move
        refine ⟨fun h => by omega, fun _ _ => ?_, fun h => by omega⟩
        exact Walk.step move (inside (by omega) (by omega))
      · simp only [List.mem_append, List.mem_cons, List.not_mem_nil, or_false, mem_loop,
          Prod.mk.injEq] at edge
        rcases edge with ⟨-, ⟨rfl, rfl⟩ | ⟨rfl, rfl⟩⟩ | ⟨rfl, rfl⟩ | ⟨rfl, rfl⟩
        · exact ⟨fun _ => inside (by omega) (by omega), fun h => by omega, fun h => by omega⟩
        · exact ⟨fun h => by omega, fun _ _ => atLeft rfl, fun h => by omega⟩
        · exact ⟨fun _ => inside (by omega) (by omega), fun h => by omega, fun h => by omega⟩
        · obtain rfl := behind (by omega)
          exact ⟨fun h => by omega, fun _ _ => nil_mem_texts, fun h => by omega⟩
  · intro walk
    have enter : grouped inner left right starred left none (left + 1) := .inr ⟨rfl, by simp⟩
    have leave : grouped inner left right starred right none (right + 1) := .inr ⟨rfl, by simp⟩
    have through := (walk.mono fun s l t move =>
      show grouped inner left right starred s l t from .inl move).trans (.silent leave)
    rw [List.append_nil] at through
    exact Walk.step enter through

theorem Spans.grouped {L : Language Char} (h : inner.Spans (left + 1) z right L)
    (hstar : starred = true → left + 1 < z) :
    (grouped inner left right starred).Spans left z (right + 1) L := by
  have start := h.start
  have stop := h.stop
  constructor
  · omega
  · omega
  · exact within_grouped h.within (by omega)
  · exact quiet_grouped h.quiet (by omega) hstar stop
  · rw [texts_grouped h.within (by omega), h.texts]

end Grouped

/-! ### A group with two branches -/

/-- What may be read behind the first branch of a group: nothing, or a text of the
second branch if a `*` lets the walk pass into it. -/
def behindFirst (second : Language Char) (stars : Nat) : Language Char :=
  if stars = 0 then 1 else second + 1

/-- What may be read from the start of the second branch on. -/
def fromSecond (second : Language Char) (stars : Nat) : Language Char :=
  if stars = 0 then second else second + 1

theorem branches_eq (first second : Language Char) (stars : Nat) :
    branches first second stars = first * behindFirst second stars + fromSecond second stars := by
  unfold branches behindFirst fromSecond
  split
  · rw [mul_one]
  · rw [add_mul, one_mul]

theorem mem_fromSecond {second : Language Char} (stars : Nat) (h : x ∈ second) :
    x ∈ fromSecond second stars := by
  unfold fromSecond
  split
  · exact h
  · rw [Language.mem_add]
    exact .inl h

theorem nil_mem_behindFirst (second : Language Char) (stars : Nat) :
    [] ∈ behindFirst second stars := by
  unfold behindFirst
  split
  · exact Language.nil_mem_one
  · exact .inr Language.nil_mem_one

theorem behindFirst_eq (second : Language Char) {stars : Nat} (h : 0 < stars) :
    behindFirst second stars = fromSecond second stars := by
  rw [behindFirst, fromSecond, if_neg (by omega), if_neg (by omega)]

/-- A group with a `|` at `bar`. `starred` says whether a `*` stands behind its
`(`, and `stars` how many stand behind its `|`. -/
def branched (first second : Part) (left bar right : Nat) (starred : Bool) (stars : Nat) : Part :=
  first ∪ second ∪ ofEdges (loop left (left + 1) starred ++ loop bar (bar + 1) (0 < stars) ++
    [(left, left + 1), (left, bar + 1), (bar, right), (right, right + 1)])

section Branched

variable {first second : Part} {left bar right stars z' : Nat} {starred : Bool}

@[simp] theorem branched_silent :
    branched first second left bar right starred stars s none t ↔
      first s none t ∨ second s none t ∨
        (s, t) ∈ loop left (left + 1) starred ++ loop bar (bar + 1) (0 < stars) ++
          [(left, left + 1), (left, bar + 1), (bar, right), (right, right + 1)] := by
  simp only [branched, union_iff, ofEdges_silent, or_assoc]

@[simp] theorem branched_read {d : Char} :
    branched first second left bar right starred stars s (some d) t ↔
      first s (some d) t ∨ second s (some d) t := by
  simp [branched]

theorem mem_branched_edges {v w : Nat} :
    (v, w) ∈ loop left (left + 1) starred ++ loop bar (bar + 1) (0 < stars) ++
        [(left, left + 1), (left, bar + 1), (bar, right), (right, right + 1)] ↔
      (starred = true ∧ (v = left ∧ w = left + 1 ∨ v = left + 1 ∧ w = left) ∨
        0 < stars ∧ (v = bar ∧ w = bar + 1 ∨ v = bar + 1 ∧ w = bar)) ∨
      v = left ∧ w = left + 1 ∨ v = left ∧ w = bar + 1 ∨ v = bar ∧ w = right ∨
        v = right ∧ w = right + 1 := by
  simp [or_assoc]

theorem within_branched (hfirst : first.Within (left + 1) bar)
    (hsecond : second.Within (bar + 1) right) (hbar : left < bar) (hright : bar < right) :
    (branched first second left bar right starred stars).Within left (right + 1) := by
  rintro s l t ((move | move) | ⟨-, edge⟩)
  · have := hfirst s l t move
    omega
  · have := hsecond s l t move
    omega
  · rw [mem_branched_edges] at edge
    omega

theorem quiet_branched (hsecond : second.Within (bar + 1) right) (quiet : first.Quiet z)
    (hleft : left < z) (hstar : starred = true → left + 1 < z) (hz : z ≤ bar)
    (hright : bar < right) : (branched first second left bar right starred stars).Quiet z := by
  rintro s l t ((move | move) | ⟨silent, edge⟩) ht
  · exact quiet s l t move ht
  · have := hsecond s l t move
    omega
  · rw [mem_branched_edges] at edge
    refine ⟨silent, ?_⟩
    rcases edge with (⟨on, edge⟩ | edge) | edge
    · have := hstar on
      omega
    · omega
    · omega

theorem move_branched {v w : Nat} (h : (v = left ∧ w = left + 1 ∨ v = left ∧ w = bar + 1 ∨
    v = bar ∧ w = right ∨ v = right ∧ w = right + 1) ∨ 0 < stars ∧ (v = bar ∧ w = bar + 1 ∨
    v = bar + 1 ∧ w = bar)) : branched first second left bar right starred stars v none w := by
  refine .inr ⟨rfl, ?_⟩
  rw [mem_branched_edges]
  rcases h with h | h
  · exact .inr h
  · exact .inl (.inr h)

/-- Through the second branch and out of the group. -/
theorem walk_second (h : x ∈ second.texts (bar + 1) right) :
    (branched first second left bar right starred stars).Walk (bar + 1) x (right + 1) := by
  have inside : second.Walk (bar + 1) x right := h
  have through := (inside.mono fun s l t move =>
    show branched first second left bar right starred stars s l t from .inl (.inr move)).trans
      (.silent (move_branched (w := right + 1) (by omega)))
  rwa [List.append_nil] at through

theorem walk_behindFirst (h : x ∈ behindFirst (second.texts (bar + 1) right) stars) :
    (branched first second left bar right starred stars).Walk bar x (right + 1) := by
  have leave : (branched first second left bar right starred stars).Walk bar [] (right + 1) :=
    .step (move_branched (w := right) (by omega)) (.silent (move_branched (by omega)))
  unfold behindFirst at h
  split at h
  · rw [Language.mem_one] at h
    exact h ▸ leave
  · rw [Language.mem_add, Language.mem_one] at h
    rcases h with h | rfl
    · exact .step (move_branched (w := bar + 1) (by omega)) (walk_second h)
    · exact leave

theorem walk_fromSecond (h : x ∈ fromSecond (second.texts (bar + 1) right) stars) :
    (branched first second left bar right starred stars).Walk left x (right + 1) := by
  refine Walk.step (l := none) (move_branched (w := bar + 1) (by omega)) ?_
  unfold fromSecond at h
  split at h
  · exact walk_second h
  · rw [Language.mem_add, Language.mem_one] at h
    rcases h with h | rfl
    · exact walk_second h
    · refine Walk.step (l := none) (move_branched (w := bar) (by omega)) (walk_behindFirst ?_)
      exact nil_mem_behindFirst _ _

/-- What may still be read in each state of a group with two branches: `B` behind
the first branch, and `F` from the second on. Below `z` and `z'` nothing of a
branch has been read, so there the walk may also take the other way. -/
structure BranchAhead (first second : Part) (left bar right z z' : Nat) (B F : Language Char)
    (s : Nat) (x : List Char) : Prop where
  atLeft : s = left → x ∈ first.texts (left + 1) bar * B + F
  inFirst : left < s → s ≤ bar → x ∈ first.texts s bar * B ∨ s < z ∧ x ∈ F
  inSecond : bar < s → s ≤ right → x ∈ second.texts s right ∨ s < z' ∧ x ∈ F
  behind : right < s → x = []

namespace BranchAhead

variable {B F : Language Char} {l : Option Char}

theorem of_left (hbar : left < bar) (hright : bar < right)
    (h : x ∈ first.texts (left + 1) bar * B + F) :
    BranchAhead first second left bar right z z' B F left x :=
  ⟨fun _ => h, fun _ => by omega, fun _ => by omega, fun _ => by omega⟩

theorem of_first (hright : bar < right) (hs : left < s ∧ s ≤ bar)
    (h : x ∈ first.texts s bar * B ∨ s < z ∧ x ∈ F) :
    BranchAhead first second left bar right z z' B F s x :=
  ⟨fun _ => by omega, fun _ _ => h, fun _ => by omega, fun _ => by omega⟩

theorem of_second (hbar : left < bar) (hs : bar < s ∧ s ≤ right)
    (h : x ∈ second.texts s right ∨ s < z' ∧ x ∈ F) :
    BranchAhead first second left bar right z z' B F s x :=
  ⟨fun _ => by omega, fun _ _ => by omega, fun _ _ => h, fun _ => by omega⟩

theorem nil (hbar : left < bar) (hright : bar < right) :
    BranchAhead first second left bar right z z' B F (right + 1) [] :=
  ⟨fun _ => by omega, fun _ _ => by omega, fun _ _ => by omega, fun _ => rfl⟩

theorem first_move (hfirst : first.Within (left + 1) bar) (quiet : first.Quiet z)
    (hright : bar < right) (move : first s l t)
    (h : BranchAhead first second left bar right z z' B F t x) :
    BranchAhead first second left bar right z z' B F s (l.toList ++ x) := by
  have range := hfirst s l t move
  refine of_first hright (by omega) ?_
  cases h.inFirst (by omega) (by omega) with
  | inl h => exact .inl (mem_texts_mul_of_move move h)
  | inr h =>
      -- back at the start of the branch nothing of it has been read
      obtain ⟨rfl, hs⟩ := quiet s l t move h.1
      exact .inr ⟨hs, h.2⟩

theorem second_move (hsecond : second.Within (bar + 1) right) (quiet : second.Quiet z')
    (hbar : left < bar) (move : second s l t)
    (h : BranchAhead first second left bar right z z' B F t x) :
    BranchAhead first second left bar right z z' B F s (l.toList ++ x) := by
  have range := hsecond s l t move
  refine of_second hbar (by omega) ?_
  cases h.inSecond (by omega) (by omega) with
  | inl h => exact .inl (Walk.step move h)
  | inr h =>
      obtain ⟨rfl, hs⟩ := quiet s l t move h.1
      exact .inr ⟨hs, h.2⟩

/-- The start of the first branch leads on like the `(` in front of it. -/
theorem enterFirst (hbar : left < bar)
    (h : BranchAhead first second left bar right z z' B F (left + 1) x) :
    x ∈ first.texts (left + 1) bar * B + F := by
  rw [Language.mem_add]
  exact (h.inFirst (by omega) (by omega)).imp_right And.right

/-- From the start of the second branch on there is a text of that branch, or
what else the `*` in front of it allows. -/
theorem enterSecond (hright : bar < right)
    (h : BranchAhead first second left bar right z z' B
      (fromSecond (second.texts (bar + 1) right) stars) (bar + 1) x) :
    x ∈ fromSecond (second.texts (bar + 1) right) stars := by
  cases h.inSecond (by omega) (by omega) with
  | inl walk => exact mem_fromSecond stars walk
  | inr h => exact h.2

theorem edge_move (hfirst : first.Within (left + 1) bar) (hsecond : second.Within (bar + 1) right)
    (hstar : starred = true → left + 1 < z) (hstars : 0 < stars → bar + 1 < z')
    (hbar : left < bar) (hright : bar < right) (hz' : z' ≤ right)
    (edge : (s, t) ∈ loop left (left + 1) starred ++ loop bar (bar + 1) (0 < stars) ++
      [(left, left + 1), (left, bar + 1), (bar, right), (right, right + 1)])
    (h : BranchAhead first second left bar right z z'
      (behindFirst (second.texts (bar + 1) right) stars)
      (fromSecond (second.texts (bar + 1) right) stars) t x) :
    BranchAhead first second left bar right z z'
      (behindFirst (second.texts (bar + 1) right) stars)
      (fromSecond (second.texts (bar + 1) right) stars) s x := by
  have behind_eq (on : 0 < stars) := behindFirst_eq (second.texts (bar + 1) right) on
  rw [mem_branched_edges] at edge
  rcases edge with (⟨on, ⟨rfl, rfl⟩ | ⟨rfl, rfl⟩⟩ | ⟨on, ⟨rfl, rfl⟩ | ⟨rfl, rfl⟩⟩) |
    ⟨rfl, rfl⟩ | ⟨rfl, rfl⟩ | ⟨rfl, rfl⟩ | ⟨rfl, rfl⟩
  · -- from `(` to the `*` behind it
    exact of_left hbar hright (h.enterFirst hbar)
  · -- and back
    refine of_first hright (by omega) ?_
    exact (h.atLeft rfl).imp_right fun h => ⟨hstar on, h⟩
  · -- from `|` to the `*` behind it
    refine of_first hright (by omega) (.inl ?_)
    rw [behind_eq on]
    exact mem_texts_mul_of_mem (h.enterSecond hright)
  · -- and back
    refine of_second hbar (by omega) (.inr ⟨hstars on, ?_⟩)
    rcases h.inFirst (by omega) (by omega) with ⟨y, walk, w, hw, rfl⟩ | ⟨-, h⟩
    · obtain rfl := hfirst.eq_nil walk
      rw [← behind_eq on]
      exact hw
    · exact h
  · -- into the first branch
    exact of_left hbar hright (h.enterFirst hbar)
  · -- into the second branch
    refine of_left hbar hright ?_
    rw [Language.mem_add]
    exact .inr (h.enterSecond hright)
  · -- from `|` to `)`
    refine of_first hright (by omega) (.inl ?_)
    cases h.inSecond (by omega) (by omega) with
    | inl walk =>
        obtain rfl := hsecond.eq_nil walk
        exact mem_texts_mul_of_mem (nil_mem_behindFirst _ _)
    | inr h => omega
  · -- out of the group
    obtain rfl := h.behind (by omega)
    exact of_second hbar (by omega) (.inl nil_mem_texts)

end BranchAhead

theorem texts_branched (hfirst : first.Within (left + 1) bar)
    (hsecond : second.Within (bar + 1) right) (quietFirst : first.Quiet z)
    (quietSecond : second.Quiet z') (hstar : starred = true → left + 1 < z)
    (hstars : 0 < stars → bar + 1 < z') (hbar : left < bar) (hright : bar < right)
    (hz' : z' ≤ right) :
    (branched first second left bar right starred stars).texts left (right + 1) =
      branches (first.texts (left + 1) bar) (second.texts (bar + 1) right) stars := by
  rw [branches_eq]
  ext x
  constructor
  · intro walk
    have ahead := walk.residual
      (P := BranchAhead first second left bar right z z'
        (behindFirst (second.texts (bar + 1) right) stars)
        (fromSecond (second.texts (bar + 1) right) stars))
      (.nil hbar hright) ?_
    · exact ahead.atLeft rfl
    · rintro s l t x ((move | move) | ⟨rfl, edge⟩) h
      · exact h.first_move hfirst quietFirst hright move
      · exact h.second_move hsecond quietSecond hbar move
      · exact h.edge_move hfirst hsecond hstar hstars hbar hright hz' edge
  · intro hx
    rw [Language.mem_add] at hx
    cases hx with
    | inl hx =>
        obtain ⟨y, inside, w, hw, rfl⟩ := hx
        have first_part : first.Walk (left + 1) y bar := inside
        refine Walk.step (l := none) (move_branched (w := left + 1) (by omega)) ?_
        exact (first_part.mono fun s l t move => .inl (.inl move)).trans (walk_behindFirst hw)
    | inr hx => exact walk_fromSecond hx

theorem Spans.branched {L M : Language Char} (hfirst : first.Spans (left + 1) z bar L)
    (hsecond : second.Spans (bar + 1) z' right M) (hstar : starred = true → left + 1 < z)
    (hstars : 0 < stars → bar + 1 < z') :
    (branched first second left bar right starred stars).Spans left z (right + 1)
      (branches L M stars) := by
  obtain ⟨start, stop, within, quiet, texts⟩ := hfirst
  obtain ⟨start', stop', within', quiet', texts'⟩ := hsecond
  constructor
  · omega
  · omega
  · exact within_branched within within' (by omega) (by omega)
  · exact quiet_branched within' quiet (by omega) hstar stop (by omega)
  · rw [← texts, ← texts']
    exact texts_branched within within' quiet quiet' hstar hstars (by omega) (by omega) stop'

end Branched

end EpsilonMatch.Part
