import EpsilonMatch.Proofs.Automaton.Simulation
import EpsilonMatch.Proofs.Pattern.Acceptance
import EpsilonMatch.Proofs.Pattern.Units
/-!
# EpsilonMatch.Proofs.Pattern.Meaning

A compiled pattern reads the texts that its tree stands for.

`Body.part` puts the automaton of a tree together from the parts of its units, so
that its texts are computed by induction on the tree (`Body.spans_part`). Its
moves are the silent moves of `Body.edges` and the moves that read the symbols of
the pattern (`Body.part_silent`, `Body.part_read`), and these are the moves of
the compiled automaton, except that a part reads no operator, neither as a symbol
nor as a character. An automaton may read a `*` in the pattern as a symbol, but
only from a text with a `*` in it.
-/

namespace EpsilonMatch

open scoped Computability

namespace Body

/-- The part of an automaton that stands for a tree whose pattern begins at
position `i`. -/
def part : Body → Nat → Part
  | leading stars, i => .ofEdges (starEdges false i stars)
  | symbol front c _ stars, i =>
    let here := i + front.size
    front.part i ∪ .repeated (.reading here c) here (here + 1) stars
  | group front inner stars, i =>
    let left := i + front.size
    let right := left + 1 + inner.size
    let unit := Part.grouped (inner.part (left + 1)) left right (inner.startsStarred false)
    front.part i ∪ .repeated unit left (right + 1) stars
  | choice front first second stars, i =>
    let left := i + front.size
    let bar := left + 1 + first.size
    let right := bar + 1 + second.size
    let unit := Part.branched (first.part (left + 1)) (second.part (bar + 1)) left bar right
      (first.startsStarred false) second.leadingStars
    front.part i ∪ .repeated unit left (right + 1) stars

/-- A `*` behind the operator in front of a tree is one of those the tree begins
with. -/
theorem lt_add_leadingStars (b : Body) (i : Nat) (h : b.startsStarred false = true) :
    i < i + b.leadingStars :=
  Nat.lt_add_of_pos_right (startsStarred_false_iff.1 h)

/-- The texts that lead through a tree are those it stands for. -/
theorem spans_part (b : Body) (i : Nat) :
    (b.part i).Spans i (i + b.leadingStars) (i + b.size) b.language := by
  induction b generalizing i with
  | leading stars => exact Part.Spans.stars i stars
  | symbol front c plain stars ih =>
      simp only [part, size, leadingStars, language, ← Nat.add_assoc]
      exact (ih i).behind (Part.Spans.reading _ c) (Nat.lt_add_one _) stars
  | group front inner stars ihFront ihInner =>
      have unit := (ihInner (i + front.size + 1)).grouped (inner.lt_add_leadingStars _)
      simp only [part, size, leadingStars, language, ← Nat.add_assoc]
      exact (ihFront i).behind unit (by omega) stars
  | choice front first second stars ihFront ihFirst ihSecond =>
      have unit := (ihFirst (i + front.size + 1)).branched (ihSecond _)
        (first.lt_add_leadingStars _) Nat.lt_add_of_pos_right
      simp only [part, size, leadingStars, language, ← Nat.add_assoc]
      exact (ihFront i).behind unit (by omega) stars

/-! ### The moves of a tree -/

/-- A part moves silently along the edges of its tree. -/
theorem part_silent {b : Body} {i s t : Nat} :
    b.part i s none t ↔ (s, t) ∈ b.edges false i := by
  induction b generalizing i with
  | leading stars => exact Part.ofEdges_silent
  | symbol front c plain stars ih =>
      simp [part, edges, ih]
  | group front inner stars ihFront ihInner =>
      simp only [part, edges, Part.union_iff, Part.repeated_silent, Part.grouped_silent, ihFront,
        ihInner, List.mem_append, List.mem_cons, Bool.or_false]
      grind
  | choice front first second stars ihFront ihFirst ihSecond =>
      have starred : second.startsStarred false = decide (0 < second.leadingStars) :=
        Bool.eq_iff_iff.2 (by simp [startsStarred_false_iff])
      simp only [part, edges, Part.union_iff, Part.repeated_silent, Part.branched_silent, ihFront,
        ihFirst, ihSecond, starred, List.mem_append, List.mem_cons, Bool.or_false]
      grind

/-- A symbol of the pattern at state `s` reads `d`, if the pattern begins at
state `i`. -/
def ReadsAt (pattern : List Char) (i s : Nat) (d : Char) : Prop :=
  ∃ c, (c, s) ∈ pattern.zipIdx i ∧ isMeta c = false ∧ (c = d ∨ c = '.')

theorem readsAt_append {p q : List Char} {i s : Nat} {d : Char} :
    ReadsAt (p ++ q) i s d ↔ ReadsAt p i s d ∨ ReadsAt q (i + p.length) s d := by
  simp only [ReadsAt, List.zipIdx_append, List.mem_append, or_and_right, exists_or]

theorem readsAt_cons {c : Char} {p : List Char} {i s : Nat} {d : Char} :
    ReadsAt (c :: p) i s d ↔
      (s = i ∧ isMeta c = false ∧ (c = d ∨ c = '.')) ∨ ReadsAt p (i + 1) s d := by
  simp only [ReadsAt, List.zipIdx_cons, List.mem_cons, or_and_right, exists_or, Prod.mk.injEq]
  refine or_congr_left ?_
  constructor
  · rintro ⟨_, ⟨rfl, rfl⟩, h⟩
    exact ⟨rfl, h⟩
  · rintro ⟨rfl, h⟩
    exact ⟨c, ⟨rfl, rfl⟩, h⟩

theorem not_readsAt_starRow {n i s : Nat} {d : Char} : ¬ ReadsAt (starRow n) i s d := by
  rintro ⟨c, mem, plain, -⟩
  have star : c = '*' := List.eq_of_mem_replicate (List.fst_mem_of_mem_zipIdx mem)
  rw [star] at plain
  exact absurd plain (by decide)

/-- A part reads at the ordinary characters of its pattern. -/
theorem part_read {b : Body} {i s t : Nat} {d : Char} :
    b.part i s (some d) t ↔ t = s + 1 ∧ isMeta d = false ∧ ReadsAt b.text i s d := by
  induction b generalizing i with
  | leading stars => simp [part, text, not_readsAt_starRow]
  | symbol front c plain stars ih =>
      simp only [part, text, Part.union_iff, Part.repeated_read, Part.reading_read, ih,
        readsAt_append, readsAt_cons, not_readsAt_starRow, or_false, plain, length_text]
      grind
  | group front inner stars ihFront ihInner =>
      simp [part, text, ihFront, ihInner, readsAt_append, readsAt_cons, not_readsAt_starRow,
        isMeta, and_or_left]
  | choice front first second stars ihFront ihFirst ihSecond =>
      simp [part, text, ihFront, ihFirst, ihSecond, readsAt_append, readsAt_cons,
        not_readsAt_starRow, isMeta, and_or_left]

/-! ### The compiled automaton -/

@[simp] theorem acceptState_automaton (b : Body) : b.automaton.acceptState = b.size := by
  simp [Automaton.acceptState, automaton]

@[simp] theorem vertexCount_automaton (b : Body) :
    b.automaton.moves.vertexCount = b.size + 1 := by
  simp [automaton, moves]

theorem fits_automaton (b : Body) : b.automaton.Fits := by
  rw [Automaton.Fits, vertexCount_automaton, acceptState_automaton]

/-- Over a text without operators the runs of the automaton are the walks through
the part of its tree. -/
theorem run_automaton_iff {b : Body} {s t : Nat} {x : List Char}
    (plain : ∀ c ∈ x, isMeta c = false) :
    b.automaton.Run s x t ↔ (b.part 0).Walk s x t := by
  constructor
  · intro run
    induction run with
    | nil s => exact .nil s
    | silent edge _ ih =>
        obtain ⟨-, edge⟩ := Graph.edge_ofEdges_iff.1 edge
        exact .step (part_silent.2 edge) (ih plain)
    | @read s t symbol c x at_state matched _ _ ih =>
        have hc : isMeta c = false := plain c List.mem_cons_self
        -- an operator of the pattern reads only itself
        have hsymbol : isMeta symbol = false := by
          rcases matched with rfl | rfl
          · exact hc
          · rfl
        have mem : (symbol, s) ∈ b.text.zipIdx := by
          simpa [automaton, List.mem_zipIdx_iff_getElem?] using at_state
        have move : b.part 0 s (some c) (s + 1) :=
          part_read.2 ⟨rfl, hc, symbol, mem, hsymbol, matched⟩
        exact .step move (ih fun d hd => plain d (List.mem_cons_of_mem c hd))
  · intro walk
    induction walk with
    | nil s => exact .nil s
    | @step s u t l x move _ ih =>
        cases l with
        | none =>
            have edge := part_silent.1 move
            have range := edges_range edge
            have inside : s < b.size + 1 := by omega
            exact .silent (Graph.edge_ofEdges_iff.2 ⟨inside, edge⟩) (ih plain)
        | some c =>
            obtain ⟨rfl, -, symbol, mem, -, matched⟩ := part_read.1 move
            have at_state : b.automaton.symbols[s]? = some symbol := by
              simpa [automaton, List.mem_zipIdx_iff_getElem?] using mem
            have range := (spans_part b 0).within s _ _ move
            have inside : s + 1 < b.automaton.moves.vertexCount := by
              rw [vertexCount_automaton]
              omega
            exact .read at_state matched inside (ih fun d hd => plain d (List.mem_cons_of_mem c hd))

/-- The automaton of a tree recognizes what the tree stands for. -/
theorem recognizes_automaton_iff {b : Body} {x : List Char} (plain : ∀ c ∈ x, isMeta c = false) :
    b.automaton.Recognizes x ↔ x ∈ b.language := by
  have texts := (spans_part b 0).texts
  rw [Nat.zero_add] at texts
  rw [Automaton.Recognizes, acceptState_automaton, run_automaton_iff plain, ← texts]
  rfl

theorem exists_accepts_automaton (b : Body) {x : List Char} (plain : ∀ c ∈ x, isMeta c = false) :
    ∃ verdict, b.automaton.accepts x = .ok verdict ∧ (verdict = true ↔ x ∈ b.language) := by
  obtain ⟨verdict, accepted, recognized⟩ := Automaton.exists_accepts b.fits_automaton plain
  exact ⟨verdict, accepted, recognized.trans (recognizes_automaton_iff plain)⟩

end Body

/-- **A compiled pattern means what its tree says.** A pattern that is compiled is
the pattern of exactly one tree, and a text without operators is accepted exactly
if it is one of the texts that the tree stands for. -/
theorem accepts_iff_mem_language {p : List Char} {a : Automaton} (h : compile p = .ok a) :
    (∃! b : Body, b.text = p) ∧
    ∀ b : Body, b.text = p → ∀ x : List Char, (∀ c ∈ x, isMeta c = false) →
      ∃ verdict, a.accepts x = .ok verdict ∧ (verdict = true ↔ x ∈ b.language) := by
  obtain ⟨b, text, rfl⟩ := exists_text_of_compile h
  have unique (b' : Body) (text' : b'.text = p) : b' = b :=
    Body.text_injective (text'.trans text.symm)
  refine ⟨⟨b, text, unique⟩, ?_⟩
  intro b' text' x plain
  rw [unique b' text']
  exact b.exists_accepts_automaton plain

/-- The tree of `(x|*.)*y*`. -/
def optionalBranches : Body :=
  let first := Body.symbol (.leading 0) 'x' rfl 0
  let second := Body.symbol (.leading 1) '.' rfl 0
  .symbol (.choice (.leading 0) first second 1) 'y' rfl 1

/-- The pattern of `optionalBranches` means what that tree says about `xzyy`. -/
theorem optionalBranches_accepts_iff :
    compile "(x|*.)*y*".toList = .ok optionalBranches.automaton ∧
    optionalBranches.text = "(x|*.)*y*".toList ∧
    (∃! b : Body, b.text = "(x|*.)*y*".toList) ∧
    ∃ verdict, optionalBranches.automaton.accepts "xzyy".toList = .ok verdict ∧
      (verdict = true ↔ "xzyy".toList ∈ optionalBranches.language) := by
  have text : optionalBranches.text = "(x|*.)*y*".toList := by decide
  have compiled : compile "(x|*.)*y*".toList = .ok optionalBranches.automaton := by
    rw [← text, compile_text]
  have plain : ∀ c ∈ "xzyy".toList, isMeta c = false := by simp [isMeta]
  obtain ⟨unique, meaning⟩ := accepts_iff_mem_language compiled
  exact ⟨compiled, text, unique, meaning _ text _ plain⟩

end EpsilonMatch
