import EpsilonMatch.Proofs.Automaton.Viability
import EpsilonMatch.Proofs.Pattern.Meaning
/-!
# EpsilonMatch.Proofs.Pattern.Trim

A compiled pattern has no useless state.

The part of a unit leads from its first state to each of its states, and from each
of them to the state behind it (`Part.Trim`). This is also so for the states of the
operators: from a `|` a silent move leads to the `)`, and a `*` is passed whether or
not it repeats anything. Parts in sequence keep the property, and so do more moves,
so it holds of a whole pattern by induction on its tree (`Body.trim_part`).

Hence the compiled automaton is trim, and its active states tell which texts can
still be completed (`activeAfter_ne_nil_iff_viable`).
-/

namespace EpsilonMatch

open Body (starEdges)

namespace Part

variable {p q : Part} {i j k left bar right : Nat}

/-- From `i` the moves of a part lead to all states up to `j`, and from these to
`j`. -/
structure Trim (p : Part) (i j : Nat) : Prop where
  reached : ∀ s, i ≤ s → s ≤ j → ∃ x, p.Walk i x s
  leads : ∀ s, i ≤ s → s ≤ j → ∃ x, p.Walk s x j

namespace Trim

theorem mono (h : ∀ s l t, p s l t → q s l t) (trim : p.Trim i j) : q.Trim i j where
  reached s hi hj := (trim.reached s hi hj).imp fun _ walk => walk.mono h
  leads s hi hj := (trim.leads s hi hj).imp fun _ walk => walk.mono h

theorem point (p : Part) (i : Nat) : p.Trim i i where
  reached s hi hj := by
    obtain rfl : s = i := by omega
    exact ⟨[], .nil s⟩
  leads s hi hj := by
    obtain rfl : s = i := by omega
    exact ⟨[], .nil s⟩

/-- A move to the next state, whether or not it reads something. -/
theorem of_move {l : Option Char} (move : p i l (i + 1)) : p.Trim i (i + 1) := by
  have ends (s : Nat) (hi : i ≤ s) (hj : s ≤ i + 1) : s = i ∨ s = i + 1 := by omega
  constructor
  · intro s hi hj
    rcases ends s hi hj with rfl | rfl
    · exact ⟨[], .nil s⟩
    · exact ⟨_, .step move (.nil _)⟩
  · intro s hi hj
    rcases ends s hi hj with rfl | rfl
    · exact ⟨_, .step move (.nil _)⟩
    · exact ⟨[], .nil _⟩

/-- In sequence. -/
theorem trans (first : p.Trim i k) (second : p.Trim k j) (hik : i ≤ k) (hkj : k ≤ j) :
    p.Trim i j := by
  constructor
  · intro s hi hj
    by_cases hs : s ≤ k
    · exact first.reached s hi hs
    · obtain ⟨x, front⟩ := first.reached k hik (Nat.le_refl k)
      obtain ⟨y, back⟩ := second.reached s (by omega) hj
      exact ⟨x ++ y, front.trans back⟩
  · intro s hi hj
    by_cases hs : s ≤ k
    · obtain ⟨x, front⟩ := first.leads s hi hs
      obtain ⟨y, back⟩ := second.leads k (Nat.le_refl k) hkj
      exact ⟨x ++ y, front.trans back⟩
    · exact second.leads s (by omega) hj

theorem union (hp : p.Trim i k) (hq : q.Trim k j) (hik : i ≤ k) (hkj : k ≤ j) :
    (p ∪ q).Trim i j := by
  have first : (p ∪ q).Trim i k := hp.mono fun _ _ _ => .inl
  have second : (p ∪ q).Trim k j := hq.mono fun _ _ _ => .inr
  exact first.trans second hik hkj

/-! ### Units -/

theorem stars (i n : Nat) : (ofEdges (starEdges false i n)).Trim i (i + n) := by
  induction n generalizing i with
  | zero => exact point _ i
  | succ n ih =>
      have here : ofEdges (starEdges false i (n + 1)) i none (i + 1) := by simp [starEdges]
      have rest : (ofEdges (starEdges false i (n + 1))).Trim (i + 1) (i + 1 + n) := by
        refine (ih (i + 1)).mono fun s l t move => ⟨move.1, ?_⟩
        rw [starEdges]
        exact List.mem_append_right _ (List.mem_cons_of_mem _ move.2)
      have whole := (of_move here).trans rest (by omega) (by omega)
      rwa [Nat.add_assoc, Nat.add_comm 1] at whole

theorem reading (i : Nat) {symbol : Char} (plain : isMeta symbol = false) :
    (Part.reading i symbol).Trim i (i + 1) := by
  have move : Part.reading i symbol i (some symbol) (i + 1) := by simp [plain]
  exact of_move move

theorem repeated {unit : Part} {start after : Nat} (trim : unit.Trim start after)
    (order : start ≤ after) (n : Nat) :
    (Part.repeated unit start after n).Trim start (after + n) := by
  have looped : (unit ∪ ofEdges (loop start after (0 < n))).Trim start after :=
    trim.mono fun _ _ _ => .inl
  exact looped.union (stars after n) order (by omega)

theorem grouped {inner : Part} (trim : inner.Trim (left + 1) right) (starred : Bool)
    (order : left < right) : (Part.grouped inner left right starred).Trim left (right + 1) := by
  have enter : (Part.grouped inner left right starred).Trim left (left + 1) :=
    of_move (l := none) (by simp)
  have through : (Part.grouped inner left right starred).Trim (left + 1) right :=
    trim.mono fun _ _ _ => .inl
  have leave : (Part.grouped inner left right starred).Trim right (right + 1) :=
    of_move (l := none) (by simp)
  exact (enter.trans through (by omega) order).trans leave (by omega) (by omega)

/-- The states up to the `|` are on walks through the first branch, and those
behind it on walks through the second. -/
theorem branched {first second : Part} (hfirst : first.Trim (left + 1) bar)
    (hsecond : second.Trim (bar + 1) right) (starred : Bool) (n : Nat) (hbar : left < bar)
    (hright : bar < right) :
    (Part.branched first second left bar right starred n).Trim left (right + 1) := by
  have enter : (Part.branched first second left bar right starred n).Trim left (left + 1) :=
    of_move (move_branched (by omega))
  have leave : (Part.branched first second left bar right starred n).Trim right (right + 1) :=
    of_move (move_branched (by omega))
  have upper := enter.trans (hfirst.mono fun _ _ _ move => .inl (.inl move)) (by omega) hbar
  have lower := (hsecond.mono fun _ _ _ move => .inl (.inr move)).trans leave hright (by omega)
  have across : (Part.branched first second left bar right starred n).Walk left [] (bar + 1) :=
    .silent (move_branched (by omega))
  have away : (Part.branched first second left bar right starred n).Walk bar [] (right + 1) :=
    .step (move_branched (w := right) (by omega)) (.silent (move_branched (by omega)))
  constructor
  · intro s hi hj
    by_cases hs : s ≤ bar
    · exact upper.reached s hi hs
    · obtain ⟨x, inside⟩ := lower.reached s (by omega) hj
      exact ⟨x, across.trans inside⟩
  · intro s hi hj
    by_cases hs : s ≤ bar
    · obtain ⟨x, inside⟩ := upper.leads s hi hs
      exact ⟨x ++ [], inside.trans away⟩
    · exact lower.leads s (by omega) hj

end Trim

end Part

/-! ### Whole patterns -/

namespace Body

theorem trim_part (b : Body) (i : Nat) : (b.part i).Trim i (i + b.size) := by
  induction b generalizing i with
  | leading stars => exact .stars i stars
  | symbol front c plain stars ih =>
      simp only [part, size, ← Nat.add_assoc]
      exact (ih i).union ((Part.Trim.reading _ plain).repeated (by omega) stars) (by omega)
        (by omega)
  | group front inner stars ihFront ihInner =>
      have unit := (ihInner (i + front.size + 1)).grouped (inner.startsStarred false) (by omega)
      simp only [part, size, ← Nat.add_assoc]
      exact (ihFront i).union (unit.repeated (by omega) stars) (by omega) (by omega)
  | choice front first second stars ihFront ihFirst ihSecond =>
      have unit := (ihFirst (i + front.size + 1)).branched
        (ihSecond (i + front.size + 1 + first.size + 1)) (first.startsStarred false)
        second.leadingStars (by omega) (by omega)
      simp only [part, size, ← Nat.add_assoc]
      exact (ihFront i).union (unit.repeated (by omega) stars) (by omega) (by omega)

/-- A walk through the part of a tree reads no operator. -/
theorem plain_of_walk {b : Body} {i s t : Nat} {x : List Char} (walk : (b.part i).Walk s x t) :
    ∀ c ∈ x, isMeta c = false := by
  induction walk with
  | nil => simp
  | @step s u t l x move _ ih =>
      cases l with
      | none => exact ih
      | some d =>
          intro c hc
          cases List.mem_cons.1 hc with
          | inl here => exact here ▸ (part_read.1 move).2.1
          | inr behind => exact ih c behind

/-- The walk is also a run of the automaton. -/
theorem run_of_walk {b : Body} {s t : Nat} {x : List Char} (walk : (b.part 0).Walk s x t) :
    (∀ c ∈ x, isMeta c = false) ∧ b.automaton.Run s x t :=
  ⟨plain_of_walk walk, (run_automaton_iff (plain_of_walk walk)).2 walk⟩

theorem trim_automaton (b : Body) : b.automaton.Trim := by
  have trim := b.trim_part 0
  rw [Nat.zero_add] at trim
  constructor
  · intro s hs
    rw [acceptState_automaton] at hs
    exact (trim.reached s (Nat.zero_le s) hs).imp fun _ walk => run_of_walk walk
  · intro s hs
    rw [acceptState_automaton] at hs ⊢
    exact (trim.leads s (Nat.zero_le s) hs).imp fun _ walk => run_of_walk walk

end Body

/-- **The active states tell which texts can be completed.** In the automaton of a
pattern, a text leaves some state active exactly if some text behind it makes the
automaton accept. So the simulation stops early, and ends without an active state,
exactly if some prefix of the text has no accepted continuation; some text is
accepted; and every state is active behind some text from which some text leads on
to the accept state. -/
theorem activeAfter_ne_nil_iff_viable {p : List Char} {a : Automaton} (h : compile p = .ok a) :
    (∀ x : List Char, (∀ c ∈ x, isMeta c = false) →
      (∃ states, a.activeAfter x = .ok states ∧ (states ≠ [] ↔ a.Viable x)) ∧
      ∃ last, a.run x = .ok last ∧ (last.stopped = true ↔ ∃ y, y <+: x ∧ ¬ a.Viable y) ∧
        (last.active = [] ↔ last.stopped = true)) ∧
    (∃ x : List Char, (∀ c ∈ x, isMeta c = false) ∧ a.accepts x = .ok true) ∧
    ∀ s ≤ p.length, ∃ x w : List Char, (∀ c ∈ x ++ w, isMeta c = false) ∧
      (∃ states, a.activeAfter x = .ok states ∧ s ∈ states) ∧
      a.Run s w a.acceptState ∧ a.accepts (x ++ w) = .ok true := by
  obtain ⟨b, rfl, rfl⟩ := exists_text_of_compile h
  have fits := b.fits_automaton
  have trim := b.trim_automaton
  refine ⟨?_, ?_, ?_⟩
  · intro x plain
    refine ⟨?_, ?_⟩
    · obtain ⟨states, read, ends⟩ := Automaton.exists_activeAfter fits x
      refine ⟨states, read, ?_⟩
      rw [Automaton.viable_iff_exists_run fits trim plain, ne_eq, List.eq_nil_iff_forall_not_mem,
        not_forall_not]
      exact exists_congr ends
    · obtain ⟨last, simulated, stopped, ends⟩ := Automaton.exists_run_stopped fits plain
      refine ⟨last, simulated, stopped.trans (exists_congr fun y => ?_), ends⟩
      refine and_congr_right fun isPrefix => ?_
      have plainPrefix : ∀ c ∈ y, isMeta c = false := fun c hc => plain c (isPrefix.subset hc)
      rw [Automaton.viable_iff_exists_run fits trim plainPrefix, not_exists]
  · obtain ⟨x, plain, run⟩ := trim.leads 0 (Nat.zero_le _)
    exact ⟨x, plain, (Automaton.accepts_eq_true_iff fits plain).2 run⟩
  · intro s hs
    rw [Body.length_text, ← Body.acceptState_automaton] at hs
    obtain ⟨x, hx, front⟩ := trim.reached s hs
    obtain ⟨w, hw, back⟩ := trim.leads s hs
    have plain : ∀ c ∈ x ++ w, isMeta c = false := List.forall_mem_append.2 ⟨hx, hw⟩
    obtain ⟨states, read, ends⟩ := Automaton.exists_activeAfter fits x
    exact ⟨x, w, plain, ⟨states, read, (ends s).2 front⟩, back,
      (Automaton.accepts_eq_true_iff fits plain).2 (front.trans back)⟩

/-- The tree of `*(z|*)`. -/
def danglingStars : Body := .choice (.leading 1) (.symbol (.leading 0) 'z' rfl 0) (.leading 1) 0

/-- Behind `yz` no state of the automaton of `*(z|*)` is active, so no text completes
`yz`. The state of the `|` is active behind some other text. -/
theorem danglingStars_active_iff_viable :
    (compile "*(z|*)".toList = .ok danglingStars.automaton ∧
      (∀ c ∈ "yz".toList, isMeta c = false) ∧ 3 ≤ "*(z|*)".toList.length) ∧
    danglingStars.automaton.activeAfter "yz".toList = .ok [] ∧
    ¬ danglingStars.automaton.Viable "yz".toList ∧
    (∃ last, danglingStars.automaton.run "yz".toList = .ok last ∧ last.stopped = true) ∧
    (∃ x : List Char, (∀ c ∈ x, isMeta c = false) ∧
      danglingStars.automaton.accepts x = .ok true) ∧
    ∃ x w : List Char, (∀ c ∈ x ++ w, isMeta c = false) ∧
      (∃ states, danglingStars.automaton.activeAfter x = .ok states ∧ 3 ∈ states) ∧
      danglingStars.automaton.Run 3 w danglingStars.automaton.acceptState ∧
      danglingStars.automaton.accepts (x ++ w) = .ok true := by
  have compiled : compile "*(z|*)".toList = .ok danglingStars.automaton :=
    compile_text danglingStars
  have plain : ∀ c ∈ "yz".toList, isMeta c = false := by simp [isMeta]
  have inside : 3 ≤ "*(z|*)".toList.length := by decide
  have dead : danglingStars.automaton.activeAfter "yz".toList = .ok [] := by decide +kernel
  obtain ⟨texts, accepted, trim⟩ := activeAfter_ne_nil_iff_viable compiled
  obtain ⟨⟨states, read, viable⟩, last, simulated, stopped, -⟩ := texts "yz".toList plain
  obtain rfl : [] = states := Except.ok.inj (dead.symm.trans read)
  have stuck : ¬ danglingStars.automaton.Viable "yz".toList := fun h => viable.2 h rfl
  exact ⟨⟨compiled, plain, inside⟩, dead, stuck,
    ⟨last, simulated, stopped.2 ⟨_, List.prefix_refl _, stuck⟩⟩, accepted, trim 3 inside⟩

end EpsilonMatch
