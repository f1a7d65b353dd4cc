import EpsilonMatch.Automaton.Run
import EpsilonMatch.Automaton.Simulation
import EpsilonMatch.Proofs.Graph.Closure
/-!
# EpsilonMatch.Proofs.Automaton.Simulation

The simulation of an automaton answers for all of its runs.

The invariant is `Tracks`: the active states are the ends of the runs that start
in the first state and read the text so far. It holds before anything is read, and
a character keeps it, since the search is exact and a run over one more
character ends in one reading move and a path (`Automaton.run_concat_iff`). Once no
state is active no run reads the text so far, hence none reads a longer one, so
it does no harm to stop there.

All this needs a graph with exactly one vertex per state (`Automaton.Fits`); its
edges are arbitrary.
-/

namespace EpsilonMatch.Automaton

variable {a : Automaton} {s t : Nat} {x y : List Char} {c : Char}

/-- The graph has one vertex per state. -/
def Fits (a : Automaton) : Prop := a.moves.vertexCount = a.acceptState + 1

/-- The symbol at a state reads a character. -/
def Reads (a : Automaton) (s : Nat) (c : Char) : Prop :=
  ∃ symbol, a.symbols[s]? = some symbol ∧ (symbol = c ∨ symbol = '.')

theorem Reads.lt (h : a.Reads s c) : s < a.acceptState := by
  obtain ⟨symbol, hs, -⟩ := h
  exact (Array.getElem?_eq_some_iff.1 hs).1

/-! ### Runs -/

theorem run_append_iff : a.Run s (x ++ y) t ↔ ∃ u, a.Run s x u ∧ a.Run u y t := by
  constructor
  · intro run
    generalize h : x ++ y = z at run
    induction run generalizing x with
    | nil s =>
        obtain ⟨rfl, rfl⟩ := List.append_eq_nil_iff.1 h
        exact ⟨s, .nil s, .nil s⟩
    | silent edge _ ih =>
        obtain ⟨u, first, second⟩ := ih h
        exact ⟨u, .silent edge first, second⟩
    | @read s t symbol c text at_state matched inside rest ih =>
        cases x with
        | nil =>
            rw [List.nil_append] at h
            subst h
            exact ⟨s, .nil s, .read at_state matched inside rest⟩
        | cons d x =>
            obtain ⟨rfl, text⟩ := List.cons.inj h
            obtain ⟨u, first, second⟩ := ih text
            exact ⟨u, .read at_state matched inside first, second⟩
  · rintro ⟨u, first, second⟩
    exact first.trans second

theorem run_nil_iff : a.Run s [] t ↔ a.moves.toGraph.Path s t := by
  constructor
  · intro run
    generalize h : [] = z at run
    induction run with
    | nil s => exact .refl s
    | silent edge _ ih => exact (Graph.Path.single edge).trans (ih h)
    | read => cases h
  · exact Run.of_path

theorem run_singleton_iff :
    a.Run s [c] t ↔ ∃ u, a.moves.toGraph.Path s u ∧ a.Reads u c ∧
      u + 1 < a.moves.vertexCount ∧ a.moves.toGraph.Path (u + 1) t := by
  constructor
  · intro run
    generalize h : [c] = z at run
    induction run with
    | nil => cases h
    | silent edge _ ih =>
        obtain ⟨u, path, rest⟩ := ih h
        exact ⟨u, (Graph.Path.single edge).trans path, rest⟩
    | @read s t symbol d text at_state matched inside rest _ =>
        obtain ⟨rfl, rfl⟩ := List.cons.inj h
        exact ⟨s, .refl s, ⟨symbol, at_state, matched⟩, inside, run_nil_iff.1 rest⟩
  · rintro ⟨u, path, ⟨symbol, at_state, matched⟩, inside, rest⟩
    exact (Run.of_path path).trans (.read at_state matched inside (Run.of_path rest))

/-- A run over one more character ends in a reading move and a path. -/
theorem run_concat_iff :
    a.Run s (x ++ [c]) t ↔ ∃ u, a.Run s x u ∧ a.Reads u c ∧ u + 1 < a.moves.vertexCount ∧
      a.moves.toGraph.Path (u + 1) t := by
  rw [run_append_iff]
  constructor
  · rintro ⟨v, first, second⟩
    obtain ⟨u, path, rest⟩ := run_singleton_iff.1 second
    exact ⟨u, by simpa using first.trans (Run.of_path path), rest⟩
  · rintro ⟨u, first, rest⟩
    exact ⟨u, first, run_singleton_iff.2 ⟨u, .refl u, rest⟩⟩

/-- Runs stay inside the vertices of the graph. -/
theorem Run.lt (run : a.Run s x t) (hs : s < a.moves.vertexCount) : t < a.moves.vertexCount := by
  induction run with
  | nil => exact hs
  | silent edge _ ih => exact ih (SealedGraph.lt_of_edge edge)
  | read _ _ inside _ ih => exact ih inside

/-! ### One step of the simulation -/

/-- The states that are reached by reading a character from states up to the
accept state. -/
theorem exists_consume {states : List Nat} (h : ∀ s ∈ states, s ≤ a.acceptState) :
    ∃ reached, a.consume c states = .ok reached ∧
      ∀ t, t ∈ reached ↔ ∃ s ∈ states, a.Reads s c ∧ t = s + 1 := by
  induction states with
  | nil => exact ⟨[], rfl, by simp⟩
  | cons s rest ih =>
      obtain ⟨reached, consumed, members⟩ := ih fun u hu => h u (List.mem_cons_of_mem s hu)
      by_cases hs : s = a.acceptState
      · refine ⟨reached, by rw [consume, if_pos hs, consumed], fun t => ?_⟩
        have silent : ¬ a.Reads s c := fun reads => absurd reads.lt (by omega)
        simp [members, silent]
      · have hlt : s < a.symbols.size := Nat.lt_of_le_of_ne (h s List.mem_cons_self) hs
        have symbol : a.symbols[s]? = some a.symbols[s] := by simp [hlt]
        have here : a.Reads s c ↔ reads a.symbols[s] c = true := by
          simp [Reads, symbol, reads_iff]
        refine ⟨if reads a.symbols[s] c then (s + 1) :: reached else reached, ?_, fun t => ?_⟩
        · rw [consume, if_neg hs, symbol]
          simp only [consumed]
          rfl
        · by_cases hread : reads a.symbols[s] c = true
          · simp [hread, members, here]
          · simp [hread, members, here]

theorem exists_search_of_settle {states : List Nat} {work : Nat} {p : Progress}
    (settled : a.settle work states = .ok p) :
    ∃ search, a.moves.toGraph.search (states.map Int.ofNat) = .ok search ∧
      p = { active := search.members, work := work + search.pops } := by
  unfold settle at settled
  cases found : a.moves.toGraph.search (states.map Int.ofNat) with
  | error e =>
      rw [found] at settled
      cases settled
  | ok search =>
      rw [found] at settled
      exact ⟨search, rfl, (Except.ok.inj settled).symm⟩

/-- Closing states under silent moves adds the ends of their paths. -/
theorem exists_settle {states : List Nat} (h : ∀ s ∈ states, s < a.moves.vertexCount)
    (work : Nat) :
    ∃ p, a.settle work states = .ok p ∧
      ∀ t, t ∈ p.active ↔ ∃ s ∈ states, a.moves.toGraph.Path s t := by
  obtain ⟨search, found, members⟩ := SealedGraph.exists_search h
  refine ⟨{ active := search.members, work := work + search.pops }, ?_, members⟩
  rw [settle, found]
  rfl

/-- The active states are the ends of the runs over the text so far. -/
def Tracks (a : Automaton) (p : Progress) (x : List Char) : Prop :=
  ∀ t, t ∈ p.active ↔ a.Run 0 x t

theorem exists_initial (fits : a.Fits) : ∃ p, a.initial = .ok p ∧ a.Tracks p [] := by
  have first : ∀ s ∈ [0], s < a.moves.vertexCount := by
    intro s hs
    rw [fits]
    simp at hs
    omega
  obtain ⟨p, settled, members⟩ := exists_settle first 0
  exact ⟨p, settled, fun t => by simp [members, run_nil_iff]⟩

/-- A character keeps the invariant. -/
theorem Tracks.advance (fits : a.Fits) {p : Progress} (h : a.Tracks p x) :
    ∃ next, a.advance p c = .ok next ∧ a.Tracks next (x ++ [c]) := by
  have inside : ∀ s ∈ p.active, s ≤ a.acceptState := by
    intro s hs
    have := ((h s).1 hs).lt (by rw [fits]; omega)
    rw [fits] at this
    omega
  obtain ⟨reached, consumed, read⟩ := exists_consume (c := c) inside
  have range : ∀ t ∈ reached, t < a.moves.vertexCount := by
    intro t ht
    obtain ⟨s, -, reads, rfl⟩ := (read t).1 ht
    have := reads.lt
    rw [fits]
    omega
  obtain ⟨next, settled, members⟩ := exists_settle range p.work
  refine ⟨next, ?_, fun t => ?_⟩
  · rw [Automaton.advance, consumed]
    exact settled
  · rw [members, run_concat_iff]
    constructor
    · rintro ⟨u, hu, path⟩
      obtain ⟨s, hs, reads, rfl⟩ := (read u).1 hu
      exact ⟨s, (h s).1 hs, reads, range _ hu, path⟩
    · rintro ⟨s, run, reads, -, path⟩
      exact ⟨s + 1, (read _).2 ⟨s, (h s).2 run, reads, rfl⟩, path⟩

/-! ### A whole text -/

theorem simulate_cons {p next : Progress} (advanced : a.advance p c = .ok next)
    (rest : List Char) :
    a.simulate p (c :: rest) =
      if next.active.isEmpty then .ok next.stop else a.simulate next rest := by
  rw [Automaton.simulate, advanced]
  rfl

/-- The simulation of the rest of a text ends with the verdict for all of it,
whether or not it leaves a part unread. -/
theorem Tracks.simulate (fits : a.Fits) {p : Progress} (h : a.Tracks p x) (rest : List Char) :
    ∃ last, a.simulate p rest = .ok last ∧
      (a.acceptState ∈ last.active ↔ a.Run 0 (x ++ rest) a.acceptState) := by
  induction rest generalizing p x with
  | nil => exact ⟨p, rfl, by simpa using h a.acceptState⟩
  | cons c rest ih =>
      obtain ⟨next, advanced, tracks⟩ := h.advance fits (c := c)
      have step := simulate_cons advanced rest
      by_cases dead : next.active = []
      · refine ⟨next.stop, by rw [step, dead]; rfl, ?_⟩
        -- no run reads the text up to `c`, so none reads it to the end
        have stuck (u : Nat) : ¬ a.Run 0 (x ++ [c]) u := by
          rw [← tracks u, dead]
          exact List.not_mem_nil
        constructor
        · intro accepted
          rw [Progress.active_stop, dead] at accepted
          exact absurd accepted List.not_mem_nil
        · intro run
          rw [List.append_cons] at run
          obtain ⟨u, front, -⟩ := run_append_iff.1 run
          exact absurd front (stuck u)
      · obtain ⟨last, simulated, verdict⟩ := ih tracks
        refine ⟨last, ?_, by simpa using verdict⟩
        rw [step, if_neg (by simpa using dead), simulated]

/-- Reading a text to its end, whatever the active states, keeps the
invariant. -/
theorem Tracks.foldlM (fits : a.Fits) {p : Progress} (h : a.Tracks p x) (rest : List Char) :
    ∃ last, rest.foldlM a.advance p = .ok last ∧ a.Tracks last (x ++ rest) := by
  induction rest generalizing p x with
  | nil => exact ⟨p, rfl, by simpa using h⟩
  | cons c rest ih =>
      obtain ⟨next, advanced, tracks⟩ := h.advance fits (c := c)
      obtain ⟨last, read, tracks⟩ := ih tracks
      refine ⟨last, ?_, by simpa using tracks⟩
      rw [List.foldlM_cons, advanced]
      exact read

theorem firstMeta?_eq_none_iff {text : List Char} :
    firstMeta? text = none ↔ ∀ c ∈ text, isMeta c = false := by
  rw [firstMeta?, List.find?_eq_none]
  constructor
  · intro h c hc
    obtain ⟨i, hi⟩ := List.mem_iff_getElem?.1 hc
    simpa using h (c, i) (List.mem_zipIdx_iff_getElem?.2 hi)
  · intro plain
    rintro ⟨c, i⟩ hc
    simpa using plain c (List.fst_mem_of_mem_zipIdx hc)

/-- A text with an operator is refused, whatever the automaton. -/
theorem accepts_of_firstMeta? {text : List Char} {i : Nat} (h : firstMeta? text = some (c, i)) :
    a.accepts text = .error (.metacharacter c i) := by
  rw [accepts, run, h]
  rfl

/-- An automaton that fits has a verdict for every text without an operator: does
some run read it? -/
theorem exists_accepts (fits : a.Fits) {text : List Char}
    (plain : ∀ c ∈ text, isMeta c = false) :
    ∃ verdict, a.accepts text = .ok verdict ∧ (verdict = true ↔ a.Recognizes text) := by
  obtain ⟨p, started, tracks⟩ := exists_initial fits
  obtain ⟨last, simulated, verdict⟩ := tracks.simulate fits text
  refine ⟨last.active.contains a.acceptState, ?_, ?_⟩
  · rw [accepts, run, firstMeta?_eq_none_iff.2 plain, started]
    show (a.simulate p text).bind _ = _
    rw [simulated]
    rfl
  · rw [List.contains_iff_mem, verdict, Recognizes, List.nil_append]

/-- An automaton that fits has a verdict, unless the text holds an operator. -/
theorem accepts_cases (fits : a.Fits) (x : List Char) :
    (∃ verdict, a.accepts x = .ok verdict) ∨ ∃ c i, a.accepts x = .error (.metacharacter c i) := by
  cases found : firstMeta? x with
  | none =>
      obtain ⟨verdict, accepted, -⟩ := exists_accepts fits (firstMeta?_eq_none_iff.1 found)
      exact .inl ⟨verdict, accepted⟩
  | some entry =>
      obtain ⟨c, i⟩ := entry
      exact .inr ⟨c, i, accepts_of_firstMeta? found⟩

theorem accepts_eq_true_iff (fits : a.Fits) (plain : ∀ c ∈ x, isMeta c = false) :
    a.accepts x = .ok true ↔ a.Recognizes x := by
  obtain ⟨verdict, accepted, recognized⟩ := exists_accepts fits plain
  rw [accepted, ← recognized]
  exact ⟨Except.ok.inj, congrArg Except.ok⟩

/-- The states that are active after a text are the ends of its runs. -/
theorem exists_activeAfter (fits : a.Fits) (text : List Char) :
    ∃ states, a.activeAfter text = .ok states ∧ ∀ t, t ∈ states ↔ a.Run 0 text t := by
  obtain ⟨p, started, tracks⟩ := exists_initial fits
  obtain ⟨last, read, tracks⟩ := tracks.foldlM fits text
  refine ⟨last.active, ?_, tracks⟩
  rw [activeAfter, started]
  show (text.foldlM a.advance p).bind _ = _
  rw [read]
  rfl

/-- **The simulation agrees with the runs.** An automaton with one vertex per
state, whatever its edges, has a verdict for every text without an operator. The
verdict is that some run reads the text to the accept state; it is the verdict of
the simulation that never stops early. -/
theorem accepts_iff_recognizes (fits : a.moves.vertexCount = a.acceptState + 1)
    {text : List Char} (plain : ∀ c ∈ text, isMeta c = false) :
    (∃ verdict, a.accepts text = .ok verdict ∧ (verdict = true ↔ a.Recognizes text)) ∧
      a.accepts text = (a.activeAfter text).map (·.contains a.acceptState) := by
  obtain ⟨verdict, accepted, recognized⟩ := exists_accepts fits plain
  obtain ⟨states, read, ends⟩ := exists_activeAfter fits text
  refine ⟨⟨verdict, accepted, recognized⟩, ?_⟩
  have same : states.contains a.acceptState = verdict := by
    rw [Bool.eq_iff_iff, List.contains_iff_mem, ends, recognized]
    rfl
  rw [accepted, read, ← same]
  rfl

/-- An automaton that no pattern is compiled to: its silent moves go round in a
circle, one of them twice, and one leaves the accept state. -/
def circular : Automaton where
  symbols := #['a', '*']
  moves := { rows := #[[1, 1], [2, 0], [0]], target_lt := by decide }

/-- The circular automaton reads two characters from its accept state on. -/
theorem circular_accepts_iff_recognizes :
    (circular.moves.vertexCount = circular.acceptState + 1 ∧
      ∀ c ∈ ['a', 'a'], isMeta c = false) ∧
    (∃ verdict, circular.accepts ['a', 'a'] = .ok verdict ∧
      (verdict = true ↔ circular.Recognizes ['a', 'a'])) ∧
    circular.accepts ['a', 'a'] =
      (circular.activeAfter ['a', 'a']).map (·.contains circular.acceptState) := by
  have plain : ∀ c ∈ ['a', 'a'], isMeta c = false := by simp [isMeta]
  exact ⟨⟨rfl, plain⟩, accepts_iff_recognizes rfl plain⟩

end EpsilonMatch.Automaton
