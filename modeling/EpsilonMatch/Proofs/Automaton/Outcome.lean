import EpsilonMatch.Proofs.Automaton.Simulation
import EpsilonMatch.Proofs.Graph.Reachability
/-!
# EpsilonMatch.Proofs.Automaton.Outcome

How a simulation ends on a graph of any size.

Two things may go wrong while a text is read (`Fault`). If the graph has vertices behind
the accept state, one of them may be active when a character comes, and it has no symbol.
If the graph has too few vertices, reading may lead behind the last one. Which of the two
can happen is a matter of the sizes alone, and then there is just one error that can come
of it (`Fault.unique`). So it does not matter in which order the active states and the
states reached from them are gone through, and `acceptsIn` takes any order
(`SetOrder`) instead of the ascending one.

The proof is that of `EpsilonMatch.Proofs.Automaton.Simulation`, with the faults in it:
`Tracks.advanceIn_cases` is the step, and `Tracks.simulateIn_of_fault` and
`Tracks.simulateIn_of_sound` are the inductions over the text. Breaking off when no state is
active hides no fault, since a fault needs a run over what was read so far.
-/

namespace EpsilonMatch.Automaton

/-! ### Orders -/

/-- An order in which a simulation goes through its sets. At each position of the text, it
arranges the active states and the states that are reached from them. -/
structure SetOrder where
  active : Nat → List Nat → List Nat
  reached : Nat → List Nat → List Nat
  active_perm : ∀ position states, (active position states).Perm states
  reached_perm : ∀ position states, (reached position states).Perm states

/-- The states as they are listed. -/
def SetOrder.listed : SetOrder where
  active _ states := states
  reached _ states := states
  active_perm _ states := .refl states
  reached_perm _ states := .refl states

/-- The states the other way round. -/
def SetOrder.reversed : SetOrder where
  active _ := List.reverse
  reached _ := List.reverse
  active_perm _ := List.reverse_perm
  reached_perm _ := List.reverse_perm

/-- Reads the character at a position, in the given order. -/
def advanceIn (a : Automaton) (order : SetOrder) (position : Nat) (p : Progress) (c : Char) :
    Except MatchError Progress := do
  let reached ← a.consume c (order.active position p.active)
  a.settle p.work (order.reached position reached)

/-- Reads a text that begins at a position, in the given order. -/
def simulateIn (a : Automaton) (order : SetOrder) (position : Nat) (p : Progress) :
    List Char → Except MatchError Progress
  | [] => .ok p
  | c :: rest => do
    let next ← a.advanceIn order position p c
    if next.active.isEmpty then return next.stop
    else a.simulateIn order (position + 1) next rest

/-- Does the automaton read the whole text, in the given order? -/
def acceptsIn (a : Automaton) (order : SetOrder) (text : List Char) : Except MatchError Bool :=
  match firstMeta? text with
  | some (c, position) => .error (.metacharacter c position)
  | none => do
    let last ← a.simulateIn order 0 (← a.initial) text
    return last.active.contains a.acceptState

variable {a : Automaton} {p next : Progress} {x rest : List Char} {c : Char} {e : MatchError}
  {order : SetOrder} {position : Nat}

theorem simulateIn_listed (a : Automaton) (position : Nat) (p : Progress) (text : List Char) :
    a.simulateIn .listed position p text = a.simulate p text := by
  induction text generalizing position p with
  | nil => rfl
  | cons c rest ih =>
      simp only [simulateIn, simulate, ih]
      rfl

/-- The simulation itself goes through its sets as they are listed. -/
theorem acceptsIn_listed (a : Automaton) (text : List Char) :
    a.acceptsIn .listed text = a.accepts text := by
  unfold acceptsIn accepts run
  cases firstMeta? text with
  | some entry => rfl
  | none =>
      simp only [simulateIn_listed]
      cases a.initial with
      | error e => rfl
      | ok p => rfl

/-! ### Faults -/

/-- What goes wrong if, after `x` has been read, the character `c` comes. -/
inductive Fault (a : Automaton) (x : List Char) (c : Char) : MatchError → Prop
  /-- A state behind the accept state is active and has no symbol. -/
  | past {s : Nat} (run : a.Run 0 x s) (behind : a.acceptState < s) : Fault a x c .pastPattern
  /-- The last vertex is active, and reading leads behind it. -/
  | leaves (run : a.Run 0 x (a.moves.vertexCount - 1))
    (reads : a.Reads (a.moves.vertexCount - 1) c) :
    Fault a x c (.graph (.notVertex a.moves.vertexCount a.moves.vertexCount))

/-- A fault of the first kind takes a graph that is too large. -/
theorem lt_of_past (first : 0 < a.moves.vertexCount) {s : Nat} (run : a.Run 0 x s)
    (behind : a.acceptState < s) : a.acceptState + 1 < a.moves.vertexCount := by
  have := run.lt first
  omega

/-- A fault of the second kind takes a graph that is too small. -/
theorem le_of_leaves (reads : a.Reads (a.moves.vertexCount - 1) c) :
    a.moves.vertexCount ≤ a.acceptState := by
  have := reads.lt
  omega

/-- The faults of an automaton all have one error. -/
theorem Fault.unique (first : 0 < a.moves.vertexCount) {y : List Char} {d : Char}
    {e' : MatchError} (fault : a.Fault x c e) (fault' : a.Fault y d e') : e = e' := by
  cases fault with
  | past run behind =>
      have large := lt_of_past first run behind
      cases fault' with
      | past => rfl
      | leaves _ reads =>
          have := le_of_leaves reads
          omega
  | leaves _ reads =>
      have small := le_of_leaves reads
      cases fault' with
      | past run behind =>
          have := lt_of_past first run behind
          omega
      | leaves => rfl

/-! ### One step -/

/-- A state behind the accept state is found, wherever it stands among the others. -/
theorem consume_of_past {states : List Nat} {s : Nat} (mem : s ∈ states)
    (behind : a.acceptState < s) : a.consume c states = .error .pastPattern := by
  induction states with
  | nil => exact absurd mem List.not_mem_nil
  | cons u rest ih =>
      rw [consume]
      by_cases hu : u = a.acceptState
      · have later : s ∈ rest := (List.mem_cons.1 mem).resolve_left fun h => by omega
        rw [if_pos hu, ih later]
      · rw [if_neg hu]
        cases symbol : a.symbols[u]? with
        | none => rfl
        | some symbol' =>
            have below : u < a.acceptState := (Array.getElem?_eq_some_iff.1 symbol).1
            have later : s ∈ rest := (List.mem_cons.1 mem).resolve_left fun h => by omega
            simp only [ih later]
            rfl

/-- If reading leads behind the last vertex, that is reported, wherever the state stands
among the others. -/
theorem settle_of_leaves {states : List Nat} (range : ∀ s ∈ states, s ≤ a.moves.vertexCount)
    (leaves : a.moves.vertexCount ∈ states) (work : Nat) :
    a.settle work states =
      .error (.graph (.notVertex a.moves.vertexCount a.moves.vertexCount)) := by
  obtain ⟨front, back, rfl, before⟩ := List.eq_append_cons_of_mem leaves
  have inside : a.moves.toGraph.Inside (front.map Int.ofNat) := by
    intro s hs
    obtain ⟨u, hu, rfl⟩ := List.mem_map.1 hs
    have le := range u (List.mem_append_left _ hu)
    have ne : u ≠ a.moves.vertexCount := fun h => before (h ▸ hu)
    exact ⟨Int.natCast_nonneg u, Int.ofNat_lt.2 (Nat.lt_of_le_of_ne le ne)⟩
  have stranger : ¬ (0 ≤ Int.ofNat a.moves.vertexCount ∧
      Int.ofNat a.moves.vertexCount < a.moves.toGraph.vertexCount) :=
    fun h => Int.lt_irrefl _ h.2
  rw [settle, List.map_append, List.map_cons, Graph.search_of_stranger inside stranger]
  rfl

/-- One character: there is a fault and its error comes out, or there is none and the active
states are again the ends of the runs. -/
theorem Tracks.advanceIn_cases (first : 0 < a.moves.vertexCount) (h : a.Tracks p x)
    (order : SetOrder) (position : Nat) (c : Char) :
    (∃ e, a.Fault x c e ∧ a.advanceIn order position p c = .error e) ∨
      (∀ e, ¬ a.Fault x c e) ∧
        ∃ next, a.advanceIn order position p c = .ok next ∧ a.Tracks next (x ++ [c]) := by
  have active : ∀ s, s ∈ order.active position p.active ↔ a.Run 0 x s := fun s =>
    (order.active_perm position p.active).mem_iff.trans (h s)
  by_cases past : ∃ s, a.Run 0 x s ∧ a.acceptState < s
  · obtain ⟨s, run, behind⟩ := past
    refine .inl ⟨_, .past run behind, ?_⟩
    rw [Automaton.advanceIn, consume_of_past ((active s).2 run) behind]
    rfl
  · have below : ∀ s ∈ order.active position p.active, s ≤ a.acceptState := fun s hs =>
      Nat.le_of_not_lt fun behind => past ⟨s, (active s).1 hs, behind⟩
    obtain ⟨reached, consumed, members⟩ := exists_consume (c := c) below
    have matched : ∀ t, t ∈ order.reached position reached ↔
        ∃ s, a.Run 0 x s ∧ a.Reads s c ∧ t = s + 1 := by
      intro t
      rw [(order.reached_perm position reached).mem_iff, members]
      simp only [active]
    have step : a.advanceIn order position p c =
        a.settle p.work (order.reached position reached) := by
      rw [Automaton.advanceIn, consumed]
      rfl
    by_cases leaves : a.Run 0 x (a.moves.vertexCount - 1) ∧ a.Reads (a.moves.vertexCount - 1) c
    · refine .inl ⟨_, .leaves leaves.1 leaves.2, ?_⟩
      rw [step]
      refine settle_of_leaves (fun t ht => ?_) ((matched _).2 ⟨_, leaves.1, leaves.2, ?_⟩) _
      · obtain ⟨s, run, -, rfl⟩ := (matched t).1 ht
        exact run.lt first
      · omega
    · -- the states that are reached are vertices, since the last vertex does not read `c`
      have range : ∀ t ∈ order.reached position reached, t < a.moves.vertexCount := by
        intro t ht
        obtain ⟨s, run, reads, rfl⟩ := (matched t).1 ht
        have lt := run.lt first
        have ne : s ≠ a.moves.vertexCount - 1 := by
          intro last
          subst last
          exact leaves ⟨run, reads⟩
        omega
      obtain ⟨next, settled, ends⟩ := exists_settle range p.work
      refine .inr ⟨?_, next, step.trans settled, fun t => ?_⟩
      · intro e fault
        cases fault with
        | past run behind => exact past ⟨_, run, behind⟩
        | leaves run reads => exact leaves ⟨run, reads⟩
      · rw [ends, run_concat_iff]
        constructor
        · intro reaches
          obtain ⟨u, hu, path⟩ := reaches
          obtain ⟨s, run, reads, rfl⟩ := (matched u).1 hu
          exact ⟨s, run, reads, range _ hu, path⟩
        · intro reaches
          obtain ⟨s, run, reads, -, path⟩ := reaches
          exact ⟨s + 1, (matched _).2 ⟨s, run, reads, rfl⟩, path⟩

/-! ### A whole text -/

theorem simulateIn_cons_of_ok (advanced : a.advanceIn order position p c = .ok next)
    (rest : List Char) :
    a.simulateIn order position p (c :: rest) =
      if next.active.isEmpty then .ok next.stop
      else a.simulateIn order (position + 1) next rest := by
  rw [simulateIn, advanced]
  rfl

theorem simulateIn_cons_of_error (failed : a.advanceIn order position p c = .error e)
    (rest : List Char) : a.simulateIn order position p (c :: rest) = .error e := by
  rw [simulateIn, failed]
  rfl

/-- A fault somewhere in the rest of a text comes out, unless the same error came before. -/
theorem Tracks.simulateIn_of_fault (first : 0 < a.moves.vertexCount) (h : a.Tracks p x)
    {y z : List Char} (fault : a.Fault (x ++ y) c e) :
    a.simulateIn order position p (y ++ c :: z) = .error e := by
  induction y generalizing p x position with
  | nil =>
      rw [List.append_nil] at fault
      rcases h.advanceIn_cases first order position c with ⟨e', fault', failed⟩ | ⟨sound, -⟩
      · rw [fault.unique first fault']
        exact simulateIn_cons_of_error failed z
      · exact absurd fault (sound e)
  | cons d y ih =>
      rcases h.advanceIn_cases first order position d with
        ⟨e', fault', failed⟩ | ⟨-, next, advanced, tracks⟩
      · rw [fault.unique first fault']
        exact simulateIn_cons_of_error failed _
      · have fault' : a.Fault ((x ++ [d]) ++ y) c e := by simpa using fault
        -- a run leads to the fault, so some state is active on the way
        obtain ⟨u, run⟩ : ∃ u, a.Run 0 ((x ++ [d]) ++ y) u := by
          cases fault' with
          | past run _ => exact ⟨_, run⟩
          | leaves run _ => exact ⟨_, run⟩
        obtain ⟨s, front, -⟩ := run_append_iff.1 run
        have alive : next.active ≠ [] := List.ne_nil_of_mem ((tracks s).2 front)
        rw [List.cons_append, simulateIn_cons_of_ok advanced, if_neg (by simpa using alive)]
        exact ih tracks fault'

/-- Without a fault, the rest of a text is read, and the accept state is active at the end
exactly if a run over all of the text ends there. -/
theorem Tracks.simulateIn_of_sound (first : 0 < a.moves.vertexCount) (h : a.Tracks p x)
    (sound : ∀ y c z, rest = y ++ c :: z → ∀ e, ¬ a.Fault (x ++ y) c e) :
    ∃ last, a.simulateIn order position p rest = .ok last ∧
      (a.acceptState ∈ last.active ↔ a.Run 0 (x ++ rest) a.acceptState) := by
  induction rest generalizing p x position with
  | nil => exact ⟨p, rfl, by simpa using h a.acceptState⟩
  | cons c rest ih =>
      rcases h.advanceIn_cases first order position c with
        ⟨e, fault, -⟩ | ⟨-, next, advanced, tracks⟩
      · exact absurd (by simpa using fault) (sound [] c rest rfl e)
      · rw [simulateIn_cons_of_ok advanced, List.append_cons]
        by_cases dead : next.active = []
        · refine ⟨next.stop, by simp [dead], iff_of_false (by simp [dead]) ?_⟩
          intro run
          obtain ⟨u, front, -⟩ := run_append_iff.1 run
          have : u ∈ next.active := (tracks u).2 front
          simp [dead] at this
        · have sound' : ∀ y d z, rest = y ++ d :: z → ∀ e, ¬ a.Fault ((x ++ [c]) ++ y) d e := by
            intro y d z split e
            have := sound (c :: y) d z (by rw [split, List.cons_append]) e
            simpa using this
          have later : ∃ last, a.simulateIn order (position + 1) next rest = .ok last ∧ _ :=
            ih tracks sound'
          obtain ⟨last, simulated, verdict⟩ := later
          exact ⟨last, by simp [dead, simulated], verdict⟩

theorem exists_initial_of_pos (first : 0 < a.moves.vertexCount) :
    ∃ p, a.initial = .ok p ∧ a.Tracks p [] := by
  have range : ∀ s ∈ [0], s < a.moves.vertexCount := by simpa using first
  obtain ⟨p, settled, members⟩ := exists_settle range 0
  exact ⟨p, settled, fun t => by simp [members, run_nil_iff]⟩

theorem acceptsIn_of_initial {text : List Char} (plain : ∀ c ∈ text, isMeta c = false)
    (started : a.initial = .ok p) :
    a.acceptsIn order text =
      (a.simulateIn order 0 p text).map (·.active.contains a.acceptState) := by
  rw [acceptsIn, firstMeta?_eq_none_iff.2 plain, started]
  rfl

/-- A fault occurs somewhere in a text. -/
def FaultIn (a : Automaton) (text : List Char) (e : MatchError) : Prop :=
  ∃ y c z, text = y ++ c :: z ∧ a.Fault y c e

theorem acceptsIn_of_faultIn (first : 0 < a.moves.vertexCount) {text : List Char}
    (plain : ∀ c ∈ text, isMeta c = false) (fault : a.FaultIn text e) :
    a.acceptsIn order text = .error e := by
  obtain ⟨y, c, z, rfl, fault⟩ := fault
  obtain ⟨p, started, tracks⟩ := exists_initial_of_pos first
  rw [acceptsIn_of_initial plain started, tracks.simulateIn_of_fault first fault]
  rfl

theorem exists_acceptsIn_of_sound (first : 0 < a.moves.vertexCount) {text : List Char}
    (plain : ∀ c ∈ text, isMeta c = false) (sound : ∀ e, ¬ a.FaultIn text e) :
    ∃ verdict, a.acceptsIn order text = .ok verdict ∧ (verdict = true ↔ a.Recognizes text) := by
  obtain ⟨p, started, tracks⟩ := exists_initial_of_pos first
  have nowhere : ∀ y c z, text = y ++ c :: z → ∀ e, ¬ a.Fault ([] ++ y) c e := by
    intro y c z split e fault
    exact sound e ⟨y, c, z, split, fault⟩
  obtain ⟨last, simulated, verdict⟩ := tracks.simulateIn_of_sound first nowhere
  refine ⟨last.active.contains a.acceptState, ?_, ?_⟩
  · rw [acceptsIn_of_initial plain started, simulated]
    rfl
  · rw [List.contains_iff_mem, verdict, Recognizes, List.nil_append]

/-! ### Active states by position -/

/-- Some run over the first `k` characters of a text ends in the state. -/
def ActiveAt (a : Automaton) (text : List Char) (k s : Nat) : Prop :=
  a.Run 0 (text.take k) s

theorem exists_split_iff {text : List Char} {P : List Char → Char → Prop} :
    (∃ y c z, text = y ++ c :: z ∧ P y c) ↔ ∃ k c, text[k]? = some c ∧ P (text.take k) c := by
  constructor
  · intro split
    obtain ⟨y, c, z, rfl, holds⟩ := split
    exact ⟨y.length, c, by simp, by simpa using holds⟩
  · intro position
    obtain ⟨k, c, hc, holds⟩ := position
    obtain ⟨hk, rfl⟩ := List.getElem?_eq_some_iff.1 hc
    exact ⟨text.take k, text[k], text.drop (k + 1), by simp, holds⟩

theorem faultIn_past_iff {text : List Char} :
    a.FaultIn text .pastPattern ↔
      ∃ k < text.length, ∃ s, a.acceptState < s ∧ a.ActiveAt text k s := by
  rw [FaultIn, exists_split_iff]
  constructor
  · intro fault
    obtain ⟨k, c, hc, fault⟩ := fault
    cases fault with
    | past run behind => exact ⟨k, (List.getElem?_eq_some_iff.1 hc).1, _, behind, run⟩
  · intro active
    obtain ⟨k, hk, s, behind, run⟩ := active
    exact ⟨k, text[k], List.getElem?_eq_getElem hk, .past run behind⟩

theorem faultIn_leaves_iff {text : List Char} :
    a.FaultIn text (.graph (.notVertex a.moves.vertexCount a.moves.vertexCount)) ↔
      ∃ k c, text[k]? = some c ∧ a.ActiveAt text k (a.moves.vertexCount - 1) ∧
        a.Reads (a.moves.vertexCount - 1) c := by
  rw [FaultIn, exists_split_iff]
  constructor
  · intro fault
    obtain ⟨k, c, hc, fault⟩ := fault
    cases fault with
    | leaves run reads => exact ⟨k, c, hc, run, reads⟩
  · intro active
    obtain ⟨k, c, hc, run, reads⟩ := active
    exact ⟨k, c, hc, .leaves run reads⟩

/-- Every fault in a text is of one of the two kinds, according to the sizes. -/
theorem FaultIn.cases (first : 0 < a.moves.vertexCount) {text : List Char}
    (fault : a.FaultIn text e) :
    (e = .pastPattern ∧ a.acceptState + 1 < a.moves.vertexCount) ∨
      e = .graph (.notVertex a.moves.vertexCount a.moves.vertexCount) ∧
        a.moves.vertexCount ≤ a.acceptState := by
  obtain ⟨y, c, z, -, fault⟩ := fault
  cases fault with
  | past run behind => exact .inl ⟨rfl, lt_of_past first run behind⟩
  | leaves _ reads => exact .inr ⟨rfl, le_of_leaves reads⟩

/-! ### Summary -/

theorem firstMeta?_of_first {y z : List Char} (before : ∀ d ∈ y, isMeta d = false)
    (operator : isMeta c = true) : firstMeta? (y ++ c :: z) = some (c, y.length) := by
  have none : y.zipIdx.find? (fun entry => isMeta entry.1) = none :=
    firstMeta?_eq_none_iff.2 before
  rw [firstMeta?, List.zipIdx_append, List.find?_append, none]
  simp [operator]

/-- On a graph without vertices there is not even a first state. -/
theorem acceptsIn_of_empty (empty : a.moves.vertexCount = 0) {text : List Char}
    (plain : ∀ c ∈ text, isMeta c = false) :
    a.acceptsIn order text = .error (.graph (.notVertex 0 0)) := by
  have leaves : a.moves.vertexCount ∈ [0] := by simp [empty]
  have started := settle_of_leaves (a := a) (fun s hs => by simp_all) leaves 0
  rw [acceptsIn, firstMeta?_eq_none_iff.2 plain]
  show a.initial.bind _ = _
  rw [initial, started, empty]
  rfl

/-- Too few vertices: the simulation leaves the graph, or the accept state is no vertex. -/
theorem acceptsIn_of_small (first : 0 < a.moves.vertexCount)
    (small : a.moves.vertexCount ≤ a.acceptState) {text : List Char}
    (plain : ∀ c ∈ text, isMeta c = false)
    (sound : ¬ a.FaultIn text (.graph (.notVertex a.moves.vertexCount a.moves.vertexCount))) :
    a.acceptsIn order text = .ok false := by
  have none : ∀ e, ¬ a.FaultIn text e := by
    intro e fault
    rcases fault.cases first with ⟨-, large⟩ | ⟨rfl, -⟩
    · omega
    · exact sound fault
  obtain ⟨verdict, accepted, recognized⟩ := exists_acceptsIn_of_sound first plain none
  rw [accepted]
  cases verdict with
  | false => rfl
  | true =>
      have := (recognized.1 rfl).lt first
      omega

/-- In whatever order the sets are gone through, the outcome is the same. -/
theorem acceptsIn_eq_accepts (a : Automaton) (order : SetOrder) (text : List Char) :
    a.acceptsIn order text = a.accepts text := by
  rw [← acceptsIn_listed]
  cases found : firstMeta? text with
  | some entry => rw [acceptsIn, acceptsIn, found]
  | none =>
      have plain := firstMeta?_eq_none_iff.1 found
      rcases Nat.eq_zero_or_pos a.moves.vertexCount with empty | first
      · rw [acceptsIn_of_empty empty plain, acceptsIn_of_empty empty plain]
      · by_cases fault : ∃ e, a.FaultIn text e
        · obtain ⟨e, fault⟩ := fault
          rw [acceptsIn_of_faultIn first plain fault, acceptsIn_of_faultIn first plain fault]
        · have sound : ∀ e, ¬ a.FaultIn text e := fun e he => fault ⟨e, he⟩
          obtain ⟨v, accepted, meaning⟩ := exists_acceptsIn_of_sound first plain sound
          obtain ⟨v', accepted', meaning'⟩ := exists_acceptsIn_of_sound first plain sound
          have same : v = v' := by
            rw [Bool.eq_iff_iff, meaning, meaning']
          rw [accepted, accepted', same]

/-- The vertex behind the last one, as it is named in a refusal. -/
theorem message_notVertex_behind {n : Nat} (first : 1 ≤ n) :
    (MatchError.graph (.notVertex n n)).message =
      "vertex " ++ toString n ++ " is not between 0 and " ++ toString (n - 1) := by
  have last : (n : Int) - 1 = ((n - 1 : Nat) : Int) := by omega
  show "vertex " ++ toString (n : Int) ++ " is not between 0 and " ++ toString ((n : Int) - 1) = _
  rw [last]
  rfl

/-- **How a simulation ends on a graph of any size.** The order in which it goes through its
sets makes no difference. A text with an operator is refused with the first one, whatever the
graph. For any other text it depends on the number of vertices: without vertices there is no
first state. With one of `1` to `acceptState` vertices, the text is refused if at some
character the last vertex is active and reads it, and not accepted otherwise. With one vertex
per state there is a verdict. With more there is a verdict too, unless a state behind the
accept state is active when a character comes. Each refusal is given with its wording. -/
theorem accepts_outcome (a : Automaton) (text : List Char) :
    (∀ order : SetOrder, a.acceptsIn order text = a.accepts text) ∧
    (∀ y c z, text = y ++ c :: z → (∀ d ∈ y, isMeta d = false) → isMeta c = true →
      a.accepts text = .error (.metacharacter c y.length) ∧
      (MatchError.metacharacter c y.length).message =
        "text contains the metacharacter '" ++ String.singleton c ++ "' at position " ++
          toString y.length) ∧
    ((∀ c ∈ text, isMeta c = false) →
      (a.moves.vertexCount = 0 → a.accepts text = .error (.graph (.notVertex 0 0)) ∧
        (MatchError.graph (.notVertex 0 0)).message = "vertex 0 is not between 0 and -1") ∧
      (1 ≤ a.moves.vertexCount → a.moves.vertexCount ≤ a.acceptState →
        (a.accepts text =
            .error (.graph (.notVertex a.moves.vertexCount a.moves.vertexCount)) ↔
          ∃ k c, text[k]? = some c ∧ a.ActiveAt text k (a.moves.vertexCount - 1) ∧
            a.Reads (a.moves.vertexCount - 1) c) ∧
        (a.accepts text = .ok false ↔
          ¬ ∃ k c, text[k]? = some c ∧ a.ActiveAt text k (a.moves.vertexCount - 1) ∧
            a.Reads (a.moves.vertexCount - 1) c) ∧
        (MatchError.graph (.notVertex a.moves.vertexCount a.moves.vertexCount)).message =
          "vertex " ++ toString a.moves.vertexCount ++ " is not between 0 and " ++
            toString (a.moves.vertexCount - 1)) ∧
      (a.moves.vertexCount = a.acceptState + 1 →
        ∃ verdict, a.accepts text = .ok verdict ∧
          (verdict = true ↔ a.ActiveAt text text.length a.acceptState)) ∧
      (a.acceptState + 1 < a.moves.vertexCount →
        (a.accepts text = .error .pastPattern ↔
          ∃ k < text.length, ∃ s, a.acceptState < s ∧ a.ActiveAt text k s) ∧
        MatchError.pastPattern.message = "string index out of range" ∧
        ((¬ ∃ k < text.length, ∃ s, a.acceptState < s ∧ a.ActiveAt text k s) →
          ∃ verdict, a.accepts text = .ok verdict ∧
            (verdict = true ↔ a.ActiveAt text text.length a.acceptState)))) := by
  refine ⟨fun order => a.acceptsIn_eq_accepts order text, ?_, fun plain => ⟨?_, ?_, ?_, ?_⟩⟩
  · intro y c z whole before operator
    rw [whole]
    exact ⟨accepts_of_firstMeta? (firstMeta?_of_first before operator), rfl⟩
  · intro empty
    rw [← acceptsIn_listed]
    exact ⟨acceptsIn_of_empty empty plain, rfl⟩
  · intro first small
    rw [← acceptsIn_listed, ← faultIn_leaves_iff]
    by_cases fault : a.FaultIn text (.graph (.notVertex a.moves.vertexCount a.moves.vertexCount))
    · have failed : a.acceptsIn .listed text = _ := acceptsIn_of_faultIn first plain fault
      exact ⟨iff_of_true failed fault, iff_of_false (by simp [failed]) (not_not_intro fault),
        message_notVertex_behind first⟩
    · have refused : a.acceptsIn .listed text = _ := acceptsIn_of_small first small plain fault
      exact ⟨iff_of_false (by simp [refused]) fault, iff_of_true refused fault,
        message_notVertex_behind first⟩
  · intro fits
    obtain ⟨verdict, accepted, recognized⟩ := exists_accepts fits plain
    refine ⟨verdict, accepted, ?_⟩
    rw [recognized, ActiveAt, List.take_length, Recognizes]
  · intro large
    have first : 0 < a.moves.vertexCount := by omega
    rw [← acceptsIn_listed, ← faultIn_past_iff, ActiveAt, List.take_length]
    by_cases fault : a.FaultIn text .pastPattern
    · have failed : a.acceptsIn .listed text = _ := acceptsIn_of_faultIn first plain fault
      exact ⟨iff_of_true failed fault, rfl, fun sound => absurd fault sound⟩
    · have sound : ∀ e, ¬ a.FaultIn text e := by
        intro e he
        rcases he.cases first with ⟨rfl, -⟩ | ⟨-, small⟩
        · exact fault he
        · omega
      have answered : ∃ verdict, a.acceptsIn .listed text = .ok verdict ∧ _ :=
        exists_acceptsIn_of_sound first plain sound
      obtain ⟨verdict, accepted, recognized⟩ := answered
      exact ⟨iff_of_false (by simp [accepted]) fault, rfl,
        fun _ => ⟨verdict, accepted, recognized⟩⟩

/-- One symbol, and one vertex only. -/
def tooSmall : Automaton where
  symbols := #['d']
  moves := { rows := #[[]], target_lt := by decide }

/-- One symbol, and a silent move to a vertex behind the accept state. -/
def tooLarge : Automaton where
  symbols := #['d']
  moves := { rows := #[[2], [], []], target_lt := by decide }

/-- Reading `d` leads out of the smaller graph, and `e` is refused. In the larger one the
vertex behind the accept state is active when `d` comes, but does no harm at the end. A text
with an operator is refused by either. -/
theorem misfits_accepts_outcome :
    (tooSmall.moves.vertexCount = 1 ∧ tooSmall.accepts ['d'] = .error (.graph (.notVertex 1 1)) ∧
      (MatchError.graph (.notVertex 1 1)).message = "vertex 1 is not between 0 and 0" ∧
      tooSmall.accepts ['e'] = .ok false) ∧
    (tooLarge.moves.vertexCount = 3 ∧ tooLarge.accepts ['d'] = .error .pastPattern ∧
      tooLarge.acceptsIn .reversed ['d'] = .error .pastPattern ∧
      ∃ verdict, tooLarge.accepts [] = .ok verdict ∧
        (verdict = true ↔ tooLarge.ActiveAt [] 0 1)) ∧
    tooLarge.accepts ['d', ')', '*'] = .error (.metacharacter ')' 1) ∧
      (MatchError.metacharacter ')' 1).message =
        "text contains the metacharacter ')' at position 1" := by
  have plain : ∀ c ∈ ['d'], isMeta c = false := by simp [isMeta]
  have other : ∀ c ∈ ['e'], isMeta c = false := by simp [isMeta]
  obtain ⟨-, -, small⟩ := accepts_outcome tooSmall ['d']
  obtain ⟨-, -, small'⟩ := accepts_outcome tooSmall ['e']
  obtain ⟨orders, -, large⟩ := accepts_outcome tooLarge ['d']
  obtain ⟨-, -, none⟩ := accepts_outcome tooLarge []
  obtain ⟨-, first, -⟩ := accepts_outcome tooLarge ['d', ')', '*']
  have beyond : ∃ k < ['d'].length, ∃ s, 1 < s ∧ tooLarge.ActiveAt ['d'] k s :=
    ⟨0, by decide, 2, by decide, .silent ⟨[2], rfl, by decide⟩ (.nil 2)⟩
  have failed : tooLarge.accepts ['d'] = .error .pastPattern :=
    ((large plain).2.2.2 (by decide)).1.2 beyond
  refine ⟨⟨rfl, ?_, ?_, ?_⟩, ⟨rfl, failed, (orders _).trans failed, ?_⟩, ?_⟩
  · exact (((small plain).2.1 (by decide) (by decide)).1).2
      ⟨0, 'd', rfl, .nil 0, 'd', rfl, by decide⟩
  · exact ((small plain).2.1 (by decide) (by decide)).2.2
  · refine (((small' other).2.1 (by decide) (by decide)).2.1).2 ?_
    intro leaves
    obtain ⟨k, c, hc, -, symbol, hs, matched⟩ := leaves
    obtain rfl : 'd' = symbol := Option.some.inj hs
    cases k with
    | zero =>
        obtain rfl : 'e' = c := Option.some.inj hc
        exact absurd matched (by decide)
    | succ k => cases hc
  · refine ((none fun c hc => absurd hc List.not_mem_nil).2.2.2 (by decide)).2.2 ?_
    intro behind
    obtain ⟨k, hk, -⟩ := behind
    exact absurd hk (Nat.not_lt_zero k)
  · exact first ['d'] ')' ['*'] rfl (by simp [isMeta]) rfl

end EpsilonMatch.Automaton
