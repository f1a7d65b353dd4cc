import EpsilonMatch.Proofs.Automaton.Simulation
/-!
# EpsilonMatch.Proofs.Automaton.Viability

When a simulation is broken off, and what that says about the rest of the text.

A text is viable if some text behind it makes the automaton accept (`Viable`). A
text that no run reads is not viable, whatever the automaton. The converse is a
matter of its moves: it holds in a trim automaton, where every state is the end of
a run from the first state and the start of a run to the accept state (`Trim`,
`viable_iff_exists_run`).

A simulation records whether it stopped early (`Progress.stopped`). It does so
exactly if no run reads some prefix of the text, and it ends without an active state
exactly if it does (`Tracks.simulate_stopped`).
-/

namespace EpsilonMatch.Automaton

variable {a : Automaton} {p next : Progress} {c : Char} {x rest : List Char} {s t : Nat}

/-! ### Viable texts -/

/-- Some text without operators can follow such that the automaton accepts. -/
def Viable (a : Automaton) (x : List Char) : Prop :=
  ∃ w, (∀ c ∈ w, isMeta c = false) ∧ a.accepts (x ++ w) = .ok true

/-- Every state is reached over some text, and over some text the accept state is
reached from it. -/
structure Trim (a : Automaton) : Prop where
  reached : ∀ s ≤ a.acceptState, ∃ x, (∀ c ∈ x, isMeta c = false) ∧ a.Run 0 x s
  leads : ∀ s ≤ a.acceptState, ∃ x, (∀ c ∈ x, isMeta c = false) ∧ a.Run s x a.acceptState

/-- Where an automaton that fits can go from its first state, it has a state. -/
theorem Run.le_acceptState (fits : a.Fits) (run : a.Run 0 x t) : t ≤ a.acceptState := by
  have inside := run.lt (by rw [fits]; exact Nat.succ_pos _)
  rw [fits] at inside
  exact Nat.le_of_lt_succ inside

/-- In a trim automaton a text is viable exactly if some run reads it. -/
theorem viable_iff_exists_run (fits : a.Fits) (trim : a.Trim)
    (plain : ∀ c ∈ x, isMeta c = false) : a.Viable x ↔ ∃ t, a.Run 0 x t := by
  constructor
  · intro viable
    obtain ⟨w, hw, accepted⟩ := viable
    have whole : a.Run 0 (x ++ w) a.acceptState :=
      (accepts_eq_true_iff fits (List.forall_mem_append.2 ⟨plain, hw⟩)).1 accepted
    obtain ⟨t, front, -⟩ := run_append_iff.1 whole
    exact ⟨t, front⟩
  · intro reads
    obtain ⟨t, front⟩ := reads
    obtain ⟨w, hw, back⟩ := trim.leads t (front.le_acceptState fits)
    have plainWhole : ∀ c ∈ x ++ w, isMeta c = false := List.forall_mem_append.2 ⟨plain, hw⟩
    exact ⟨w, hw, (accepts_eq_true_iff fits plainWhole).2 (front.trans back)⟩

/-! ### The early exit -/

theorem stopped_of_settle {work : Nat} {states : List Nat}
    (settled : a.settle work states = .ok p) : p.stopped = false := by
  obtain ⟨search, -, rfl⟩ := exists_search_of_settle settled
  rfl

theorem stopped_of_advance (advanced : a.advance p c = .ok next) : next.stopped = false := by
  unfold advance at advanced
  cases consumed : a.consume c p.active with
  | error e =>
      rw [consumed] at advanced
      cases advanced
  | ok reached =>
      rw [consumed] at advanced
      exact stopped_of_settle advanced

/-- No state is active exactly if no run reads the text so far. -/
theorem Tracks.eq_nil_iff (h : a.Tracks p x) : p.active = [] ↔ ∀ t, ¬ a.Run 0 x t := by
  rw [List.eq_nil_iff_forall_not_mem]
  exact forall_congr' fun t => not_congr (h t)

/-- From where some state is active on, the simulation of the rest of a text stops early
exactly if no run reads some prefix of the text, and ends without an active state exactly
if it stops. -/
theorem Tracks.simulate_stopped (fits : a.Fits) (h : a.Tracks p x) (alive : p.active ≠ [])
    (going : p.stopped = false) (rest : List Char) :
    ∃ last, a.simulate p rest = .ok last ∧
      (last.stopped = true ↔ ∃ y, y <+: rest ∧ ∀ t, ¬ a.Run 0 (x ++ y) t) ∧
      (last.active = [] ↔ last.stopped = true) := by
  induction rest generalizing p x with
  | nil =>
      refine ⟨p, rfl, iff_of_false (by simp [going]) fun stuck => ?_,
        iff_of_false alive (by simp [going])⟩
      obtain ⟨y, before, stuck⟩ := stuck
      rw [List.prefix_nil.1 before, List.append_nil] at stuck
      exact alive (h.eq_nil_iff.2 stuck)
  | cons c rest ih =>
      obtain ⟨next, advanced, tracks⟩ := h.advance fits (c := c)
      rw [simulate_cons advanced]
      by_cases dead : next.active = []
      · have stuck := tracks.eq_nil_iff.1 dead
        exact ⟨next.stop, by simp [dead], iff_of_true rfl ⟨[c], ⟨rest, rfl⟩, stuck⟩,
          iff_of_true dead rfl⟩
      · obtain ⟨last, simulated, stopped, ends⟩ :=
          ih tracks dead (stopped_of_advance advanced)
        refine ⟨last, by simp [dead, simulated], stopped.trans ?_, ends⟩
        constructor
        · intro stuck
          obtain ⟨y, before, stuck⟩ := stuck
          exact ⟨c :: y, (List.prefix_cons_inj c).2 before, by rwa [List.append_cons]⟩
        · intro stuck
          obtain ⟨y, before, stuck⟩ := stuck
          cases y with
          | nil =>
              rw [List.append_nil] at stuck
              exact absurd (h.eq_nil_iff.2 stuck) alive
          | cons d y =>
              obtain ⟨rfl, later⟩ := List.cons_prefix_cons.1 before
              exact ⟨y, later, by rwa [List.append_cons] at stuck⟩

/-- From the first state on, the simulation of a text stops early exactly if no run reads
some prefix of it, and ends without an active state exactly then. -/
theorem exists_run_stopped (fits : a.Fits) (plain : ∀ c ∈ x, isMeta c = false) :
    ∃ last, a.run x = .ok last ∧
      (last.stopped = true ↔ ∃ y, y <+: x ∧ ∀ t, ¬ a.Run 0 y t) ∧
      (last.active = [] ↔ last.stopped = true) := by
  obtain ⟨p, started, tracks⟩ := exists_initial fits
  have first : 0 ∈ p.active := (tracks 0).2 (.nil 0)
  obtain ⟨last, simulated, stopped, ends⟩ :=
    tracks.simulate_stopped fits (List.ne_nil_of_mem first) (stopped_of_settle started) x
  refine ⟨last, ?_, stopped, ends⟩
  rw [run, firstMeta?_eq_none_iff.2 plain, started]
  exact simulated

end EpsilonMatch.Automaton
