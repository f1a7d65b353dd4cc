import EpsilonMatch.Proofs.Automaton.Outcome
import EpsilonMatch.Proofs.Graph.Cost
import EpsilonMatch.Proofs.Pattern.Rows
import Mathlib.Algebra.Order.BigOperators.Group.List
import Mathlib.Algebra.Order.Ring.Nat
/-!
# EpsilonMatch.Proofs.Automaton.Cost

What it costs to read a text.

A simulation makes one search before it reads and one for each character. Each of them costs at
most its sources and the silent moves (`Graph.exists_trace_of_search`). There are never more
sources than states that read something, since a state that reads an ordinary character has an
ordinary symbol (`length_consume_le`). A symbol that reads adds no silent move, and any other adds
at most three; so over a compiled pattern, sources and moves together are at most three to a
symbol (`moveCount_add_countP_le`).

`Searched` keeps account of the searches one by one, for any order in which the states are gone
through, and `Searched.simulateIn` shows that the work recorded by a simulation is their sum.
-/

namespace EpsilonMatch

/-! ### Symbols that read, and symbols that move -/

/-- A character that is no operator is only read by symbols that are none. -/
theorem plain_of_reads {symbol c : Char} (plain : isMeta c = false) (h : reads symbol c = true) :
    isMeta symbol = false := by
  cases reads_iff.1 h with
  | inl same => rw [same, plain]
  | inr any => rw [any]; rfl

theorem moveCount_star (y : List Char) : moveCount ('*' :: y) = 3 + moveCount y :=
  moveCount_append ['*'] y

/-- A symbol reads or has silent moves, three at most. -/
theorem moveCount_add_countP_le (p : List Char) :
    moveCount p + p.countP (!isMeta ·) ≤ 3 * p.length := by
  induction p with
  | nil => exact Nat.le_refl _
  | cons c rest ih =>
      rcases char_cases c with plain | rfl | rfl | rfl | rfl
      · rw [moveCount_plain plain, List.countP_cons_of_pos (by simp [plain]), List.length_cons]
        omega
      · show moveCount ('*' :: rest) + rest.countP (!isMeta ·) ≤ 3 * (rest.length + 1)
        rw [moveCount_star]
        omega
      · show moveCount ('(' :: rest) + rest.countP (!isMeta ·) ≤ 3 * (rest.length + 1)
        rw [moveCount_open]
        omega
      · show moveCount ('|' :: rest) + rest.countP (!isMeta ·) ≤ 3 * (rest.length + 1)
        rw [moveCount_bar]
        omega
      · show moveCount (')' :: rest) + rest.countP (!isMeta ·) ≤ 3 * (rest.length + 1)
        rw [moveCount_close]
        omega

namespace Automaton

variable {a : Automaton} {x rest text : List Char} {c : Char} {active states costs : List Nat}
  {order : SetOrder} {position : Nat} {p last : Progress}

/-- Does the state have a symbol that is no operator? -/
def mayRead (a : Automaton) (s : Nat) : Bool := a.symbols[s]?.any (!isMeta ·)

/-- How many symbols are no operators. -/
def readers (a : Automaton) : Nat := a.symbols.toList.countP (!isMeta ·)

theorem countP_mayRead_range (a : Automaton) (n : Nat) :
    (List.range n).countP a.mayRead = (a.symbols.toList.take n).countP (!isMeta ·) := by
  induction n with
  | zero => rfl
  | succ n ih =>
      rw [List.range_succ, List.countP_append, ih, List.take_add_one, List.countP_append,
        Array.getElem?_toList, List.countP_singleton, mayRead]
      cases a.symbols[n]? with
      | none => rfl
      | some symbol => rw [Option.any_some, Option.toList_some, List.countP_singleton]

/-- Of the states that a search has found, at most the readers have a symbol that reads. -/
theorem countP_mayRead_members {n : Nat} (search : Search n) :
    search.members.countP a.mayRead ≤ a.readers := by
  have among : search.members.countP a.mayRead ≤ (List.range n).countP a.mayRead :=
    List.Sublist.countP_le List.filter_sublist
  have below : (a.symbols.toList.take n).countP (!isMeta ·) ≤ a.readers :=
    List.Sublist.countP_le (List.take_sublist n _)
  rw [countP_mayRead_range] at among
  exact Nat.le_trans among below

/-- Reading a character leads to at most as many states as there are states that may read. -/
theorem length_consume_le (plain : isMeta c = false) {reached : List Nat}
    (consumed : a.consume c states = .ok reached) : reached.length ≤ states.countP a.mayRead := by
  induction states generalizing reached with
  | nil =>
      obtain rfl : [] = reached := Except.ok.inj consumed
      exact Nat.le_refl _
  | cons s rest ih =>
      rw [consume] at consumed
      rw [List.countP_cons]
      by_cases hs : s = a.acceptState
      · rw [if_pos hs] at consumed
        exact Nat.le_add_right_of_le (ih consumed)
      · rw [if_neg hs] at consumed
        cases here : a.symbols[s]? with
        | none =>
            rw [here] at consumed
            cases consumed
        | some symbol =>
            rw [here] at consumed
            cases later : a.consume c rest with
            | error e =>
                rw [later] at consumed
                cases consumed
            | ok more =>
                rw [later] at consumed
                obtain rfl : (if reads symbol c then (s + 1) :: more else more) = reached :=
                  Except.ok.inj consumed
                have bound := ih later
                by_cases hread : reads symbol c = true
                · have able : a.mayRead s = true := by
                    rw [mayRead, here, Option.any_some, plain_of_reads plain hread]
                    rfl
                  rw [if_pos hread, if_pos able, List.length_cons]
                  exact Nat.succ_le_succ bound
                · rw [if_neg hread]
                  exact Nat.le_add_right_of_le bound

/-! ### The searches of a simulation -/

/-- `a.Searched x active costs`: one search from the first state and one for each character of
`x`, each from the states that the character leads to, came to the states `active` and took
`costs` turns. The states and the sources are gone through in any order. -/
inductive Searched (a : Automaton) : List Char → List Nat → List Nat → Prop
  /-- The search from the first state. -/
  | start {search : Search a.moves.rows.size}
      (found : a.moves.toGraph.search [0] = .ok search) : Searched a [] search.members [search.pops]
  /-- The search behind one more character. -/
  | read {x : List Char} {active costs states reached sources : List Nat} {c : Char}
      {search : Search a.moves.rows.size} (before : Searched a x active costs)
      (listed : states.Perm active) (consumed : a.consume c states = .ok reached)
      (arranged : sources.Perm reached)
      (found : a.moves.toGraph.search (sources.map Int.ofNat) = .ok search) :
      Searched a (x ++ [c]) search.members (costs ++ [search.pops])

theorem Searched.length_costs (searched : a.Searched x active costs) :
    costs.length = x.length + 1 := by
  induction searched with
  | start found => rfl
  | read before listed consumed arranged found ih =>
      rw [List.length_append, List.length_append, ih]
      rfl

theorem Searched.countP_active_le (searched : a.Searched x active costs) :
    active.countP a.mayRead ≤ a.readers := by
  cases searched with
  | @start search found => exact countP_mayRead_members search
  | @read _ _ _ _ _ _ _ search before listed consumed arranged found =>
      exact countP_mayRead_members search

/-- No search costs more than one turn for each symbol that reads, each silent move, and the
first state. -/
theorem Searched.cost_le (searched : a.Searched x active costs)
    (plain : ∀ c ∈ x, isMeta c = false) :
    ∀ cost ∈ costs, cost ≤ a.readers + a.moves.toGraph.edgeCount + 1 := by
  induction searched with
  | @start search found =>
      obtain ⟨-, -, -, bound⟩ := Graph.exists_trace_of_search found
      intro cost mem
      rw [List.mem_singleton.1 mem]
      simp only [List.length_singleton] at bound
      omega
  | @read x active costs states reached sources c search before listed consumed arranged found ih =>
      -- the sources are those states that read `c`, so they are readers among the active ones
      obtain ⟨-, -, -, bound⟩ := Graph.exists_trace_of_search found
      have front : ∀ d ∈ x, isMeta d = false := fun d hd => plain d (List.mem_append_left _ hd)
      have last : isMeta c = false := plain c (List.mem_append_right _ List.mem_cons_self)
      have few := length_consume_le last consumed
      rw [listed.countP_eq] at few
      have readers := before.countP_active_le
      intro cost mem
      cases List.mem_append.1 mem with
      | inl earlier => exact ih front cost earlier
      | inr latest =>
          rw [List.mem_singleton.1 latest]
          rw [List.length_map, arranged.length_eq] at bound
          omega

/-! ### The work that is recorded -/

/-- The searches made so far end in the active states, and the work is the sum of their costs. -/
def Accounts (a : Automaton) (x : List Char) (p : Progress) : Prop :=
  ∃ costs, a.Searched x p.active costs ∧ p.work = costs.sum

theorem accounts_initial (started : a.initial = .ok p) : a.Accounts [] p := by
  obtain ⟨search, found, rfl⟩ := exists_search_of_settle started
  exact ⟨[search.pops], .start found, by simp⟩

/-- One character is one more search. -/
theorem Accounts.advanceIn (account : a.Accounts x p)
    (advanced : a.advanceIn order position p c = .ok last) : a.Accounts (x ++ [c]) last := by
  obtain ⟨costs, searched, work⟩ := account
  unfold Automaton.advanceIn at advanced
  cases consumed : a.consume c (order.active position p.active) with
  | error e =>
      rw [consumed] at advanced
      cases advanced
  | ok reached =>
      rw [consumed] at advanced
      have settled : a.settle p.work (order.reached position reached) = .ok last := advanced
      obtain ⟨search, found, rfl⟩ := exists_search_of_settle settled
      refine ⟨costs ++ [search.pops], searched.read (order.active_perm _ _) consumed
        (order.reached_perm _ _) found, ?_⟩
      rw [List.sum_append, List.sum_singleton, work]

/-- A simulation makes a search for each character that it reads. It leaves a rest of the text
unread only if no state is active any more. -/
theorem Accounts.simulateIn (account : a.Accounts x p)
    (simulated : a.simulateIn order position p rest = .ok last) :
    ∃ y, y <+: rest ∧ (y = rest ∨ last.active = []) ∧ a.Accounts (x ++ y) last := by
  induction rest generalizing p x position with
  | nil =>
      obtain rfl : p = last := Except.ok.inj simulated
      exact ⟨[], List.prefix_refl _, .inl rfl, by simpa using account⟩
  | cons c rest ih =>
      cases advanced : a.advanceIn order position p c with
      | error e =>
          rw [simulateIn_cons_of_error advanced] at simulated
          cases simulated
      | ok next =>
          rw [simulateIn_cons_of_ok advanced] at simulated
          have now := account.advanceIn advanced
          by_cases dead : next.active.isEmpty = true
          · rw [if_pos dead] at simulated
            obtain rfl : next.stop = last := Except.ok.inj simulated
            exact ⟨[c], ⟨rest, rfl⟩, .inr (List.isEmpty_iff.1 dead), now⟩
          · rw [if_neg dead] at simulated
            obtain ⟨y, before, stop, later⟩ := ih now simulated
            refine ⟨c :: y, (List.prefix_cons_inj c).2 before, ?_, by rwa [List.append_cons]⟩
            exact stop.imp_left (congrArg (c :: ·))

/-- An automaton that fits reads every text without an operator, in whatever order. -/
theorem exists_simulateIn (fits : a.Fits) (order : SetOrder) (text : List Char) :
    ∃ first last, a.initial = .ok first ∧ a.simulateIn order 0 first text = .ok last := by
  have pos : 0 < a.moves.vertexCount := by
    rw [fits]
    exact Nat.succ_pos _
  obtain ⟨first, started, tracks⟩ := exists_initial_of_pos pos
  have sound : ∀ y c z, text = y ++ c :: z → ∀ e, ¬ a.Fault ([] ++ y) c e := by
    intro y c z _ e fault
    unfold Fits at fits
    cases fault with
    | past run behind =>
        have := lt_of_past pos run behind
        omega
    | leaves _ reads =>
        have := le_of_leaves reads
        omega
  have read : ∃ last, a.simulateIn order 0 first text = .ok last ∧ _ :=
    tracks.simulateIn_of_sound pos sound
  obtain ⟨last, simulated, -⟩ := read
  exact ⟨first, last, started, simulated⟩

/-- The simulation itself is the one in the order of the lists. -/
theorem run_of_simulateIn (plain : ∀ c ∈ text, isMeta c = false) {first : Progress}
    (started : a.initial = .ok first)
    (simulated : a.simulateIn .listed 0 first text = .ok last) : a.run text = .ok last := by
  rw [simulateIn_listed] at simulated
  unfold run
  rw [firstMeta?_eq_none_iff.2 plain, started]
  exact simulated

/-- What is known of the work at the end of a text: it is the sum of the costs of the searches
made for the characters that were read, and so is bounded. -/
structure Spent (a : Automaton) (text : List Char) (last : Progress) (bound : Nat) : Prop where
  account : ∃ y, y <+: text ∧ (y = text ∨ last.active = []) ∧ a.Accounts y last
  work_le : last.work ≤ (text.length + 1) * bound

theorem spent_of_simulateIn (plain : ∀ c ∈ text, isMeta c = false) {first : Progress}
    (started : a.initial = .ok first) (simulated : a.simulateIn order 0 first text = .ok last)
    {bound : Nat} (few : a.readers + a.moves.toGraph.edgeCount + 1 ≤ bound) :
    a.Spent text last bound := by
  obtain ⟨y, before, stop, account⟩ := (accounts_initial started).simulateIn simulated
  refine ⟨⟨y, before, stop, account⟩, ?_⟩
  obtain ⟨costs, searched, work⟩ := account
  have each := searched.cost_le fun c hc => plain c (before.subset hc)
  have total : costs.sum ≤ costs.length * bound :=
    List.sum_le_card_nsmul costs bound fun cost mem => Nat.le_trans (each cost mem) few
  rw [searched.length_costs] at total
  rw [work]
  exact Nat.le_trans total (Nat.mul_le_mul_right _ (Nat.succ_le_succ before.length_le))

end Automaton

/-! ### Summary -/

/-- In a compiled pattern, the readers and the silent moves together are at most three to a
symbol. -/
theorem readers_add_edgeCount_le {p : List Char} {a : Automaton} (compiled : compile p = .ok a) :
    a.readers + a.moves.toGraph.edgeCount ≤ 3 * p.length := by
  obtain ⟨b, rfl, rfl⟩ := exists_text_of_compile compiled
  have moves := b.edgeCount_moves
  have symbols := moveCount_add_countP_le b.text
  show b.text.countP (!isMeta ·) + b.moves.toGraph.edgeCount ≤ _
  omega

/-- **Searches do not blow up.** From vertices of a sound graph, the loop of a search ends after
at most as many turns as there are sources and edges, and goes through the list of no vertex
twice. So a compiled pattern reads a text without an operator in a number of turns that is linear
in the pattern for each character, in whatever order the states are gone through. -/
theorem searches_bounded :
    (∀ (g : Graph) (sources : List Int), g.Sound → g.Inside sources →
      ∃ search popped, g.search sources = .ok search ∧
        Search.Trace g.rows (Search.start g.rows.size).marked (sources.map Int.toNat).reverse
          popped search.scanned.reverse search.marked ∧
        search.pops = popped.length ∧ search.pops ≤ sources.length + g.edgeCount ∧
        search.scanned.Nodup) ∧
    ∀ (p : List Char) (a : Automaton), compile p = .ok a →
      ∀ text : List Char, (∀ c ∈ text, isMeta c = false) →
        (∃ last, a.run text = .ok last ∧ a.Spent text last (3 * p.length + 1)) ∧
        ∀ order : Automaton.SetOrder, ∃ first last, a.initial = .ok first ∧
          a.simulateIn order 0 first text = .ok last ∧ a.Spent text last (3 * p.length + 1) := by
  refine ⟨fun g sources sound inside => ?_, fun p a compiled text plain => ?_⟩
  · obtain ⟨search, found⟩ := Graph.exists_search inside fun v => sound.lt_of_reached inside
    obtain ⟨popped, trace, turns, bound⟩ := Graph.exists_trace_of_search found
    exact ⟨search, popped, found, trace, turns, bound, List.nodup_reverse.1 trace.nodup_scanned⟩
  · have few := Nat.succ_le_succ (readers_add_edgeCount_le compiled)
    have fits : a.Fits := by
      obtain ⟨b, rfl, rfl⟩ := exists_text_of_compile compiled
      exact b.fits_automaton
    have all (order : Automaton.SetOrder) : ∃ first last, a.initial = .ok first ∧
        a.simulateIn order 0 first text = .ok last ∧ a.Spent text last (3 * p.length + 1) := by
      obtain ⟨first, last, started, simulated⟩ := Automaton.exists_simulateIn fits order text
      exact ⟨first, last, started, simulated,
        Automaton.spent_of_simulateIn plain started simulated few⟩
    obtain ⟨first, last, started, simulated, spent⟩ := all .listed
    exact ⟨⟨last, Automaton.run_of_simulateIn plain started simulated, spent⟩, all⟩

/-- The tree of `(k*)*`. -/
def nestedStars : Body := .group (.leading 0) (.symbol (.leading 0) 'k' rfl 1) 1

/-- A search from two vertices, one of them given twice, and the text `kk` over `(k*)*`. -/
theorem nestedStars_searches_bounded :
    ((Graph.joined.Sound ∧ Graph.joined.Inside [1, 0, 1]) ∧
      compile nestedStars.text = .ok nestedStars.automaton ∧ ∀ c ∈ ['k', 'k'], isMeta c = false) ∧
    (∃ search popped, Graph.joined.search [1, 0, 1] = .ok search ∧
      Search.Trace Graph.joined.rows (Search.start 2).marked [1, 0, 1] popped
        search.scanned.reverse search.marked ∧
      search.pops = popped.length ∧ search.pops ≤ 3 + 1 ∧ search.scanned.Nodup) ∧
    ∃ last, nestedStars.automaton.run ['k', 'k'] = .ok last ∧
      nestedStars.automaton.Spent ['k', 'k'] last 16 := by
  have built : Graph.ofLists? 2 [[1], []] = .ok Graph.joined := rfl
  have sound := Graph.sound_of_ofLists? built
  have inside : Graph.joined.Inside [1, 0, 1] := by
    simp [Graph.Inside, Graph.joined]
  have compiled := compile_text nestedStars
  have plain : ∀ c ∈ ['k', 'k'], isMeta c = false := by simp [isMeta]
  obtain ⟨searches, texts⟩ := searches_bounded
  exact ⟨⟨⟨sound, inside⟩, compiled, plain⟩, searches _ _ sound inside,
    (texts _ _ compiled _ plain).1⟩

end EpsilonMatch
