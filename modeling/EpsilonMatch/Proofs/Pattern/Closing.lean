import EpsilonMatch.Proofs.Graph.Soundness
import EpsilonMatch.Proofs.Pattern.Diagnosis
/-!
# EpsilonMatch.Proofs.Pattern.Closing

Which stacks are refused when a single group is closed.

A group may be closed over any stack of integers. `Cursor.Closes` lists the ways in which that
can end, one for each exit of the function, and what is said of a single closing is read off that
list. What follows is about stacks of positions inside the pattern (`Room`), and about cursors that
stand where a fault can be reported (`Cursor.Located`); no use of a cursor takes it anywhere else.

Two shapes of stack pair the `)` with a `(` (`Pairs`). All others are reported, but for one:
the character below a `|` is checked to be a `(`, while a latest character that is no `|` is taken
for a `(` unseen. So if the latest character is neither `(` nor `|` (`Stray`), its position is
returned as if a group began there.

A pass does not get there. It is in step with a draft, and the positions at which a draft waits
are those of operators (`Scan.operators_of_firstSteps`).
-/

namespace EpsilonMatch

open CompileError (locate)

/-! ### Shapes of stacks -/

/-- The latest positions pair a `)` with the `(` at `left`, and `rest` stays: either the `(` is
the latest one, or a `|` lies on it. -/
inductive Pairs (pattern : Array Char) :
    (pending : List Int) → (left : Int) → (rest : List Int) → Prop
  | group {left : Int} {rest : List Int} (opens : charAt? pattern left = some '(') :
    Pairs pattern (left :: rest) left rest
  | choice {bar left : Int} {rest : List Int} (parts : charAt? pattern bar = some '|')
    (opens : charAt? pattern left = some '(') : Pairs pattern (bar :: left :: rest) left rest

/-- The latest position is that of a character that is neither `(` nor `|`. -/
def Stray (pattern : Array Char) (pending : List Int) : Prop :=
  ∃ latest rest c, pending = latest :: rest ∧ charAt? pattern latest = some c ∧ c ≠ '(' ∧ c ≠ '|'

/-- The waiting positions lie inside the pattern, counted from its front, and the graph has a list
for each of them and room for the vertex behind it. -/
def Room (pattern : Array Char) (pending : List Int) (g : Graph) : Prop :=
  ∀ q ∈ pending, (0 ≤ q ∧ q < pattern.size) ∧ q + 1 < g.vertexCount ∧ q < g.rows.size

instance (pattern : Array Char) (pending : List Int) (g : Graph) :
    Decidable (Room pattern pending g) :=
  inferInstanceAs (Decidable (∀ q ∈ pending, _))

theorem not_stray_nil (pattern : Array Char) : ¬ Stray pattern [] := by
  intro stray
  obtain ⟨latest, rest, c, same, -⟩ := stray
  cases same

theorem not_stray_cons {pattern : Array Char} {latest : Int} {rest : List Int}
    (operator : charAt? pattern latest = some '(' ∨ charAt? pattern latest = some '|') :
    ¬ Stray pattern (latest :: rest) := by
  intro stray
  obtain ⟨q, rest', c, same, here, notLeft, notBar⟩ := stray
  obtain ⟨rfl, -⟩ := List.cons.inj same
  rcases operator with left | bar
  · exact notLeft (Option.some.inj (here.symm.trans left))
  · exact notBar (Option.some.inj (here.symm.trans bar))

/-- Under a `|` there must be the `(`. -/
theorem Pairs.of_bar {pattern : Array Char} {bar left : Int} {below rest : List Int}
    (pairs : Pairs pattern (bar :: below) left rest) (parts : charAt? pattern bar = some '|') :
    below = left :: rest ∧ charAt? pattern left = some '(' := by
  cases pairs with
  | group opens => cases parts.symm.trans opens
  | choice _ opens => exact ⟨rfl, opens⟩

/-- At the positions at which a draft waits there are operators. -/
theorem Draft.operators_of_waiting {pattern : Array Char} {waiting : List (Body × Opener)}
    (written : waitingText waiting <+: pattern.toList) :
    ∀ q ∈ waitingPositions waiting,
      charAt? pattern q = some '(' ∨ charAt? pattern q = some '|' := by
  induction waiting with
  | nil => exact fun q mem => absurd mem List.not_mem_nil
  | cons entry outer ih =>
      obtain ⟨front, op⟩ := entry
      refine List.forall_mem_cons.2 ⟨?_, ih ((waitingText_tail_isPrefix _ _).trans written)⟩
      have stands := charAt?_waiting written
      cases op with
      | group => exact .inl stands
      | bar => exact .inr stands

/-- Only `(` and `|` ever wait in a pass. -/
theorem Scan.operators_of_firstSteps {pattern : Array Char} {n count : Nat} {position : Int}
    {s : Scan}
    (hn : pattern.size < n) (hcount : count ≤ pattern.size)
    (passed : firstSteps pattern count 0 pattern.toList ⟨position, [], .edgeless n⟩ = .ok () s) :
    ∀ q ∈ s.pending, charAt? pattern q = some '(' ∨ charAt? pattern q = some '|' := by
  have text : pattern.toList = pattern.toList.take count ++ pattern.toList.drop count :=
    (List.take_append_drop count pattern.toList).symm
  have steps := firstSteps_cases hn text position
  rw [List.length_take_of_le hcount, passed] at steps
  rcases steps with ⟨d, s', read, same, waits⟩ | ⟨e, e', s', -, failed⟩
  · obtain ⟨-, rfl⟩ := EStateM.Result.ok.inj same
    have written : d.text = pattern.toList.take count := Draft.text_readAll read
    rw [waits]
    exact Draft.operators_of_waiting (Draft.waitingText_isPrefix (written ▸ text))
  · cases failed

/-- So no pass closes a group over a stray entry. -/
theorem Scan.not_stray_of_firstSteps {pattern : Array Char} {n count : Nat} {position : Int}
    {s : Scan}
    (hn : pattern.size < n) (hcount : count ≤ pattern.size)
    (passed : firstSteps pattern count 0 pattern.toList ⟨position, [], .edgeless n⟩ = .ok () s) :
    ¬ Stray pattern s.pending := by
  have operators := operators_of_firstSteps hn hcount passed
  cases waits : s.pending with
  | nil => exact not_stray_nil pattern
  | cons latest rest =>
      rw [waits] at operators
      exact not_stray_cons (operators latest List.mem_cons_self)

/-! ### Exits -/

namespace Cursor

variable {k : Cursor} {g : Graph} {pending : List Int} {i : Int}

/-- The ways in which closing a group can end, one for each exit, each with what it leaves. -/
inductive Closes (k : Cursor) (g : Graph) (i : Int) :
    (pending : List Int) → Except CompileError Int × Scan → Prop
  /-- Nothing waits. -/
  | unmatched {e : CompileError} (said : locate k.pattern k.position .unmatchedClose = e) :
    Closes k g i [] (.error e, ⟨k.position, [], g⟩)
  /-- There is no character at the latest position. -/
  | past {q : Int} {rest : List Int} (past : charAt? k.pattern q = none) :
    Closes k g i (q :: rest) (.error .pastPattern, ⟨k.position, rest, g⟩)
  /-- A `(` is the latest operator. -/
  | group {q : Int} {rest : List Int} (opens : charAt? k.pattern q = some '(') :
    Closes k g i (q :: rest) (.ok q, ⟨k.position, rest, g⟩)
  /-- Another character stands there and is taken for a `(`. -/
  | stray {q : Int} {rest : List Int} {c : Char} (here : charAt? k.pattern q = some c)
    (notLeft : c ≠ '(') (notBar : c ≠ '|') :
    Closes k g i (q :: rest) (.ok q, ⟨k.position, rest, g⟩)
  /-- A `|` waits alone. -/
  | outside {o : Int} {e : CompileError} (bar : charAt? k.pattern o = some '|')
    (said : locate k.pattern k.position .barOutsideGroup = e) :
    Closes k g i [o] (.error e, ⟨k.position, [], g⟩)
  /-- There is no character at the position below a `|`. -/
  | pastBar {o q : Int} {rest : List Int} (bar : charAt? k.pattern o = some '|')
    (past : charAt? k.pattern q = none) :
    Closes k g i (o :: q :: rest) (.error .pastPattern, ⟨k.position, rest, g⟩)
  /-- The character below a `|` is no `(`. -/
  | second {o q : Int} {rest : List Int} {c : Char} (bar : charAt? k.pattern o = some '|')
    (here : charAt? k.pattern q = some c) (notLeft : c ≠ '(') :
    Closes k g i (o :: q :: rest)
      (.error (.pattern ⟨.barNeedsGroup, some c, q⟩), ⟨q, rest, g⟩)
  /-- The graph refuses the edge into the second branch. -/
  | refusedEnter {o q : Int} {rest : List Int} {g' : Graph} {e : GraphError}
    (bar : charAt? k.pattern o = some '|') (opens : charAt? k.pattern q = some '(')
    (refused : Graph.connect q (o + 1) g = .error e g') :
    Closes k g i (o :: q :: rest) (.error (.edge e), ⟨k.position, rest, g'⟩)
  /-- The graph takes that edge and refuses the one out of the first branch. -/
  | refusedLeave {o q : Int} {rest : List Int} {g' g'' : Graph} {e : GraphError}
    (bar : charAt? k.pattern o = some '|') (opens : charAt? k.pattern q = some '(')
    (enter : Graph.connect q (o + 1) g = .ok () g')
    (refused : Graph.connect o i g' = .error e g'') :
    Closes k g i (o :: q :: rest) (.error (.edge e), ⟨k.position, rest, g''⟩)
  /-- A `|` lies on its `(`, and the graph takes both edges. -/
  | choice {o q : Int} {rest : List Int} {g' g'' : Graph} (bar : charAt? k.pattern o = some '|')
    (opens : charAt? k.pattern q = some '(') (enter : Graph.connect q (o + 1) g = .ok () g')
    (leave : Graph.connect o i g' = .ok () g'') :
    Closes k g i (o :: q :: rest) (.ok q, ⟨k.position, rest, g''⟩)

theorem pairClose_of_ok {left : Int} {s : Scan}
    (closed : Scan.pairClose k.pattern i ⟨k.position, pending, g⟩ = .ok left s) :
    k.pairClose g pending i = (.ok left, s) := by
  rw [pairClose, runScan, EStateM.run, closed]

theorem pairClose_of_error {e : CompileError} {s : Scan}
    (failed : Scan.pairClose k.pattern i ⟨k.position, pending, g⟩ = .error e s) :
    k.pairClose g pending i = (.error e, s) := by
  rw [pairClose, runScan, EStateM.run, failed]

/-- Closing a group with two branches, edge by edge. -/
theorem closes_choice {o q : Int} (bar : charAt? k.pattern o = some '|')
    (opens : charAt? k.pattern q = some '(') (g : Graph) (i : Int) (rest : List Int) :
    Closes k g i (o :: q :: rest) (k.pairClose g (o :: q :: rest) i) := by
  have moves : Scan.pairClose k.pattern i ⟨k.position, o :: q :: rest, g⟩ = _ :=
    Scan.pairClose_of_bar opens bar
  cases enter : Graph.connect q (o + 1) g with
  | error e g' =>
      rw [pairClose_of_error (moves.trans (Scan.bind_of_error (Scan.connect_of_error enter)))]
      exact .refusedEnter bar opens enter
  | ok u g' =>
      rw [Scan.bind_of_ok (Scan.connect_of_ok enter)] at moves
      cases leave : Graph.connect o i g' with
      | error e g'' =>
          rw [pairClose_of_error (moves.trans (Scan.bind_of_error (Scan.connect_of_error leave)))]
          exact .refusedLeave bar opens enter leave
      | ok u g'' =>
          rw [pairClose_of_ok (moves.trans (Scan.bind_of_ok (Scan.connect_of_ok leave)))]
          exact .choice bar opens enter leave

/-- Closing a group ends in one of these ways. -/
theorem closes_pairClose (k : Cursor) (g : Graph) (pending : List Int) (i : Int) :
    Closes k g i pending (k.pairClose g pending i) := by
  match pending with
  | [] =>
      rw [pairClose_of_error Scan.pairClose_unmatched]
      exact .unmatched rfl
  | latest :: rest =>
      cases here : charAt? k.pattern latest with
      | none =>
          rw [pairClose_of_error (Scan.pairClose_past here)]
          exact .past here
      | some c =>
          -- only a `|` makes the function look at the entry below
          by_cases bar : c = '|'
          · rw [bar] at here
            match rest with
            | [] =>
                rw [pairClose_of_error (Scan.pairClose_outside here)]
                exact .outside here rfl
            | q :: rest =>
                cases below : charAt? k.pattern q with
                | none =>
                    rw [pairClose_of_error (Scan.pairClose_pastBar below here)]
                    exact .pastBar here below
                | some c =>
                    by_cases left : c = '('
                    · rw [left] at below
                      exact closes_choice here below g i rest
                    · rw [pairClose_of_error (Scan.pairClose_second below left here),
                        CompileError.locate_of_charAt? below]
                      exact .second here below left
          · rw [pairClose_of_ok (Scan.pairClose_of_ne_bar here bar)]
            by_cases left : c = '('
            · rw [left] at here
              exact .group here
            · exact .stray here left bar

/-! ### What is returned, and what is reported -/

/-- The cursor stands where a fault can be reported: at a character, or past the end. -/
def Located (k : Cursor) : Prop := -(k.size : Int) ≤ k.position

instance (k : Cursor) : Decidable k.Located :=
  inferInstanceAs (Decidable (-(k.size : Int) ≤ k.position))

theorem Located.locate_eq (located : k.Located) (fault : PatternFault) :
    locate k.pattern k.position fault =
      .pattern ⟨fault, charAt? k.pattern k.position, k.position⟩ :=
  CompileError.locate_eq_pattern located fault

/-- What is returned belongs to one of the two shapes, or is stray. -/
theorem Closes.returned {left : Int} {s : Scan} (closes : Closes k g i pending (.ok left, s)) :
    Pairs k.pattern pending left s.pending ∨ Stray k.pattern pending := by
  cases closes with
  | group opens => exact .inl (.group opens)
  | choice bar opens enter leave => exact .inl (.choice bar opens)
  | stray here notLeft notBar => exact .inr ⟨_, _, _, rfl, here, notLeft, notBar⟩

/-- The two shapes are returned, if the end of the group is a vertex and the graph is large
enough. -/
theorem pairClose_of_pairs {left : Int} {rest : List Int}
    (pairs : Pairs k.pattern pending left rest)
    (room : Room k.pattern pending g) (vertex : 0 ≤ i ∧ i < g.vertexCount) :
    ∃ g', k.pairClose g pending i = (.ok left, ⟨k.position, rest, g'⟩) := by
  cases pairs with
  | group opens => exact ⟨g, pairClose_of_ok (Scan.pairClose_of_ne_bar opens (by decide))⟩
  | @choice o left rest bar opens =>
      -- the first edge changes neither the vertex count nor the number of lists
      obtain ⟨⟨frontBar, -⟩, roomBar, rowBar⟩ := room o List.mem_cons_self
      obtain ⟨⟨frontLeft, -⟩, roomLeft, rowLeft⟩ :=
        room left (List.mem_cons_of_mem _ List.mem_cons_self)
      obtain ⟨g', enter, count, size⟩ :
          ∃ g', Graph.connect left (o + 1) g = .ok () g' ∧ _ ∧ _ :=
        Graph.exists_connect (by omega) (by omega) rowLeft
      obtain ⟨g'', leave, -⟩ : ∃ g'', Graph.connect o i g' = .ok () g'' ∧ _ :=
        Graph.exists_connect (by omega) (by omega) (by omega)
      refine ⟨g'', pairClose_of_ok ?_⟩
      rw [Scan.pairClose_of_bar opens bar, Scan.bind_of_ok (Scan.connect_of_ok enter),
        Scan.bind_of_ok (Scan.connect_of_ok leave)]
      rfl

/-- A stray entry is returned as it is. -/
theorem pairClose_of_stray (stray : Stray k.pattern pending) :
    ∃ latest rest, pending = latest :: rest ∧
      k.pairClose g pending i = (.ok latest, ⟨k.position, rest, g⟩) := by
  obtain ⟨latest, rest, c, rfl, here, -, notBar⟩ := stray
  exact ⟨latest, rest, rfl, pairClose_of_ok (Scan.pairClose_of_ne_bar here notBar)⟩

/-- A stack is reported exactly if it has none of the two shapes and is not stray. -/
theorem Closes.reported_iff {r : Except CompileError Int × Scan} (closes : Closes k g i pending r)
    (located : k.Located) (room : Room k.pattern pending g) :
    (∃ e, r.1 = .error (.pattern e)) ↔
      (¬ ∃ left rest, Pairs k.pattern pending left rest) ∧ ¬ Stray k.pattern pending := by
  have present {q : Int} (mem : q ∈ pending) : charAt? k.pattern q ≠ none := by
    obtain ⟨⟨front, before⟩, -⟩ := room q mem
    exact Option.isSome_iff_ne_none.1 (isSome_charAt?_iff.2 ⟨by omega, before⟩)
  constructor
  · -- the exits with a report; the last one is a `|` on something that is no `(`
    intro reported
    obtain ⟨e, reported⟩ := reported
    cases closes with
    | unmatched said =>
        refine ⟨fun paired => ?_, not_stray_nil k.pattern⟩
        obtain ⟨left, rest, pairs⟩ := paired
        cases pairs
    | outside bar said =>
        refine ⟨fun paired => ?_, not_stray_cons (.inr bar)⟩
        obtain ⟨left, rest, pairs⟩ := paired
        cases (pairs.of_bar bar).1
    | second bar here notLeft =>
        refine ⟨fun paired => ?_, not_stray_cons (.inr bar)⟩
        obtain ⟨left, rest, pairs⟩ := paired
        obtain ⟨same, opens⟩ := pairs.of_bar bar
        obtain ⟨rfl, -⟩ := List.cons.inj same
        exact notLeft (Option.some.inj (here.symm.trans opens))
    | _ => cases reported
  · -- at every other exit there is one of the shapes, or a position past the end
    intro neither
    obtain ⟨unpaired, notStray⟩ := neither
    cases closes with
    | unmatched said => exact ⟨_, congrArg Except.error (said.symm.trans (located.locate_eq _))⟩
    | outside bar said =>
        exact ⟨_, congrArg Except.error (said.symm.trans (located.locate_eq _))⟩
    | second bar here notLeft => exact ⟨_, rfl⟩
    | past past => exact absurd past (present List.mem_cons_self)
    | pastBar bar past => exact absurd past (present (List.mem_cons_of_mem _ List.mem_cons_self))
    | stray here notLeft notBar => exact absurd ⟨_, _, _, rfl, here, notLeft, notBar⟩ notStray
    | group opens => exact absurd ⟨_, _, .group opens⟩ unpaired
    | refusedEnter bar opens refused => exact absurd ⟨_, _, .choice bar opens⟩ unpaired
    | refusedLeave bar opens enter refused => exact absurd ⟨_, _, .choice bar opens⟩ unpaired
    | choice bar opens enter leave => exact absurd ⟨_, _, .choice bar opens⟩ unpaired

/-! ### Summary -/

/-- **Which stacks are refused.** Over a stack of positions inside the pattern, what is returned
is the position of a `(` that is the latest entry or lies under a `|`, or it is a stray latest
entry. A fault is reported in exactly the other cases, if the cursor stands where one can be. Both
shapes are returned, with the entries they consist of taken off, as soon as the `)` is a vertex. A
stray entry is returned all the same, and nothing is reported. No pass meets one: only `(` and `|`
ever wait in it. -/
theorem pairClose_reported_iff (room : Room k.pattern pending g) :
    (∀ left s, k.pairClose g pending i = (.ok left, s) →
      Pairs k.pattern pending left s.pending ∨ Stray k.pattern pending) ∧
    (k.Located → ((∃ e, (k.pairClose g pending i).1 = .error (.pattern e)) ↔
      (¬ ∃ left rest, Pairs k.pattern pending left rest) ∧ ¬ Stray k.pattern pending)) ∧
    (0 ≤ i ∧ i < g.vertexCount → ∀ left rest, Pairs k.pattern pending left rest →
      ∃ g', k.pairClose g pending i = (.ok left, ⟨k.position, rest, g'⟩)) ∧
    (Stray k.pattern pending → ∃ latest rest, pending = latest :: rest ∧
      k.pairClose g pending i = (.ok latest, ⟨k.position, rest, g⟩)) ∧
    ∀ count ≤ k.size, ∀ position s,
      Scan.firstSteps k.pattern count 0 k.pattern.toList
        ⟨position, [], .edgeless (k.size + 1)⟩ = .ok () s →
      (∀ q ∈ s.pending, charAt? k.pattern q = some '(' ∨ charAt? k.pattern q = some '|') ∧
        ¬ Stray k.pattern s.pending := by
  have closes := closes_pairClose k g pending i
  refine ⟨fun left s closed => ?_, fun located => closes.reported_iff located room,
    fun vertex left rest pairs => pairClose_of_pairs pairs room vertex, pairClose_of_stray,
    fun count hcount position s passed => ?_⟩
  · rw [closed] at closes
    exact closes.returned
  · have room : k.pattern.size < k.size + 1 := Nat.lt_succ_self _
    exact ⟨Scan.operators_of_firstSteps room hcount passed,
      Scan.not_stray_of_firstSteps room hcount passed⟩

/-- The cursor at the end of `(P|Q)`. -/
def twoBranches : Cursor := ⟨#['(', 'P', '|', 'Q', ')'], 4⟩

/-- Over the positions of `|` and `(` the group is closed. Over that of `|` alone this is reported;
over that of `Q` it is not. -/
theorem twoBranches_pairClose :
    twoBranches.Located ∧
    (Room twoBranches.pattern [2, 0] (.edgeless 6) ∧
      ∃ g', twoBranches.pairClose (.edgeless 6) [2, 0] 4 = (.ok 0, ⟨4, [], g'⟩)) ∧
    (Room twoBranches.pattern [2] (.edgeless 6) ∧
      ∃ e, (twoBranches.pairClose (.edgeless 6) [2] 4).1 = .error (.pattern e)) ∧
    Room twoBranches.pattern [3, 0] (.edgeless 6) ∧
      ∃ latest rest, [3, 0] = latest :: rest ∧
        twoBranches.pairClose (.edgeless 6) [3, 0] 4 = (.ok latest, ⟨4, rest, .edgeless 6⟩) := by
  have located : twoBranches.Located := by decide
  have room : Room twoBranches.pattern [2, 0] (.edgeless 6) := by decide
  have roomBar : Room twoBranches.pattern [2] (.edgeless 6) := by decide
  have roomStray : Room twoBranches.pattern [3, 0] (.edgeless 6) := by decide
  obtain ⟨-, -, returned, -⟩ := pairClose_reported_iff (i := 4) room
  obtain ⟨-, reported, -⟩ := pairClose_reported_iff (i := 4) roomBar
  obtain ⟨-, -, -, unreported, -⟩ := pairClose_reported_iff (i := 4) roomStray
  refine ⟨located, ⟨room, returned (by decide) 0 [] (.choice rfl rfl)⟩,
    ⟨roomBar, (reported located).2 ⟨fun paired => ?_, not_stray_cons (.inr rfl)⟩⟩,
    roomStray, unreported ⟨3, [0], 'Q', rfl, rfl, by decide, by decide⟩⟩
  obtain ⟨left, rest, pairs⟩ := paired
  cases (pairs.of_bar rfl).1

/-- So not every stack that pairs nothing is reported: in `ab)`, the position of `b` is taken for
that of a `(`. -/
theorem not_always_reported :
    ¬ ∀ (k : Cursor) (g : Graph) (pending : List Int) (i : Int), k.Located →
      Room k.pattern pending g → 0 ≤ i ∧ i < g.vertexCount →
      (∃ left s, k.pairClose g pending i = (.ok left, s) ∧
        Pairs k.pattern pending left s.pending) ∨
      ∃ e, (k.pairClose g pending i).1 = .error (.pattern e) := by
  intro always
  have taken : pairClose ⟨#['a', 'b', ')'], 0⟩ (.edgeless 4) [1] 2 =
      (.ok 1, ⟨0, [], .edgeless 4⟩) := rfl
  rcases always ⟨#['a', 'b', ')'], 0⟩ (.edgeless 4) [1] 2 (by decide) (by decide) (by decide) with
    ⟨left, s, closed, pairs⟩ | ⟨e, reported⟩
  · obtain ⟨same, rfl⟩ := Prod.mk.inj (taken.symm.trans closed)
    obtain rfl := Except.ok.inj same
    cases pairs with
    | group opens => cases opens
  · rw [taken] at reported
    cases reported

end Cursor

end EpsilonMatch
