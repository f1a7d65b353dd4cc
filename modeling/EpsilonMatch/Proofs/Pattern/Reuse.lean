import EpsilonMatch.Proofs.Pattern.Closing
/-!
# EpsilonMatch.Proofs.Pattern.Reuse

A cursor can be used again, whatever has been done with it.

The calls on a cursor may leave its position anywhere: a pass that fails stays where it failed, a
group may be closed over any stack of integers and any graph, and the position may be assigned. It
may be past the end of the pattern and, behind a stack that counts from the end, negative. No call
changes the pattern (`Cursor.pattern_afterAll`), and a compilation depends on the pattern alone:
`Cursor.compile_of_parse` and `Cursor.compile_of_refuse` hold from wherever the cursor stands,
since a pass moves to each character before it can fail there. So every compilation comes to what
a fresh cursor comes to, and leaves the cursor at a place that the pattern determines.

A negative position is one at which a character was found, so that faults can be reported there too
(`Cursor.report_afterAll`).
-/

namespace EpsilonMatch

namespace Cursor

/-- What may be done with a cursor. -/
inductive Call
  /-- The pattern is compiled. -/
  | compile
  /-- A fault is reported in the caller's words. -/
  | report (text : String)
  /-- The group that ends at `i` is closed, over some graph and stack. -/
  | pairClose (graph : Graph) (pending : List Int) (i : Int)
  /-- The position is assigned. -/
  | moveTo (position : Nat)
  deriving DecidableEq

variable {k : Cursor}

/-- The cursor behind a call, whether the call failed or not. -/
def after (k : Cursor) : Call → Cursor
  | .compile => k.compile.2
  | .report _ => k
  | .pairClose graph pending i =>
    { k with position := (k.pairClose graph pending i).2.position }
  | .moveTo position => { k with position }

/-- The cursor behind a sequence of calls. -/
def afterAll (k : Cursor) (calls : List Call) : Cursor := calls.foldl after k

/-- No call changes the pattern. -/
theorem pattern_after (k : Cursor) (call : Call) : (k.after call).pattern = k.pattern := by
  cases call with
  | compile => rfl
  | report text => rfl
  | pairClose graph pending i => rfl
  | moveTo position => rfl

theorem pattern_afterAll (k : Cursor) (calls : List Call) :
    (k.afterAll calls).pattern = k.pattern := by
  induction calls generalizing k with
  | nil => rfl
  | cons call rest ih => exact (ih (k.after call)).trans (k.pattern_after call)

theorem size_compile (k : Cursor) : k.compile.2.size = k.size := rfl

/-! ### Reporting from anywhere -/

theorem located_compile (located : k.Located) : k.compile.2.Located := by
  unfold Located at located ⊢
  rw [size_compile]
  cases found : parse k.pattern.toList with
  | ok b =>
      rw [compile_of_parse found]
      show _ ≤ if k.pattern.toList = [] then k.position else (k.size : Int) - 1
      by_cases empty : k.pattern.toList = []
      · rwa [if_pos empty]
      · have size : 0 < k.pattern.toList.length := List.length_pos_iff.2 empty
        rw [Array.length_toList] at size
        rw [if_neg empty, Cursor.size]
        omega
  | error e =>
      rw [compile_of_refuse found]
      show _ ≤ (e.2 : Int)
      omega

/-- Closing a group moves only to a position at which there is a character. -/
theorem Closes.located {g : Graph} {pending : List Int} {i : Int}
    {r : Except CompileError Int × Scan} (closes : Closes k g i pending r)
    (located : k.Located) : -(k.size : Int) ≤ r.2.position := by
  cases closes with
  | second bar here notLeft => exact (isSome_charAt?_iff.1 (Option.isSome_of_eq_some here)).1
  | _ => exact located

/-- Wherever a call leaves the cursor, faults can be reported. -/
theorem located_after (located : k.Located) (call : Call) : (k.after call).Located := by
  cases call with
  | compile => exact located_compile located
  | report text => exact located
  | pairClose graph pending i => exact (closes_pairClose k graph pending i).located located
  | moveTo position =>
      show -(k.size : Int) ≤ (position : Int)
      omega

theorem located_afterAll (located : k.Located) (calls : List Call) :
    (k.afterAll calls).Located := by
  induction calls generalizing k with
  | nil => exact located
  | cons call rest ih => exact ih (located_after located call)

/-- Whatever was called before, a fault in the caller's words is reported. -/
theorem report_afterAll (p : List Char) (calls : List Call) (text : String) :
    ∃ near, ((ofPattern p).afterAll calls).report text =
      .pattern ⟨.reported text, near, ((ofPattern p).afterAll calls).position⟩ := by
  have fresh : (ofPattern p).Located := Int.neg_nonpos_of_nonneg (Int.natCast_nonneg _)
  exact ⟨_, (located_afterAll fresh calls).locate_eq _⟩

/-! ### Compiling from anywhere -/

/-- What is compiled depends on the pattern alone. -/
theorem compile_fst (k : Cursor) : k.compile.1 = EpsilonMatch.compile k.pattern.toList := by
  -- with or without a tree, the position does not come into the outcome
  rw [compile_eq]
  cases found : parse k.pattern.toList with
  | ok b => rw [compile_of_parse found, Array.toArray_toList]
  | error e =>
      rw [compile_of_refuse found]
      simp only [Array.getElem?_toList]

/-- The empty pattern is compiled on the spot. -/
theorem compile_snd_of_empty (empty : k.pattern.toList = []) : k.compile.2 = k := by
  have found : parse k.pattern.toList = .ok (.leading 0) := by
    rw [empty]
    rfl
  rw [compile_of_parse found, if_pos empty]

/-- A compilation that succeeds ends at the last character. -/
theorem position_compile_of_ok {a : Automaton} (compiled : k.compile.1 = .ok a)
    (nonempty : k.pattern.toList ≠ []) : k.compile.2.position = (k.size : Int) - 1 := by
  cases found : parse k.pattern.toList with
  | ok b => rw [compile_of_parse found, if_neg nonempty]
  | error e =>
      rw [compile_of_refuse found] at compiled
      cases compiled

/-- A compilation that fails ends at the place that the error quotes, which is inside the
pattern. -/
theorem position_compile_of_error {e : CompileError} (refused : k.compile.1 = .error e) :
    ∃ text x, ∃ place : Nat, k.compile.2.position = place ∧
      k.pattern.toList[place]? = some x ∧ e = .pattern ⟨text, some x, place⟩ := by
  cases found : parse k.pattern.toList with
  | ok b =>
      rw [compile_of_parse found] at refused
      cases refused
  | error entry =>
      obtain ⟨fault, place⟩ := entry
      obtain ⟨x, stands, -⟩ := exists_operator_of_refuse found
      rw [compile_of_refuse found] at refused ⊢
      obtain rfl : _ = e := Except.error.inj refused
      have near : k.pattern[place]? = some x := by rwa [← Array.getElem?_toList]
      exact ⟨fault, x, place, rfl, stands, by rw [near]⟩

/-! ### Summary -/

/-- **A cursor can be used again.** Whatever was called before, with whatever outcome, compiling
comes to what it comes to for a fresh cursor, and the pattern stays. A cursor of the empty pattern
stays where it is. Otherwise a compilation that succeeds ends at the last character, and one that
fails at the position that its report quotes. -/
theorem compile_reusable {p : List Char} {calls : List Call}
    (used : (ofPattern p).afterAll calls = k) :
    k.compile.1 = EpsilonMatch.compile p ∧
    (k.pattern.toList = p ∧ k.size = p.length ∧ k.compile.2.size = p.length) ∧
    (p = [] → (∃ a, k.compile.1 = .ok a) ∧ k.compile.2 = k) ∧
    (∀ a, k.compile.1 = .ok a → p ≠ [] → k.compile.2.position = (p.length : Int) - 1) ∧
    ∀ e, k.compile.1 = .error e → ∃ fault x, ∃ place : Nat,
      e = .pattern ⟨fault, some x, place⟩ ∧ p[place]? = some x ∧
      e.message = fault.message ++ " - near '" ++ String.singleton x ++ "' at position " ++
        toString place ∧
      k.compile.2.position = place := by
  have pattern : k.pattern = p.toArray := by rw [← used, pattern_afterAll, ofPattern]
  have text : k.pattern.toList = p := by rw [pattern]
  have size : k.size = p.length := by rw [Cursor.size, pattern, List.size_toArray]
  have same : k.compile.1 = EpsilonMatch.compile p := by rw [compile_fst, text]
  refine ⟨same, ⟨text, size, by rw [size_compile, size]⟩, fun empty => ?_, ?_, ?_⟩
  · rw [same, empty]
    exact ⟨⟨_, rfl⟩, compile_snd_of_empty (text.trans empty)⟩
  · intro a compiled nonempty
    rw [position_compile_of_ok compiled (by rwa [text]), size]
  · intro e refused
    obtain ⟨fault, x, place, position, stands, rfl⟩ := position_compile_of_error refused
    rw [text] at stands
    exact ⟨fault, x, place, rfl, stands, rfl, position⟩

/-- A session with every kind of call: the pattern is compiled, the position is moved past the
end, a fault is reported there, and a group is closed over two positions that count from the end. -/
def roughSession : List Call :=
  [.compile, .moveTo 9, .report "lost", .pairClose (.edgeless 4) [-2, -2] 2]

/-- The session leaves the cursor at `-2`, the place of a `|`. From there, `|(` is refused and `(|)`
compiled as by a fresh cursor. -/
theorem roughSession_compile :
    ((ofPattern ['|', '(']).afterAll roughSession = ⟨#['|', '('], -2⟩ ∧
      compile ⟨#['|', '('], -2⟩ =
        (EpsilonMatch.compile ['|', '('], ⟨#['|', '('], 1⟩)) ∧
    (ofPattern ['(', '|', ')']).afterAll roughSession = ⟨#['(', '|', ')'], -2⟩ ∧
      compile ⟨#['(', '|', ')'], -2⟩ =
        (EpsilonMatch.compile ['(', '|', ')'], ⟨#['(', '|', ')'], 2⟩) := by
  have refused : (ofPattern ['|', '(']).afterAll roughSession = ⟨#['|', '('], -2⟩ := rfl
  have compiled : (ofPattern ['(', '|', ')']).afterAll roughSession =
      ⟨#['(', '|', ')'], -2⟩ := rfl
  exact ⟨⟨refused, Prod.ext (compile_reusable refused).1 rfl⟩,
    compiled, Prod.ext (compile_reusable compiled).1 rfl⟩

end Cursor

end EpsilonMatch
