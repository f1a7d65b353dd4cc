import EpsilonMatch.CommandLine
import EpsilonMatch.Proofs.Automaton.Listing
import EpsilonMatch.Proofs.Pattern.Enclosure
/-!
# EpsilonMatch.Proofs.CommandLine

What the program reports about the pattern on its command line.

The program puts the pattern between a `(` and a `)` before it compiles it. This changes
nothing about a pattern that is compiled as it stands: the group has the same language,
and a text is refused on its own account. So the report is the verdict of the pattern
itself (`run_iff_accepts`). A fragment that is no pattern may still be compiled: two
patterns with a `|` between them, as intended, and a fragment that closes the `(` in
front of it and opens a group for the `)` behind it (`run_refused_iff`).

Whatever the arguments, the program reports every error itself (`escaped_run`).
-/

namespace EpsilonMatch

/-! ### A pattern in a group of its own -/

/-- In parentheses, a pattern has the same answer to every text. -/
theorem Body.accepts_bracketed (b : Body) (x : List Char) :
    b.bracketed.automaton.accepts x = b.automaton.accepts x := by
  cases found : Automaton.firstMeta? x with
  | none =>
      have plain := Automaton.firstMeta?_eq_none_iff.1 found
      obtain ⟨v, accepted, meaning⟩ := b.bracketed.exists_accepts_automaton plain
      obtain ⟨v', accepted', meaning'⟩ := b.exists_accepts_automaton plain
      have same : v = v' := by
        rw [Bool.eq_iff_iff, meaning, meaning', language_bracketed]
      rw [accepted, accepted', same]
  | some entry =>
      obtain ⟨c, i⟩ := entry
      rw [Automaton.accepts_of_firstMeta? found, Automaton.accepts_of_firstMeta? found]

namespace CommandLine

variable {pattern text : String} {more : List String} {a : Automaton}

/-! ### Reports -/

theorem Report.failure_injective : Function.Injective Report.failure := by
  intro m m' h
  have stderr := congrArg (fun r : Report => r.stderr.toList) h
  simpa [Report.failure, String.toList_inj] using stderr

theorem success_verdictText_eq_iff {v verdict : Bool} :
    Report.success (verdictText v) =
        { exitCode := 0, stdout := if verdict then "True\n" else "False\n", stderr := "" } ↔
      v = verdict := by
  cases v with
  | true => cases verdict <;> simp [Report.success, verdictText]
  | false => cases verdict <;> simp [Report.success, verdictText]

/-- Whatever follows it, a pattern that is malformed in parentheses is reported. -/
theorem run_of_error {e : PatternError}
    (h : compile ('(' :: pattern.toList ++ [')']) = .error (.pattern e)) (more : List String) :
    run (pattern :: more) = .failure e.message := by
  cases more with
  | nil =>
      simp only [run, listingReport, enclose, h]
      rfl
  | cons text rest =>
      simp only [run, matchReport, enclose, h]
      rfl

/-- The verdict of the pattern in parentheses is printed. -/
theorem run_of_accepted (h : compile ('(' :: pattern.toList ++ [')']) = .ok a) {verdict : Bool}
    (accepted : a.accepts text.toList = .ok verdict) (more : List String) :
    run (pattern :: text :: more) = .success (verdictText verdict) := by
  simp only [run, matchReport, enclose, h, accepted]

/-- A text with an operator is reported. -/
theorem run_of_refused (h : compile ('(' :: pattern.toList ++ [')']) = .ok a) {c : Char} {i : Nat}
    (refused : a.accepts text.toList = .error (.metacharacter c i)) (more : List String) :
    run (pattern :: text :: more) = .failure (MatchError.metacharacter c i).message := by
  simp only [run, matchReport, enclose, h, refused]
  rfl

/-! ### Errors that escape -/

theorem escaped_matchReport (p x : List Char) : (matchReport p x).escaped = none := by
  by_cases wellFormed : WellFormed p
  · obtain ⟨b, rfl⟩ := wellFormed_iff_exists_text.1 wellFormed
    rcases Automaton.accepts_cases b.fits_automaton x with ⟨v, accepted⟩ | ⟨c, i, refused⟩
    · simp only [matchReport, compile_text, accepted]
      rfl
    · simp only [matchReport, compile_text, refused]
      rfl
  · obtain ⟨e, refused⟩ := compile_of_not_wellFormed wellFormed
    simp only [matchReport, refused]
    rfl

/-- The automaton of a pattern has a symbol or the accept state for each of its vertices. -/
theorem escaped_listingReport (p : List Char) : (listingReport p).escaped = none := by
  by_cases wellFormed : WellFormed p
  · obtain ⟨b, rfl⟩ := wellFormed_iff_exists_text.1 wellFormed
    have listed : b.automaton.listing.failure = none := by
      rw [Automaton.listing_eq, b.fits_automaton]
      exact if_neg (Nat.lt_irrefl _)
    simp only [listingReport, compile_text, listed]
    rfl
  · obtain ⟨e, refused⟩ := compile_of_not_wellFormed wellFormed
    simp only [listingReport, refused]
    rfl

/-- **No error escapes.** Whatever the arguments, the program ends with an exit code. -/
theorem escaped_run (args : List String) : (run args).escaped = none := by
  match args with
  | [] => exact escaped_matchReport _ _
  | [pattern] => exact escaped_listingReport _
  | pattern :: text :: _ => exact escaped_matchReport _ _

/-! ### Which patterns are refused -/

/-- **Which fragments are refused.** With or without a text behind it, a fragment is
reported as malformed unless it is a pattern, or two patterns with a `|` between them,
or a fragment whose parentheses belong to two groups. No fragment is of the last kind
and one of the others, and the parentheses around a fragment are a pair exactly if it
is not of the last kind. -/
theorem run_refused_iff (fragment : String) (more : List String) :
    ((∃ e : PatternError, compile ('(' :: fragment.toList ++ [')']) = .error (.pattern e) ∧
        run (fragment :: more) =
          { exitCode := 1, stdout := "", stderr := "Error: " ++ e.message ++ "\n" }) ↔
      ¬ (Enclosable fragment.toList ∨ Straddles fragment.toList)) ∧
    ¬ (Enclosable fragment.toList ∧ Straddles fragment.toList) ∧
    ∀ b : Body, b.text = '(' :: fragment.toList ++ [')'] →
      ((∃ place ∈ b.groups 0, place.left = 0 ∧ place.right = fragment.toList.length + 1) ↔
        Enclosable fragment.toList) := by
  refine ⟨?_, fun h => h.2.not_enclosable h.1, fun b text => Body.mem_groups_enclosed_iff text⟩
  have compiles : Compiles ('(' :: fragment.toList ++ [')']) ↔ _ := compiles_enclosed_iff
  rw [← compiles]
  constructor
  · intro refused compiled
    obtain ⟨e, failed, -⟩ := refused
    obtain ⟨a, h⟩ := compiled
    rw [h] at failed
    cases failed
  · intro refused
    obtain ⟨e, failed⟩ := compile_of_not_wellFormed fun h => refused (compiles_iff.2 h)
    exact ⟨e, failed, run_of_error failed more⟩

/-- The tree of `(c)(d)`. -/
def twoGroups : Body :=
  .group (.group (.leading 0) (.symbol (.leading 0) 'c' rfl 0) 0)
    (.symbol (.leading 0) 'd' rfl 0) 0

/-- The fragment `c)(d`, whose parentheses belong to two groups. -/
theorem twoGroups_run_refused_iff :
    twoGroups.text = '(' :: "c)(d".toList ++ [')'] ∧
    ¬ (∃ e : PatternError, compile ('(' :: "c)(d".toList ++ [')']) = .error (.pattern e) ∧
      run ["c)(d", "cd"] =
        { exitCode := 1, stdout := "", stderr := "Error: " ++ e.message ++ "\n" }) ∧
    ¬ ∃ place ∈ twoGroups.groups 0, place.left = 0 ∧ place.right = "c)(d".toList.length + 1 := by
  have text : twoGroups.text = '(' :: "c)(d".toList ++ [')'] := by decide
  have straddles : Straddles "c)(d".toList := by
    refine ⟨['c'], [], ['d'], by decide, ?_, ?_, ?_⟩
    · exact enclosable_text (.symbol (.leading 0) 'c' rfl 0)
    · exact compiles_iff.2 .nil
    · exact enclosable_text (.symbol (.leading 0) 'd' rfl 0)
  obtain ⟨refused, disjoint, paired⟩ := run_refused_iff "c)(d" ["cd"]
  refine ⟨text, fun h => refused.1 h (.inr straddles), fun h => ?_⟩
  exact disjoint ⟨(paired _ text).1 h, straddles⟩

/-- The fragment `c)(d` is neither a pattern nor two with a `|` between them, and yet it
matches `cd`: its parentheses are not a pair. -/
theorem not_always_enclosed :
    (¬ ∀ (fragment : String) (more : List String), ¬ Enclosable fragment.toList →
      (run (fragment :: more)).exitCode = 1 ∧ (run (fragment :: more)).stdout = "" ∧
        ∃ message, (run (fragment :: more)).stderr = "Error: " ++ message) ∧
    ¬ ∀ (fragment : String) (b : Body), b.text = '(' :: fragment.toList ++ [')'] →
      ∃ place ∈ b.groups 0, place.left = 0 ∧ place.right = fragment.toList.length + 1 := by
  have text : twoGroups.text = '(' :: "c)(d".toList ++ [')'] := by decide
  have apart : ¬ ∃ place ∈ twoGroups.groups 0,
      place.left = 0 ∧ place.right = "c)(d".toList.length + 1 := by decide
  constructor
  · intro always
    have matched : run ["c)(d", "cd"] = .success "True\n" := by decide +kernel
    have none : ¬ Enclosable "c)(d".toList := by
      rw [← Body.mem_groups_enclosed_iff text]
      exact apart
    have failed := (always "c)(d" ["cd"] none).1
    rw [matched] at failed
    exact absurd failed (by decide)
  · intro always
    exact apart (always "c)(d" twoGroups text)

/-! ### Which answers are given -/

/-- **The report is the answer of the pattern itself.** For a pattern that is compiled
as it stands, parentheses around it change no answer. So the program prints a verdict
exactly if the automaton of the pattern has it, and fails with a message exactly if that
automaton refuses the text with it; and one of the two is the case. -/
theorem run_iff_accepts (h : compile pattern.toList = .ok a) :
    (∃ enclosed, compile ('(' :: pattern.toList ++ [')']) = .ok enclosed ∧
      ∀ x : List Char, enclosed.accepts x = a.accepts x) ∧
    ∀ (text : String) (more : List String),
      (∀ verdict : Bool,
        run (pattern :: text :: more) =
            { exitCode := 0, stdout := if verdict then "True\n" else "False\n", stderr := "" } ↔
          a.accepts text.toList = .ok verdict) ∧
      (∀ message : String,
        run (pattern :: text :: more) =
            { exitCode := 1, stdout := "", stderr := "Error: " ++ message ++ "\n" } ↔
          ∃ c i, a.accepts text.toList = .error (.metacharacter c i) ∧
            (MatchError.metacharacter c i).message = message) ∧
      ((∃ verdict, a.accepts text.toList = .ok verdict) ∨
        ∃ c i, a.accepts text.toList = .error (.metacharacter c i)) := by
  obtain ⟨b, written, rfl⟩ := exists_text_of_compile h
  have enclosed : compile ('(' :: pattern.toList ++ [')']) = .ok b.bracketed.automaton := by
    rw [← written, ← b.text_bracketed, compile_text]
  refine ⟨⟨_, enclosed, b.accepts_bracketed⟩, fun text more => ?_⟩
  rcases Automaton.accepts_cases b.fits_automaton text.toList with ⟨v, accepted⟩ | ⟨c, i, refused⟩
  · have report := run_of_accepted enclosed ((b.accepts_bracketed _).trans accepted) more
    rw [report, accepted]
    refine ⟨fun verdict => ?_, fun message => ?_, .inl ⟨v, rfl⟩⟩
    · rw [Except.ok.injEq]
      exact success_verdictText_eq_iff
    · simp [Report.success]
  · have report := run_of_refused enclosed ((b.accepts_bracketed _).trans refused) more
    rw [report, refused]
    refine ⟨fun verdict => ?_, fun message => ?_, .inr ⟨c, i, rfl⟩⟩
    · simp [Report.failure]
    · refine (Report.failure_injective.eq_iff (b := message)).trans ?_
      constructor
      · intro same
        exact ⟨c, i, rfl, same⟩
      · intro same
        obtain ⟨c', i', h, same⟩ := same
        rw [← same, Except.error.inj h]

/-- The tree of `*(c)(d)*`. -/
def starredEnds : Body :=
  .group (.group (.leading 1) (.symbol (.leading 0) 'c' rfl 0) 0)
    (.symbol (.leading 0) 'd' rfl 0) 1

/-- On the command line, `*(c)(d)*` matches `cdd` and refuses `c|`, as it does by
itself. -/
theorem starredEnds_run_iff_accepts :
    compile "*(c)(d)*".toList = .ok starredEnds.automaton ∧
    (run ["*(c)(d)*", "cdd", "more"] = { exitCode := 0, stdout := "True\n", stderr := "" } ↔
      starredEnds.automaton.accepts "cdd".toList = .ok true) ∧
    (run ["*(c)(d)*", "c|"] =
        { exitCode := 1, stdout := "",
          stderr := "Error: " ++ (MatchError.metacharacter '|' 1).message ++ "\n" } ↔
      ∃ c i, starredEnds.automaton.accepts "c|".toList = .error (.metacharacter c i) ∧
        (MatchError.metacharacter c i).message = (MatchError.metacharacter '|' 1).message) := by
  have compiled : compile "*(c)(d)*".toList = .ok starredEnds.automaton :=
    compile_text starredEnds
  obtain ⟨-, answers⟩ := run_iff_accepts compiled
  exact ⟨compiled, (answers "cdd" ["more"]).1 true, (answers "c|" []).2.1 _⟩

end CommandLine

end EpsilonMatch
