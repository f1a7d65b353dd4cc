import EpsilonMatch.Pattern.Compiler
import EpsilonMatch.Proofs.Pattern.Edges
/-!
# EpsilonMatch.Proofs.Pattern.Pass

The left-to-right pass finds the moves of the tree.

A pass and a draft that read the same characters stay in step: the pass waits at
the positions at which the draft waits, and its graph holds the moves of the
draft (`Draft.scan`). So the pass fails where the reader refuses, with the same
fault at the same place, and a finished pass leaves the moves of the tree. This
module provides:

* `Scan.step_of_read` and `Scan.step_of_refuse` — one step of the pass is one
  step of the reader;
* `Scan.scanFrom_of_readAll` and `Scan.scanFrom_of_refuse` — the same for a whole
  text; and
* `compile_eq` — compiling is parsing, followed by reading the moves off the
  tree.
-/

namespace EpsilonMatch

open CompileError (locate locate_natCast)

namespace Scan

/-! ### Effects

What each effect does to a scan, and how effects compose. -/

theorem bind_of_ok {α β : Type} {m : ScanM α} {f : α → ScanM β} {a : α} {s s' : Scan}
    (h : m s = .ok a s') : (m >>= f) s = f a s' := by
  show EStateM.bind m f s = _
  rw [EStateM.bind, h]

theorem bind_of_error {α β : Type} {m : ScanM α} {f : α → ScanM β} {e : CompileError}
    {s s' : Scan} (h : m s = .error e s') : (m >>= f) s = .error e s' := by
  show EStateM.bind m f s = _
  rw [EStateM.bind, h]

variable {pattern : Array Char} {position : Int} {n : Nat} {waits : List Int} {g : Graph}
  {edges : List (Nat × Nat)}

theorem moveTo_run (i : Int) (s : Scan) : moveTo i s = .ok () { s with position := i } := rfl

theorem pop_cons (fault : PatternFault) (i : Int) :
    pop pattern fault ⟨position, i :: waits, g⟩ = .ok i ⟨position, waits, g⟩ := rfl

theorem pop_nil (fault : PatternFault) :
    pop pattern fault ⟨position, [], g⟩ =
      .error (locate pattern position fault) ⟨position, [], g⟩ := rfl

theorem symbolAt_run {i : Int} {c : Char} (h : charAt? pattern i = some c) (s : Scan) :
    symbolAt pattern i s = .ok c s := by
  rw [symbolAt, h]
  rfl

theorem symbolAt_past {i : Int} (h : charAt? pattern i = none) (s : Scan) :
    symbolAt pattern i s = .error .pastPattern s := by
  rw [symbolAt, h]
  rfl

theorem connect_of_ok {v w : Int} {g' : Graph} (h : Graph.connect v w g = .ok () g') :
    connect v w ⟨position, waits, g⟩ = .ok () ⟨position, waits, g'⟩ := by
  simp only [connect, onGraph, h]

theorem connect_of_error {v w : Int} {e : GraphError} {g' : Graph}
    (h : Graph.connect v w g = .error e g') :
    connect v w ⟨position, waits, g⟩ = .error (.edge e) ⟨position, waits, g'⟩ := by
  simp only [connect, onGraph, h]

theorem connect_run {v w : Nat} (hv : v < n) (hw : w < n) :
    connect v w ⟨position, waits, .ofEdges n edges⟩ =
      .ok () ⟨position, waits, .ofEdges n (edges ++ [(v, w)])⟩ :=
  connect_of_ok (Graph.connect_ofEdges hv hw)

end Scan

/-! ### Drafts as scans -/

namespace Draft

/-- The scan that has come as far as a draft: `followed` says whether the next
character is a `*`. -/
def scan (d : Draft) (n : Nat) (position : Int) (followed : Bool) : Scan :=
  ⟨position, waitingPositions d.waiting, .ofEdges n (d.edges followed)⟩

theorem waitingText_isPrefix {d : Draft} {p rest : List Char} (h : p = d.text ++ rest) :
    waitingText d.waiting <+: p :=
  ⟨d.current.text ++ rest, by rw [h, text, List.append_assoc]⟩

theorem waitingText_tail_isPrefix (entry : Body × Opener) (outer : List (Body × Opener)) :
    waitingText outer <+: waitingText (entry :: outer) :=
  ⟨entry.1.text ++ [entry.2.char], by simp [waitingText]⟩

/-- In the pattern, an operator stands where it waits. -/
theorem getElem?_waiting {pattern : Array Char} {front : Body} {op : Opener}
    {outer : List (Body × Opener)} (h : waitingText ((front, op) :: outer) <+: pattern.toList) :
    pattern[waitingSize outer + front.size]? = some op.char := by
  obtain ⟨rest, h⟩ := h
  have before : (waitingText outer ++ front.text).length = waitingSize outer + front.size := by
    simp
  rw [← Array.getElem?_toList, ← h, waitingText, List.append_assoc, ← before]
  simp

theorem charAt?_waiting {pattern : Array Char} {front : Body} {op : Opener}
    {outer : List (Body × Opener)} (h : waitingText ((front, op) :: outer) <+: pattern.toList) :
    charAt? pattern ((waitingSize outer + front.size : Nat) : Int) = some op.char := by
  rw [charAt?_natCast, getElem?_waiting h]

/-- Behind a draft there is room for the next character. -/
theorem size_lt {d : Draft} {pattern : Array Char} {c : Char} {rest : List Char}
    (h : pattern.toList = d.text ++ c :: rest) : d.size < pattern.size := by
  have := congrArg List.length h
  simp at this
  omega

end Draft

/-! ### One step -/

namespace Scan

variable {pattern : Array Char} {n : Nat}

/-- The move past a character that reads nothing. -/
def advanceEdges (i : Nat) (c : Char) : List (Nat × Nat) :=
  if c = '(' ∨ c = '*' ∨ c = ')' then [(i, i + 1)] else []

theorem lookAhead_run {position : Int} {start i : Nat} {waits : List Int}
    {edges : List (Nat × Nat)} {next? : Option Char} (hstart : start < n) (hi : i + 1 < n) :
    lookAhead start i next? ⟨position, waits, .ofEdges n edges⟩ =
      .ok () ⟨position, waits, .ofEdges n (edges ++ loop start (i + 1) (next? = some '*'))⟩ := by
  rw [lookAhead]
  by_cases hstar : next? = some '*'
  · rw [if_pos hstar]
    refine (bind_of_ok (connect_run hstart hi)).trans ((connect_run hi hstart).trans ?_)
    simp [loop, hstar]
  · simp [loop, hstar]
    rfl

theorem advance_run {position : Int} {i : Nat} {c : Char} {waits : List Int}
    {edges : List (Nat × Nat)} (hi : i + 1 < n) :
    advance i c ⟨position, waits, .ofEdges n edges⟩ =
      .ok () ⟨position, waits, .ofEdges n (edges ++ advanceEdges i c)⟩ := by
  rw [advance]
  by_cases hc : c = '(' ∨ c = '*' ∨ c = ')'
  · rw [if_pos hc, advanceEdges, if_pos hc]
    exact connect_run (by omega) hi
  · simp [advanceEdges, hc]
    rfl

/-- A step whose operand has been found adds the moves of the look-ahead and the
one past the character. -/
theorem step_of_operandStart {i start : Nat} {c : Char} {s : Scan} {waits : List Int}
    {edges : List (Nat × Nat)}
    (h : operandStart pattern i c { s with position := i } =
      .ok (start : Int) ⟨i, waits, .ofEdges n edges⟩)
    (hstart : start < n) (hi : i + 1 < n) (next? : Option Char) :
    step pattern i c next? s =
      .ok () ⟨i, waits, .ofEdges n
        (edges ++ loop start (i + 1) (next? = some '*') ++ advanceEdges i c)⟩ := by
  rw [step, bind_of_ok (moveTo_run i s), bind_of_ok h, bind_of_ok (lookAhead_run hstart hi),
    advance_run hi]

/-- A step fails if its operand is not found. -/
theorem step_of_operandStart_error {i : Nat} {c : Char} {s s' : Scan} {e : CompileError}
    (h : operandStart pattern i c { s with position := i } = .error e s') (next? : Option Char) :
    step pattern i c next? s = .error e s' := by
  rw [step, bind_of_ok (moveTo_run i s), bind_of_error h]

/-! ### Closing a group -/

section

variable {i position q o : Int} {waits : List Int} {g : Graph} {c : Char}

/-- A character that is no `|` is taken for the `(` of the group. -/
theorem pairClose_of_ne_bar (here : charAt? pattern q = some c) (other : c ≠ '|') :
    pairClose pattern i ⟨position, q :: waits, g⟩ = .ok q ⟨position, waits, g⟩ := by
  rw [pairClose, bind_of_ok (pop_cons _ q), bind_of_ok (symbolAt_run here _), if_neg other]
  rfl

/-- Closing a group with two branches comes down to its two moves. -/
theorem pairClose_of_bar (left : charAt? pattern q = some '(')
    (bar : charAt? pattern o = some '|') :
    pairClose pattern i ⟨position, o :: q :: waits, g⟩ =
      (do connect q (o + 1); connect o i; return q : ScanM Int) ⟨position, waits, g⟩ := by
  rw [pairClose, bind_of_ok (pop_cons _ o), bind_of_ok (symbolAt_run bar _), if_pos rfl,
    bind_of_ok (pop_cons _ q), bind_of_ok (symbolAt_run left _), if_neg (by decide)]

theorem pairClose_past (past : charAt? pattern q = none) :
    pairClose pattern i ⟨position, q :: waits, g⟩ =
      .error .pastPattern ⟨position, waits, g⟩ := by
  rw [pairClose, bind_of_ok (pop_cons _ q), bind_of_error (symbolAt_past past _)]

theorem pairClose_pastBar (past : charAt? pattern q = none)
    (bar : charAt? pattern o = some '|') :
    pairClose pattern i ⟨position, o :: q :: waits, g⟩ =
      .error .pastPattern ⟨position, waits, g⟩ := by
  rw [pairClose, bind_of_ok (pop_cons _ o), bind_of_ok (symbolAt_run bar _), if_pos rfl,
    bind_of_ok (pop_cons _ q), bind_of_error (symbolAt_past past _)]

theorem pairClose_unmatched :
    pairClose pattern i ⟨position, [], g⟩ =
      .error (locate pattern position .unmatchedClose) ⟨position, [], g⟩ := by
  rw [pairClose, bind_of_error (pop_nil _)]

theorem pairClose_outside (bar : charAt? pattern o = some '|') :
    pairClose pattern i ⟨position, [o], g⟩ =
      .error (locate pattern position .barOutsideGroup) ⟨position, [], g⟩ := by
  rw [pairClose, bind_of_ok (pop_cons _ o), bind_of_ok (symbolAt_run bar _), if_pos rfl,
    bind_of_error (pop_nil _)]

theorem pairClose_second (first : charAt? pattern q = some c) (other : c ≠ '(')
    (bar : charAt? pattern o = some '|') :
    pairClose pattern i ⟨position, o :: q :: waits, g⟩ =
      .error (locate pattern q .barNeedsGroup) ⟨q, waits, g⟩ := by
  rw [pairClose, bind_of_ok (pop_cons _ o), bind_of_ok (symbolAt_run bar _), if_pos rfl,
    bind_of_ok (pop_cons _ q), bind_of_ok (symbolAt_run first _), if_pos other]
  rfl

end

theorem pairClose_choice {position : Int} {q o i : Nat} {waits : List Int}
    {edges : List (Nat × Nat)} (left : charAt? pattern q = some '(')
    (bar : charAt? pattern o = some '|') (hq : q < n) (ho : o + 1 < n) (hi : i < n) :
    pairClose pattern i ⟨position, o :: q :: waits, .ofEdges n edges⟩ =
      .ok q ⟨position, waits, .ofEdges n (edges ++ [(q, o + 1), (o, i)])⟩ := by
  rw [pairClose_of_bar left bar]
  refine (bind_of_ok (connect_run hq ho)).trans ?_
  refine (bind_of_ok (connect_run (by omega) hi)).trans ?_
  simp
  rfl

theorem operandStart_self {i : Nat} {c : Char} (hopen : c ≠ '(') (hbar : c ≠ '|')
    (hclose : c ≠ ')') (s : Scan) : operandStart pattern i c s = .ok (i : Int) s := by
  rw [operandStart, if_neg (by simp [hopen, hbar]), if_neg hclose]
  rfl

theorem operandStart_push {i : Nat} {c : Char} (h : c = '(' ∨ c = '|') {position : Int}
    {waits : List Int} {g : Graph} :
    operandStart pattern i c ⟨position, waits, g⟩ = .ok (i : Int) ⟨position, i :: waits, g⟩ := by
  rw [operandStart, if_pos h]
  rfl

theorem operandStart_close (i : Nat) : operandStart pattern i ')' = pairClose pattern i := by
  rw [operandStart, if_neg (by decide), if_pos rfl]

/-! ### The pass and the reader in step -/

open Draft (waitingPositions waitingSize waitingEdges)

/-- Where the reader joins the trees of a group, the pass closes it, from the
`(` on. -/
theorem pairClose_of_close {d d' : Draft} {rest : List Char} (hn : pattern.size < n)
    (text : pattern.toList = d.text ++ ')' :: rest) (h : d.close = .ok d') :
    ∃ start edges, start ≤ d.size ∧
      pairClose pattern d.size (d.scan n d.size false) =
        .ok (start : Int) ⟨d.size, waitingPositions d'.waiting, .ofEdges n edges⟩ ∧
      ∀ followed, d'.edges followed =
        edges ++ loop start (d.size + 1) followed ++ [(d.size, d.size + 1)] := by
  have hsize : d.size < pattern.size := Draft.size_lt text
  have written := Draft.waitingText_isPrefix text
  obtain ⟨waiting, current⟩ := d
  match waiting with
  | [] => simp [Draft.close] at h
  | (front, .group) :: outer =>
      obtain rfl : _ = d' := by simpa [Draft.close] using h
      refine ⟨waitingSize outer + front.size, _, ?_,
        pairClose_of_ne_bar (Draft.charAt?_waiting written) (by decide), fun followed => ?_⟩
      · simp only [Draft.size, waitingSize]
        omega
      · simp [Draft.edges, Draft.size, waitingEdges, waitingSize, Body.edges, Body.starEdges,
          Body.startsStarred, Opener.edges]
  | [(_, .bar)] => simp [Draft.close] at h
  | (first, .bar) :: (front, .group) :: outer =>
      obtain rfl : _ = d' := by simpa [Draft.close] using h
      have left : charAt? pattern (waitingSize outer + front.size : Nat) = some '(' :=
        Draft.charAt?_waiting ((Draft.waitingText_tail_isPrefix _ _).trans written)
      simp only [Draft.size, waitingSize] at hsize
      refine ⟨waitingSize outer + front.size, _, ?_,
        pairClose_choice left (Draft.charAt?_waiting written) ?_ ?_ ?_, fun followed => ?_⟩
      · simp only [Draft.size, waitingSize]
        omega
      · omega
      · simp only [waitingSize]
        omega
      · simp only [Draft.size, waitingSize]
        omega
      · simp [Draft.edges, Draft.size, waitingEdges, waitingSize, Body.edges, Body.starEdges,
          Body.startsStarred, Opener.edges]
  | (_, .bar) :: (_, .bar) :: _ => simp [Draft.close] at h

/-- Where the reader goes on, the operand is found, and what the draft gains are
the moves that closing a group adds, those of the look-ahead and the one past the
character. -/
theorem operandStart_of_read {d d' : Draft} {c : Char} {rest : List Char} (hn : pattern.size < n)
    (text : pattern.toList = d.text ++ c :: rest) (h : d.read c = .ok d') :
    ∃ start edges, start ≤ d.size ∧
      operandStart pattern d.size c (d.scan n d.size (c = '*')) =
        .ok (start : Int) ⟨d.size, waitingPositions d'.waiting, .ofEdges n edges⟩ ∧
      ∀ followed, d'.edges followed =
        edges ++ loop start (d.size + 1) followed ++ advanceEdges d.size c := by
  have hsize : d.size < pattern.size := Draft.size_lt text
  rcases char_cases c with plain | rfl | rfl | rfl | rfl
  · -- an ordinary character is its own operand
    obtain ⟨hopen, hclose, hbar, hstar⟩ := plain_iff.1 plain
    rw [Draft.read_plain d plain] at h
    obtain rfl : _ = d' := by simpa using h
    refine ⟨d.size, d.edges false, Nat.le_refl _, ?_, fun followed => ?_⟩
    · rw [operandStart_self hopen hbar hclose]
      simp [Draft.scan, hstar]
    · simp [Draft.edges, Draft.size, Body.edges, Body.startsStarred, Body.starEdges, advanceEdges,
        hopen, hclose, hstar]
  · -- `*`: its moves to what it repeats came with the look-ahead
    obtain rfl : _ = d' := by simpa using h
    refine ⟨d.size, d.edges true, Nat.le_refl _, ?_, fun followed => ?_⟩
    · rw [operandStart_self (by decide) (by decide) (by decide)]
      simp [Draft.scan]
    · simp [Draft.edges, Draft.size, Body.edges_addStars, Body.startsStarred_addStars,
        advanceEdges, Nat.add_assoc]
  · -- `(`
    obtain rfl : _ = d' := by simpa using h
    refine ⟨d.size, d.edges false, Nat.le_refl _, operandStart_push (.inl rfl), fun followed => ?_⟩
    simp [Draft.edges, Draft.size, waitingEdges, Body.edges, Body.starEdges, Body.startsStarred,
      Opener.edges, advanceEdges]
  · -- `|`
    obtain rfl : _ = d' := by simpa using h
    refine ⟨d.size, d.edges false, Nat.le_refl _, operandStart_push (.inr rfl), fun followed => ?_⟩
    simp [Draft.edges, Draft.size, waitingEdges, Body.edges, Body.starEdges, Body.startsStarred,
      Opener.edges, advanceEdges]
  · -- `)`
    obtain ⟨start, edges, hstart, closed, gained⟩ := pairClose_of_close hn text h
    refine ⟨start, edges, hstart, ?_, fun followed => ?_⟩
    · rw [operandStart_close]
      exact closed
    · rw [gained, advanceEdges, if_pos (by decide)]

/-- One character that the reader takes is one step of the pass. -/
theorem step_of_read {d d' : Draft} {c : Char} {rest : List Char} {position : Int}
    (hn : pattern.size < n) (text : pattern.toList = d.text ++ c :: rest)
    (h : d.read c = .ok d') :
    step pattern d.size c rest.head? (d.scan n position (c = '*')) =
      .ok () (d'.scan n d.size (rest.head? = some '*')) := by
  have hsize : d.size < pattern.size := Draft.size_lt text
  obtain ⟨start, edges, hstart, found, gained⟩ := operandStart_of_read hn text h
  rw [step_of_operandStart found (by omega) (by omega), ← gained]
  rfl

/-- Where the reader refuses to join the trees of a group, the pass fails to close
it, with the same fault at the same place. -/
theorem pairClose_of_refuse {d : Draft} {fault : PatternFault} {place : Nat} {rest : List Char}
    (text : pattern.toList = d.text ++ rest) (h : d.close = .error (fault, place)) :
    ∃ s, pairClose pattern d.size (d.scan n d.size false) =
      .error (locate pattern place fault) s ∧ s.position = place := by
  have written := Draft.waitingText_isPrefix text
  obtain ⟨waiting, current⟩ := d
  match waiting with
  | [] =>
      obtain ⟨rfl, rfl⟩ : _ = fault ∧ _ = place := by simpa [Draft.close] using h
      exact ⟨_, pairClose_unmatched, rfl⟩
  | (front, .group) :: outer => simp [Draft.close] at h
  | [(front, .bar)] =>
      obtain ⟨rfl, rfl⟩ : _ = fault ∧ _ = place := by simpa [Draft.close] using h
      exact ⟨_, pairClose_outside (Draft.charAt?_waiting written), rfl⟩
  | (_, .bar) :: (_, .group) :: _ => simp [Draft.close] at h
  | (left, .bar) :: (front, .bar) :: outer =>
      obtain ⟨rfl, rfl⟩ : _ = fault ∧ _ = place := by simpa [Draft.close] using h
      have first : charAt? pattern (waitingSize outer + front.size : Nat) = some '|' :=
        Draft.charAt?_waiting ((Draft.waitingText_tail_isPrefix _ _).trans written)
      exact ⟨_, pairClose_second first (by decide) (Draft.charAt?_waiting written), rfl⟩

/-- One character that the reader refuses is a step at which the pass fails. -/
theorem step_of_refuse {d : Draft} {c : Char} {fault : PatternFault} {place : Nat}
    {position : Int} {rest : List Char} (text : pattern.toList = d.text ++ c :: rest)
    (h : d.read c = .error (fault, place)) :
    ∃ s, step pattern d.size c rest.head? (d.scan n position (c = '*')) =
      .error (locate pattern place fault) s ∧ s.position = place := by
  rcases char_cases c with plain | rfl | rfl | rfl | rfl
  · simp [Draft.read_plain d plain] at h
  · simp at h
  · simp at h
  · simp at h
  · -- only `)` is ever refused
    obtain ⟨s, failed, hs⟩ := pairClose_of_refuse text h
    refine ⟨s, step_of_operandStart_error ?_ _, hs⟩
    rw [operandStart_close]
    exact failed

/-! ### The whole text -/

/-- A text that the reader takes is one that the pass gets through. The pass ends
at the last character; if there is none, it stays where it is. -/
theorem scanFrom_of_readAll {rest : List Char} {d d' : Draft} {position : Int}
    (hn : pattern.size < n) (text : pattern.toList = d.text ++ rest)
    (h : d.readAll rest = .ok d') :
    scanFrom pattern d.size rest (d.scan n position (rest.head? = some '*')) =
      .ok () (d'.scan n (if rest = [] then position else (pattern.size : Int) - 1) false) := by
  induction rest generalizing d position with
  | nil =>
      obtain rfl : d = d' := by simpa using h
      rfl
  | cons c rest ih =>
      cases hc : d.read c with
      | error e => simp [Draft.readAll_cons, hc, Except.bind] at h
      | ok next =>
          rw [Draft.readAll_cons_of_read hc] at h
          have text' : pattern.toList = next.text ++ rest := by simp [text, Draft.text_read hc]
          have taken : step pattern d.size c rest.head? (d.scan n position (c = '*')) = _ :=
            step_of_read hn text hc
          -- the last step is the one that moves to the last character
          have last : (if rest = [] then (d.size : Int) else (pattern.size : Int) - 1) =
              (pattern.size : Int) - 1 := by
            have room : pattern.size = d.size + (rest.length + 1) := by
              simpa using congrArg List.length text
            split
            · simp_all
            · rfl
          simp only [List.head?_cons, Option.some.injEq, reduceCtorEq, if_false]
          rw [scanFrom, bind_of_ok taken, ← Draft.size_read hc, ih text' h, last]

/-- A text that the reader refuses is one at which the pass fails. -/
theorem scanFrom_of_refuse {rest : List Char} {d : Draft} {fault : PatternFault}
    {place : Nat} {position : Int} (hn : pattern.size < n)
    (text : pattern.toList = d.text ++ rest)
    (h : d.readAll rest = .error (fault, place)) :
    ∃ s, scanFrom pattern d.size rest (d.scan n position (rest.head? = some '*')) =
      .error (locate pattern place fault) s ∧ s.position = place := by
  induction rest generalizing d position with
  | nil => simp at h
  | cons c rest ih =>
      simp only [List.head?_cons, Option.some.injEq]
      cases hc : d.read c with
      | error e =>
          obtain rfl : e = (fault, place) := by simpa [Draft.readAll_cons, hc, Except.bind] using h
          obtain ⟨s, failed, hs⟩ := step_of_refuse text hc
          exact ⟨s, by rw [scanFrom, bind_of_error failed], hs⟩
      | ok next =>
          rw [Draft.readAll_cons_of_read hc] at h
          have text' : pattern.toList = next.text ++ rest := by simp [text, Draft.text_read hc]
          have taken : step pattern d.size c rest.head? (d.scan n position (c = '*')) = _ :=
            step_of_read hn text hc
          obtain ⟨s, failed, hs⟩ := ih text' h
          exact ⟨s, by rw [scanFrom, bind_of_ok taken, ← Draft.size_read hc, failed], hs⟩

theorem finish_of_finish {d : Draft} {b : Body} (h : d.finish = .ok b) {position : Int} :
    finish pattern (d.scan n position false) =
      .ok () ⟨position, [], .ofEdges n (b.edges false 0)⟩ := by
  obtain ⟨waiting, current⟩ := d
  cases waiting with
  | nil =>
      obtain rfl : current = b := by simpa [Draft.finish] using h
      rfl
  | cons entry outer => simp [Draft.finish] at h

theorem finish_of_refuse {d : Draft} {fault : PatternFault} {place : Nat}
    (h : d.finish = .error (fault, place)) {position : Int} :
    ∃ s, finish pattern (d.scan n position false) =
      .error (locate pattern place fault) s ∧ s.position = place := by
  obtain ⟨waiting, current⟩ := d
  cases waiting with
  | nil => simp [Draft.finish] at h
  | cons entry outer =>
      obtain ⟨rfl, rfl⟩ : _ = fault ∧ _ = place := by simpa [Draft.finish] using h
      exact ⟨_, rfl, rfl⟩

theorem start_eq (n : Nat) (position : Int) (followed : Bool) :
    (⟨position, [], .edgeless n⟩ : Scan) = Draft.empty.scan n position followed := by
  rw [Graph.edgeless_eq_ofEdges, Draft.scan, Draft.edges_empty]
  rfl

/-- The pass over the pattern of a tree leaves the moves of the tree. -/
theorem whole_of_parse {b : Body} (hn : pattern.size < n) (h : parse pattern.toList = .ok b)
    (position : Int) :
    whole pattern ⟨position, [], .edgeless n⟩ =
      .ok () ⟨if pattern.toList = [] then position else (pattern.size : Int) - 1, [],
        .ofEdges n (b.edges false 0)⟩ := by
  obtain ⟨d, hd, finished⟩ := exists_finish_of_parse h
  rw [whole, start_eq n position (pattern.toList.head? = some '*')]
  exact (bind_of_ok (scanFrom_of_readAll hn rfl hd)).trans (finish_of_finish finished)

/-- The pass over a refused pattern fails, with the same fault at the same place,
and stops there. -/
theorem whole_of_refuse {fault : PatternFault} {place : Nat} (hn : pattern.size < n)
    (h : parse pattern.toList = .error (fault, place)) (position : Int) :
    ∃ s, whole pattern ⟨position, [], .edgeless n⟩ =
      .error (locate pattern place fault) s ∧ s.position = place := by
  rw [whole, start_eq n position (pattern.toList.head? = some '*')]
  rcases refused_of_parse h with refused | ⟨d, hd, refused⟩
  · obtain ⟨s, failed, hs⟩ := scanFrom_of_refuse hn rfl refused
    exact ⟨s, bind_of_error failed, hs⟩
  · obtain ⟨s, failed, hs⟩ := finish_of_refuse refused
    exact ⟨s, (bind_of_ok (scanFrom_of_readAll hn rfl hd)).trans failed, hs⟩

end Scan

/-! ### Compiling -/

namespace Cursor

variable {k : Cursor}

/-- The pattern of a tree is compiled to the moves of the tree, from wherever the
cursor stands. The cursor ends at the last character. -/
theorem compile_of_parse {b : Body} (h : parse k.pattern.toList = .ok b) :
    k.compile =
      (.ok { symbols := k.pattern, moves := b.moves },
        { k with
          position := if k.pattern.toList = [] then k.position else (k.size : Int) - 1 }) := by
  have size : k.size = b.size := by
    rw [← b.length_text, parse_eq_ok_iff.1 h]
    simp [size]
  have sealable : (Graph.ofEdges (k.size + 1) (b.edges false 0)).seal = .ok b.moves := by
    rw [size]
    exact SealedGraph.seal_ofEdges _
  have passed := Scan.whole_of_parse (Nat.lt_succ_self k.size) h k.position
  simp only [compile, runScan, EStateM.run, passed, sealable]
  rfl

/-- A refused pattern is not compiled. The cursor ends at the place of the
fault. -/
theorem compile_of_refuse {fault : PatternFault} {place : Nat}
    (h : parse k.pattern.toList = .error (fault, place)) :
    k.compile =
      (.error (.pattern { fault, near := k.pattern[place]?, position := place }),
        { k with position := place }) := by
  obtain ⟨s, failed, hs⟩ := Scan.whole_of_refuse (Nat.lt_succ_self k.size) h k.position
  rw [locate_natCast] at failed
  simp only [compile, runScan, EStateM.run, failed, hs]
  rfl

end Cursor

/-- Compiling is parsing, followed by reading the moves off the tree. -/
theorem compile_eq (p : List Char) :
    compile p =
      match parse p with
      | .ok b => .ok { symbols := p.toArray, moves := b.moves }
      | .error (fault, place) =>
        .error (.pattern { fault, near := p[place]?, position := place }) := by
  cases h : parse p with
  | ok b =>
      have parsed : parse (Cursor.ofPattern p).pattern.toList = .ok b := h
      rw [compile, Cursor.compile_of_parse parsed]
      rfl
  | error e =>
      have refused : parse (Cursor.ofPattern p).pattern.toList = .error (e.1, e.2) := h
      rw [compile, Cursor.compile_of_refuse refused]
      simp [Cursor.ofPattern]

/-- The automaton that the pattern of a tree is compiled to. -/
def Body.automaton (b : Body) : Automaton where
  symbols := b.text.toArray
  moves := b.moves

theorem compile_text (b : Body) : compile b.text = .ok b.automaton := by
  rw [compile_eq, parse_eq_ok_iff.2 rfl]
  rfl

theorem exists_text_of_compile {p : List Char} {a : Automaton} (h : compile p = .ok a) :
    ∃ b : Body, b.text = p ∧ b.automaton = a := by
  rw [compile_eq] at h
  cases hp : parse p with
  | ok b =>
      rw [hp] at h
      have text := parse_eq_ok_iff.1 hp
      refine ⟨b, text, ?_⟩
      rw [Body.automaton, text]
      exact Except.ok.inj h
  | error e =>
      rw [hp] at h
      cases h

end EpsilonMatch
