import EpsilonMatch.Proofs.Pattern.Acceptance
import Mathlib.Logic.ExistsUnique
/-!
# EpsilonMatch.Proofs.Pattern.Diagnosis

Which fault is reported for a pattern that is refused, and at which position.

A text that the pass gets through can be cut at the operators that still wait in it, in
one way only, such that every piece is a pattern (`Cut`). The cut of what was read tells
whether the next `)` is refused, and why; if no `)` is, an operator still waits at the end.
This module provides:

* `Draft.readAll_text_self` — a draft is what reading its text comes to, so that a text has
  at most one draft, and with it at most one cut;
* `Scan.firstSteps` and `scanned_iff` — the texts that the pass gets through are those of
  drafts; and
* `compile_diagnosis` — the fault, its wording and its position, read off the cuts.
-/

namespace EpsilonMatch

/-! ### Drafts and their texts -/

namespace Draft

/-- Reading the text of a draft comes to the draft. -/
theorem readAll_text_self (d : Draft) : empty.readAll d.text = .ok d := by
  obtain ⟨waiting, current⟩ := d
  induction waiting generalizing current with
  | nil => exact readAll_text [] current
  | cons entry outer ih =>
      obtain ⟨front, op⟩ := entry
      have before : empty.readAll (waitingText outer ++ front.text) = .ok ⟨outer, front⟩ :=
        ih front
      have opened : read ⟨outer, front⟩ op.char = .ok ⟨(front, op) :: outer, .leading 0⟩ := by
        cases op with
        | group => rfl
        | bar => rfl
      rw [text, waitingText, List.append_assoc, readAll_append_of_readAll before]
      exact (readAll_cons_of_read opened _).trans (readAll_text _ current)

theorem text_injective : Function.Injective text := by
  intro d d' same
  have read := readAll_text_self d
  rw [same, readAll_text_self d'] at read
  exact (Except.ok.inj read).symm

/-- The texts that can be read are those of drafts. -/
theorem exists_readAll_iff {x : List Char} :
    (∃ d, empty.readAll x = .ok d) ↔ ∃ d : Draft, d.text = x := by
  constructor
  · intro reads
    obtain ⟨d, read⟩ := reads
    exact ⟨d, text_readAll read⟩
  · intro written
    obtain ⟨d, rfl⟩ := written
    exact ⟨d, readAll_text_self d⟩

/-- Only a `)` is ever refused. -/
theorem exists_close_of_refuse {d : Draft} {x : List Char} {e : PatternFault × Nat}
    (h : d.readAll x = .error e) :
    ∃ y z d', x = y ++ ')' :: z ∧ d.readAll y = .ok d' ∧ d'.close = .error e := by
  induction x generalizing d with
  | nil => cases h
  | cons c rest ih =>
      cases hc : d.read c with
      | ok next =>
          rw [readAll_cons_of_read hc] at h
          obtain ⟨y, z, d', rfl, read, refused⟩ := ih h
          exact ⟨c :: y, z, d', rfl, by rw [readAll_cons_of_read hc, read], refused⟩
      | error e' =>
          obtain rfl : e' = e := by simpa [readAll_cons, hc, Except.bind] using h
          rcases char_cases c with plain | rfl | rfl | rfl | rfl
          · simp [read_plain d plain] at hc
          · simp at hc
          · simp at hc
          · simp at hc
          · exact ⟨[], rest, d, rfl, rfl, hc⟩

end Draft

/-! ### Cuts -/

/-- A text, cut at operators that wait in it: each operator with the piece in front of it,
the latest first, and the piece behind the latest. -/
structure Cut where
  waiting : List (List Char × Opener)
  last : List Char

namespace Cut

/-- The part of a text up to the latest waiting operator. -/
def waitingText : List (List Char × Opener) → List Char
  | [] => []
  | (piece, op) :: outer => waitingText outer ++ piece ++ [op.char]

/-- The whole text. -/
def text (cut : Cut) : List Char := waitingText cut.waiting ++ cut.last

/-- Every piece is a pattern that is compiled. -/
def Valid (cut : Cut) : Prop :=
  (∀ entry ∈ cut.waiting, Compiles entry.1) ∧ Compiles cut.last

/-- A `)` behind the text is refused: nothing waits for it, or a `|` with no `(` that waits
right before it. -/
def Refuses (cut : Cut) : Prop :=
  cut.waiting = [] ∨ (∃ piece, cut.waiting = [(piece, .bar)]) ∨
    ∃ piece piece' outer, cut.waiting = (piece, .bar) :: (piece', .bar) :: outer

end Cut

/-- The pieces of a draft, without their trees. -/
def Draft.cut (d : Draft) : Cut :=
  ⟨d.waiting.map fun (b, op) => (b.text, op), d.current.text⟩

theorem Cut.waitingText_map (waiting : List (Body × Opener)) :
    Cut.waitingText (waiting.map fun (b, op) => (b.text, op)) = Draft.waitingText waiting := by
  induction waiting with
  | nil => rfl
  | cons entry outer ih => simp [Cut.waitingText, Draft.waitingText, ih]

@[simp] theorem Draft.text_cut (d : Draft) : d.cut.text = d.text := by
  rw [Cut.text, Draft.cut, Cut.waitingText_map, Draft.text]

theorem compiles_text (b : Body) : Compiles b.text := ⟨_, compile_text b⟩

theorem exists_text_of_compiles {p : List Char} (h : Compiles p) : ∃ b : Body, b.text = p :=
  wellFormed_iff_exists_text.1 (compiles_iff.1 h)

theorem Draft.valid_cut (d : Draft) : d.cut.Valid := by
  refine ⟨fun entry mem => ?_, compiles_text d.current⟩
  obtain ⟨⟨b, op⟩, -, rfl⟩ := List.mem_map.1 mem
  exact compiles_text b

theorem exists_waiting {waiting : List (List Char × Opener)}
    (h : ∀ entry ∈ waiting, Compiles entry.1) :
    ∃ trees : List (Body × Opener), trees.map (fun (b, op) => (b.text, op)) = waiting := by
  induction waiting with
  | nil => exact ⟨[], rfl⟩
  | cons entry outer ih =>
      obtain ⟨first, rest⟩ := List.forall_mem_cons.1 h
      obtain ⟨b, text⟩ := exists_text_of_compiles first
      obtain ⟨trees, rfl⟩ := ih rest
      exact ⟨(b, entry.2) :: trees, by simp [text]⟩

theorem Cut.Valid.exists_draft {cut : Cut} (valid : cut.Valid) : ∃ d : Draft, d.cut = cut := by
  obtain ⟨trees, waiting⟩ := exists_waiting valid.1
  obtain ⟨b, last⟩ := exists_text_of_compiles valid.2
  exact ⟨⟨trees, b⟩, by rw [Draft.cut, waiting, last]⟩

/-- The texts of drafts are those that can be cut, and they can be cut in one way. -/
theorem exists_text_iff_existsUnique_cut {x : List Char} :
    (∃ d : Draft, d.text = x) ↔ ∃! cut : Cut, cut.Valid ∧ cut.text = x := by
  constructor
  · intro written
    obtain ⟨d, rfl⟩ := written
    refine ⟨d.cut, ⟨d.valid_cut, d.text_cut⟩, fun cut h => ?_⟩
    obtain ⟨d', rfl⟩ := h.1.exists_draft
    rw [Draft.text_injective (d'.text_cut.symm.trans h.2)]
  · intro unique
    obtain ⟨cut, ⟨valid, text⟩, -⟩ := unique
    obtain ⟨d, rfl⟩ := valid.exists_draft
    exact ⟨d, d.text_cut.symm.trans text⟩

/-! ### Steps of a pass -/

namespace Scan

variable {pattern : Array Char} {n : Nat}

/-- The first steps of a pass over the unread rest of a pattern, which begins at position
`i`. -/
def firstSteps (pattern : Array Char) : Nat → Nat → List Char → ScanM Unit
  | 0, _, _ => return
  | _ + 1, _, [] => return
  | count + 1, i, c :: rest => do
    step pattern i c rest.head?
    firstSteps pattern count (i + 1) rest

/-- With as many steps as there are characters, it is the whole pass. -/
theorem firstSteps_length (pattern : Array Char) (i : Nat) (rest : List Char) :
    firstSteps pattern rest.length i rest = scanFrom pattern i rest := by
  induction rest generalizing i with
  | nil => rfl
  | cons c rest ih => simp only [List.length_cons, firstSteps, scanFrom, ih]

/-- A text that the reader takes is one that the pass gets through. -/
theorem firstSteps_of_readAll {x rest : List Char} {d d' : Draft} {position : Int}
    (hn : pattern.size < n) (text : pattern.toList = d.text ++ (x ++ rest))
    (h : d.readAll x = .ok d') :
    ∃ position', firstSteps pattern x.length d.size (x ++ rest)
        (d.scan n position ((x ++ rest).head? = some '*')) =
      .ok () (d'.scan n position' (rest.head? = some '*')) := by
  induction x generalizing d position with
  | nil =>
      obtain rfl : d = d' := by simpa using h
      exact ⟨position, rfl⟩
  | cons c x ih =>
      cases hc : d.read c with
      | error e => simp [Draft.readAll_cons, hc, Except.bind] at h
      | ok next =>
          rw [Draft.readAll_cons_of_read hc] at h
          have text' : pattern.toList = next.text ++ (x ++ rest) := by
            simp [text, Draft.text_read hc]
          have taken : step pattern d.size c (x ++ rest).head? (d.scan n position (c = '*')) = _ :=
            step_of_read hn text hc
          obtain ⟨position', passed⟩ := ih text' h
          refine ⟨position', ?_⟩
          simp only [List.cons_append, List.length_cons, List.head?_cons, Option.some.injEq]
          rw [firstSteps, bind_of_ok taken, ← Draft.size_read hc, passed]

/-- A text that the reader refuses is one that the pass fails in. -/
theorem firstSteps_of_refuse {x rest : List Char} {d : Draft} {e : PatternFault × Nat}
    {position : Int} (hn : pattern.size < n) (text : pattern.toList = d.text ++ (x ++ rest))
    (h : d.readAll x = .error e) :
    ∃ e' s, firstSteps pattern x.length d.size (x ++ rest)
        (d.scan n position ((x ++ rest).head? = some '*')) = .error e' s := by
  induction x generalizing d position with
  | nil => cases h
  | cons c x ih =>
      simp only [List.cons_append, List.length_cons, List.head?_cons, Option.some.injEq]
      cases hc : d.read c with
      | error e' =>
          have here : pattern.toList = d.text ++ c :: (x ++ rest) := text
          obtain ⟨s, failed, -⟩ := step_of_refuse here hc
          exact ⟨_, s, by rw [firstSteps, bind_of_error failed]⟩
      | ok next =>
          rw [Draft.readAll_cons_of_read hc] at h
          have text' : pattern.toList = next.text ++ (x ++ rest) := by
            simp [text, Draft.text_read hc]
          have taken : step pattern d.size c (x ++ rest).head? (d.scan n position (c = '*')) = _ :=
            step_of_read hn text hc
          obtain ⟨e', s, failed⟩ := ih text' h
          exact ⟨e', s, by rw [firstSteps, bind_of_ok taken, ← Draft.size_read hc, failed]⟩

/-- A pass gets through the first characters of a pattern exactly if the reader takes them, and
then it waits where the draft waits. -/
theorem firstSteps_cases {x rest : List Char} (hn : pattern.size < n)
    (text : pattern.toList = x ++ rest) (position : Int) :
    (∃ d s, Draft.empty.readAll x = .ok d ∧
      firstSteps pattern x.length 0 pattern.toList ⟨position, [], .edgeless n⟩ = .ok () s ∧
      s.pending = Draft.waitingPositions d.waiting) ∨
    ∃ e e' s, Draft.empty.readAll x = .error e ∧
      firstSteps pattern x.length 0 pattern.toList ⟨position, [], .edgeless n⟩ = .error e' s := by
  rw [text, start_eq n position ((x ++ rest).head? = some '*')]
  cases read : Draft.empty.readAll x with
  | ok d =>
      obtain ⟨position', passed⟩ := firstSteps_of_readAll hn text read
      exact .inl ⟨d, _, rfl, passed, rfl⟩
  | error e =>
      obtain ⟨e', s, failed⟩ := firstSteps_of_refuse hn text read
      exact .inr ⟨e, e', s, rfl, failed⟩

end Scan

/-- The pass over a pattern gets through the first `k` characters. -/
def Scanned (p : List Char) (k : Nat) : Prop :=
  ∃ s, Scan.firstSteps p.toArray k 0 p ⟨0, [], .edgeless (p.length + 1)⟩ = .ok () s

/-- The pass gets through a text exactly if it is that of a draft. -/
theorem scanned_iff {p : List Char} {k : Nat} (hk : k ≤ p.length) :
    Scanned p k ↔ ∃ d : Draft, d.text = p.take k := by
  have room : p.toArray.size < p.length + 1 := Nat.lt_succ_self _
  have text : p.toArray.toList = p.take k ++ p.drop k := (List.take_append_drop k p).symm
  have steps := Scan.firstSteps_cases room text 0
  rw [List.length_take_of_le hk] at steps
  rw [Scanned, ← Draft.exists_readAll_iff]
  rcases steps with ⟨d, s, read, passed, -⟩ | ⟨e, e', s, read, failed⟩
  · exact iff_of_true ⟨s, passed⟩ ⟨d, read⟩
  · refine iff_of_false (fun passed => ?_) (fun taken => ?_)
    · obtain ⟨s', passed⟩ := passed
      cases failed.symm.trans passed
    · obtain ⟨d, taken⟩ := taken
      cases read.symm.trans taken

/-! ### Reports -/

/-- A pattern is refused with a fault worded `text`, at a position inside the pattern. The
character at the position is quoted. -/
def RefusedWith (p : List Char) (text : String) (place : Nat) : Prop :=
  ∃ e x, compile p = .error (.pattern e) ∧ e.position = place ∧ p[place]? = some x ∧
    e.message = text ++ " - near '" ++ String.singleton x ++ "' at position " ++ toString place

theorem refusedWith_of_parse {p : List Char} {fault : PatternFault} {place : Nat} {x : Char}
    (h : parse p = .error (fault, place)) (hx : p[place]? = some x) :
    RefusedWith p fault.message place := by
  refine ⟨{ fault, near := some x, position := place }, x, ?_, rfl, hx, rfl⟩
  rw [compile_eq, h, ← hx]

theorem parse_of_close {d : Draft} {e : PatternFault × Nat} (refused : d.close = .error e)
    (z : List Char) : parse (d.text ++ ')' :: z) = .error e := by
  have read : Draft.empty.readAll (d.text ++ ')' :: z) = .error e := by
    rw [Draft.readAll_append_of_readAll d.readAll_text_self, Draft.readAll_cons, Draft.read_close,
      refused]
    rfl
  rw [parse, read]
  rfl

/-- A `)` behind a draft is refused exactly if it is refused behind its cut. -/
theorem Draft.refuses_cut {d : Draft} {e : PatternFault × Nat} (refused : d.close = .error e) :
    d.cut.Refuses := by
  obtain ⟨waiting, current⟩ := d
  match waiting with
  | [] => exact .inl rfl
  | (front, .group) :: outer => cases refused
  | [(left, .bar)] => exact .inr (.inl ⟨left.text, rfl⟩)
  | (left, .bar) :: (front, .group) :: outer => cases refused
  | (left, .bar) :: (front, .bar) :: outer => exact .inr (.inr ⟨left.text, front.text, _, rfl⟩)

/-- In its text, an operator stands where it waits. -/
theorem Draft.getElem?_text {front current : Body} {op : Opener} {outer : List (Body × Opener)}
    {inner : List (Body × Opener)} (z : List Char)
    (within : waitingText ((front, op) :: outer) <+: waitingText inner) :
    (text ⟨inner, current⟩ ++ z)[waitingSize outer + front.size]? = some op.char := by
  have whole : waitingText ((front, op) :: outer) <+: (text ⟨inner, current⟩ ++ z).toArray.toList :=
    within.trans ⟨current.text ++ z, by simp [text]⟩
  simpa using Draft.getElem?_waiting whole

/-- So does the latest one. -/
theorem Draft.getElem?_latest (front current : Body) (op : Opener) (outer : List (Body × Opener)) :
    (text ⟨(front, op) :: outer, current⟩)[waitingSize outer + front.size]? = some op.char := by
  have stands : (text ⟨(front, op) :: outer, current⟩ ++ [])[_]? = some op.char :=
    getElem?_text [] (List.prefix_refl (waitingText ((front, op) :: outer)))
  rwa [List.append_nil] at stands

theorem Draft.getElem?_behind (d : Draft) (c : Char) (z : List Char) :
    (d.text ++ c :: z)[d.size]? = some c := by
  rw [← d.length_text]
  simp

/-- Whatever is wrong with a pattern, it is reported at an operator. -/
theorem exists_operator_of_refuse {p : List Char} {fault : PatternFault} {place : Nat}
    (refused : parse p = .error (fault, place)) : ∃ c, p[place]? = some c ∧ isMeta c = true := by
  rcases refused_of_parse refused with failed | ⟨d, read, unfinished⟩
  · obtain ⟨y, z, d, rfl, read, closed⟩ := Draft.exists_close_of_refuse failed
    obtain rfl : d.text = y := Draft.text_readAll read
    obtain ⟨waiting, current⟩ := d
    match waiting with
    | [] =>
        obtain ⟨-, rfl⟩ := Prod.mk.inj (Except.error.inj closed)
        exact ⟨')', Draft.getElem?_behind _ _ z, rfl⟩
    | (front, .group) :: outer => cases closed
    | [(left, .bar)] =>
        obtain ⟨-, rfl⟩ := Prod.mk.inj (Except.error.inj closed)
        exact ⟨')', Draft.getElem?_behind _ _ z, rfl⟩
    | (left, .bar) :: (front, .group) :: outer => cases closed
    | (left, .bar) :: (front, .bar) :: outer =>
        obtain ⟨-, rfl⟩ := Prod.mk.inj (Except.error.inj closed)
        exact ⟨'|', Draft.getElem?_text _ (Draft.waitingText_tail_isPrefix _ _), rfl⟩
  · obtain rfl : d.text = p := Draft.text_readAll read
    obtain ⟨waiting, current⟩ := d
    cases waiting with
    | nil => cases unfinished
    | cons entry outer =>
        obtain ⟨front, op⟩ := entry
        obtain ⟨-, rfl⟩ := Prod.mk.inj (Except.error.inj unfinished)
        have stands := Draft.getElem?_latest front current op outer
        cases op with
        | group => exact ⟨'(', stands, rfl⟩
        | bar => exact ⟨'|', stands, rfl⟩

/-- Nothing waits. -/
theorem Cut.Valid.refusedWith_unmatched {cut : Cut} (valid : cut.Valid) (z : List Char)
    (none : cut.waiting = []) :
    RefusedWith (cut.text ++ ')' :: z) PatternFault.unmatchedClose.message cut.text.length := by
  obtain ⟨⟨waiting, current⟩, rfl⟩ := valid.exists_draft
  obtain rfl : waiting = [] := by simpa [Draft.cut] using none
  rw [Draft.text_cut, Draft.length_text]
  exact refusedWith_of_parse (parse_of_close rfl z) (Draft.getElem?_behind _ _ z)

/-- A `|` waits, and nothing else. -/
theorem Cut.Valid.refusedWith_outside {cut : Cut} (valid : cut.Valid) (z : List Char)
    {piece : List Char} (bar : cut.waiting = [(piece, .bar)]) :
    RefusedWith (cut.text ++ ')' :: z) PatternFault.barOutsideGroup.message cut.text.length := by
  obtain ⟨⟨waiting, current⟩, rfl⟩ := valid.exists_draft
  obtain ⟨left, rfl⟩ : ∃ left, waiting = [(left, .bar)] := by
    simp only [Draft.cut, List.map_eq_singleton_iff] at bar
    obtain ⟨⟨left, op⟩, rfl, same⟩ := bar
    obtain ⟨rfl, rfl⟩ := Prod.mk.inj same
    exact ⟨left, rfl⟩
  rw [Draft.text_cut, Draft.length_text]
  exact refusedWith_of_parse (parse_of_close rfl z) (Draft.getElem?_behind _ _ z)

/-- A `|` waits, and another one in front of it. -/
theorem Cut.Valid.refusedWith_second {cut : Cut} (valid : cut.Valid) (z : List Char)
    {piece piece' : List Char} {outer : List (List Char × Opener)}
    (bars : cut.waiting = (piece, .bar) :: (piece', .bar) :: outer) :
    RefusedWith (cut.text ++ ')' :: z) PatternFault.barNeedsGroup.message
      (Cut.waitingText outer ++ piece').length := by
  obtain ⟨⟨waiting, current⟩, rfl⟩ := valid.exists_draft
  simp only [Draft.cut, List.map_eq_cons_iff] at bars
  obtain ⟨⟨left, op⟩, inner, rfl, same, ⟨front, op'⟩, outer, rfl, same', rfl⟩ := bars
  obtain ⟨rfl, rfl⟩ := Prod.mk.inj same
  obtain ⟨rfl, rfl⟩ := Prod.mk.inj same'
  rw [Draft.text_cut, Cut.waitingText_map, List.length_append, Draft.length_waitingText,
    Body.length_text]
  exact refusedWith_of_parse (parse_of_close rfl z)
    (Draft.getElem?_text _ (Draft.waitingText_tail_isPrefix _ _))

/-- If no `)` is refused, an operator still waits at the end of a refused pattern, and the
latest one is reported. -/
theorem exists_refusedWith_latest {p : List Char} (rejected : ¬ Compiles p)
    (never : ¬ ∃ i cut, p[i]? = some ')' ∧ Cut.Valid cut ∧ cut.text = p.take i ∧ cut.Refuses) :
    ∃ cut piece op outer, Cut.Valid cut ∧ cut.text = p ∧ cut.waiting = (piece, op) :: outer ∧
      RefusedWith p PatternFault.unmatchedOperator.message
        (Cut.waitingText outer ++ piece).length := by
  obtain ⟨e, refused⟩ :=
    exists_parse_eq_error fun wellFormed => rejected (compiles_iff.2 wellFormed)
  rcases refused_of_parse refused with failed | ⟨d, read, unfinished⟩
  · -- the reader refuses a `)`, and the draft in front of it has a cut
    obtain ⟨y, z, d, rfl, read, closed⟩ := Draft.exists_close_of_refuse failed
    obtain rfl : d.text = y := Draft.text_readAll read
    exact absurd ⟨d.text.length, d.cut, by simp, d.valid_cut, by simp, Draft.refuses_cut closed⟩
      never
  · obtain rfl : d.text = p := Draft.text_readAll read
    obtain ⟨waiting, current⟩ := d
    cases waiting with
    | nil => cases unfinished
    | cons entry outer =>
        obtain ⟨front, op⟩ := entry
        obtain rfl : (.unmatchedOperator, Draft.waitingSize outer + front.size) = e :=
          Except.error.inj unfinished
        refine ⟨_, front.text, op, _, Draft.valid_cut _, Draft.text_cut _, rfl, ?_⟩
        rw [Cut.waitingText_map, List.length_append, Draft.length_waitingText, Body.length_text]
        exact refusedWith_of_parse refused (Draft.getElem?_latest front current op outer)

/-- **Which fault is reported.** The prefixes of a refused pattern that the pass gets through
are those that can be cut, in one way, at operators that wait for a `)`. If a `)` comes behind
a cut in which nothing waits, or a `|` with no `(` waiting right before it, the report says so;
in the last case it names the place of the `|` before. If there is no such `)`, the report names
the latest operator that waits at the end. Whatever is reported, the place is one inside the
pattern, and the character there is quoted. -/
theorem compile_diagnosis {p : List Char} (rejected : ¬ Compiles p) :
    Scan.firstSteps p.toArray p.length 0 p = Scan.scanFrom p.toArray 0 p ∧
    (∀ k ≤ p.length, Scanned p k ↔ ∃! cut : Cut, cut.Valid ∧ cut.text = p.take k) ∧
    (∀ (i : Nat) (cut : Cut), p[i]? = some ')' → cut.Valid → cut.text = p.take i →
      (cut.waiting = [] → RefusedWith p "Unmatched closing parenthesis" i) ∧
      (∀ piece, cut.waiting = [(piece, .bar)] →
        RefusedWith p "Alternation outside of a group" i) ∧
      ∀ piece piece' outer, cut.waiting = (piece, .bar) :: (piece', .bar) :: outer →
        RefusedWith p "Alternation needs its own group"
          (Cut.waitingText outer ++ piece').length) ∧
    ((¬ ∃ i cut, p[i]? = some ')' ∧ Cut.Valid cut ∧ cut.text = p.take i ∧ cut.Refuses) →
      ∃ cut piece op outer, Cut.Valid cut ∧ cut.text = p ∧ cut.waiting = (piece, op) :: outer ∧
        RefusedWith p "Not a proper regular expression - unmatched operator"
          (Cut.waitingText outer ++ piece).length) ∧
    ∃ text place, RefusedWith p text place := by
  -- at a `)`, the pattern is the text of the cut in front of it, the `)` and a rest
  have split {i : Nat} {cut : Cut} (close : p[i]? = some ')') (text : cut.text = p.take i) :
      p = cut.text ++ ')' :: p.drop (i + 1) ∧ cut.text.length = i := by
    obtain ⟨hi, hc⟩ := List.getElem?_eq_some_iff.1 close
    refine ⟨?_, by rw [text, List.length_take_of_le (Nat.le_of_lt hi)]⟩
    rw [text, ← hc, ← List.drop_eq_getElem_cons hi, List.take_append_drop]
  have reports (i : Nat) (cut : Cut) (close : p[i]? = some ')') (valid : cut.Valid)
      (text : cut.text = p.take i) :
      (cut.waiting = [] → RefusedWith p PatternFault.unmatchedClose.message i) ∧
      (∀ piece, cut.waiting = [(piece, .bar)] →
        RefusedWith p PatternFault.barOutsideGroup.message i) ∧
      ∀ piece piece' outer, cut.waiting = (piece, .bar) :: (piece', .bar) :: outer →
        RefusedWith p PatternFault.barNeedsGroup.message
          (Cut.waitingText outer ++ piece').length := by
    obtain ⟨whole, rfl⟩ := split close text
    rw [whole]
    exact ⟨valid.refusedWith_unmatched _, fun _ => valid.refusedWith_outside _,
      fun _ _ _ => valid.refusedWith_second _⟩
  refine ⟨Scan.firstSteps_length p.toArray 0 p, fun k hk => ?_, reports,
    exists_refusedWith_latest rejected, ?_⟩
  · rw [scanned_iff hk, exists_text_iff_existsUnique_cut]
  · by_cases ever : ∃ i cut, p[i]? = some ')' ∧ Cut.Valid cut ∧ cut.text = p.take i ∧ cut.Refuses
    · obtain ⟨i, cut, close, valid, text, refuses⟩ := ever
      obtain ⟨unmatched, outside, second⟩ := reports i cut close valid text
      rcases refuses with none | ⟨piece, bar⟩ | ⟨piece, piece', outer, bars⟩
      · exact ⟨_, _, unmatched none⟩
      · exact ⟨_, _, outside piece bar⟩
      · exact ⟨_, _, second piece piece' outer bars⟩
    · obtain ⟨cut, piece, op, outer, -, -, -, report⟩ := exists_refusedWith_latest rejected ever
      exact ⟨_, _, report⟩

/-- The cut of `(f|g|h`: two `|` wait behind one `(`. -/
def secondBar : Cut := ⟨[(['g'], .bar), (['f'], .bar), ([], .group)], ['h']⟩

/-- In `(f|g|h)` the first `|` is reported, and in `g(` the `(`. -/
theorem secondBar_diagnosis :
    (¬ Compiles "(f|g|h)".toList ∧ secondBar.Valid ∧ secondBar.text = "(f|g|h)".toList.take 6 ∧
      RefusedWith "(f|g|h)".toList "Alternation needs its own group" 2) ∧
    ¬ Compiles "g(".toList ∧
    ∃ cut piece op outer, Cut.Valid cut ∧ cut.text = "g(".toList ∧
      cut.waiting = (piece, op) :: outer ∧
      RefusedWith "g(".toList "Not a proper regular expression - unmatched operator"
        (Cut.waitingText outer ++ piece).length := by
  have second : ¬ Compiles "(f|g|h)".toList := by
    intro compiled
    obtain ⟨a, h⟩ := compiled
    cases h
  have unclosed : ¬ Compiles "g(".toList := by
    intro compiled
    obtain ⟨a, h⟩ := compiled
    cases h
  have valid : secondBar.Valid := by
    refine ⟨fun entry mem => ?_, _, rfl⟩
    simp only [secondBar, List.mem_cons, List.not_mem_nil, or_false] at mem
    rcases mem with rfl | rfl | rfl
    · exact ⟨_, rfl⟩
    · exact ⟨_, rfl⟩
    · exact ⟨_, rfl⟩
  obtain ⟨-, -, closed, -⟩ := compile_diagnosis second
  obtain ⟨-, -, -, waits, -⟩ := compile_diagnosis unclosed
  refine ⟨⟨second, valid, rfl, (closed 6 secondBar rfl valid rfl).2.2 _ _ _ rfl⟩, unclosed,
    waits ?_⟩
  intro closes
  obtain ⟨i, -, close, -⟩ := closes
  have mem : ')' ∈ "g(".toList := List.mem_of_getElem? close
  exact absurd mem (by decide)

end EpsilonMatch
