import EpsilonMatch.Pattern.Error
import EpsilonMatch.Pattern.Grammar
/-!
# EpsilonMatch.Proofs.Pattern.Draft

Reading a pattern into its tree, one character at a time.

A `Draft` is a pattern that has been read in part: the operators that still wait
for their `)`, each with the tree in front of it, and the tree behind the last
of them. Reading a character prolongs the last tree, starts a new one behind an
operator, or joins the trees of a group. This module provides:

* `Draft.read` and `parse`, the reader, which says for every refusal what is
  wrong and where;
* `parse_eq_ok_iff` — a pattern is read as a tree exactly if the tree writes it,
  so a pattern has at most one tree (`Body.text_injective`); and
* `wellFormed_iff_exists_text` — the patterns of trees are the well-formed ones.

The pass of `EpsilonMatch.Pattern.Scan` keeps the positions of the operators
where a draft keeps the trees between them. `EpsilonMatch.Proofs.Pattern.Pass`
runs the two side by side.
-/

namespace EpsilonMatch

/-! ### Characters -/

/-- A character is an ordinary one or one of the four operators. -/
theorem char_cases (c : Char) :
    isMeta c = false ∨ c = '*' ∨ c = '(' ∨ c = '|' ∨ c = ')' := by
  by_cases h : isMeta c = true
  · rcases isMeta_iff.1 h with rfl | rfl | rfl | rfl <;> simp
  · exact Or.inl (by simpa using h)

theorem plain_iff {c : Char} :
    isMeta c = false ↔ c ≠ '(' ∧ c ≠ ')' ∧ c ≠ '|' ∧ c ≠ '*' := by
  rw [← Bool.not_eq_true, isMeta_iff]
  simp only [not_or]

/-! ### Trees -/

namespace Body

@[simp] theorem length_starRow (n : Nat) : (starRow n).length = n := by
  simp [starRow]

theorem starRow_add (m n : Nat) : starRow (m + n) = starRow m ++ starRow n := by
  simp [starRow, List.replicate_append_replicate]

/-- The number of characters of a pattern, read off its tree. -/
def size : Body → Nat
  | leading stars => stars
  | symbol front _ _ stars => front.size + 1 + stars
  | group front inner stars => front.size + 1 + inner.size + 1 + stars
  | choice front left right stars =>
    front.size + 1 + left.size + 1 + right.size + 1 + stars

@[simp] theorem length_text (b : Body) : b.text.length = b.size := by
  induction b with
  | leading stars => simp [text, size]
  | symbol front c plain stars ih => simp [text, size, ih]; omega
  | group front inner stars ihFront ihInner =>
      simp [text, size, ihFront, ihInner]; omega
  | choice front left right stars ihFront ihLeft ihRight =>
      simp [text, size, ihFront, ihLeft, ihRight]; omega

/-- The tree with more `*` at its end. They repeat what the last ones repeat. -/
def addStars : Body → Nat → Body
  | leading stars, n => leading (stars + n)
  | symbol front c plain stars, n => symbol front c plain (stars + n)
  | group front inner stars, n => group front inner (stars + n)
  | choice front left right stars, n => choice front left right (stars + n)

@[simp] theorem text_addStars (b : Body) (n : Nat) :
    (b.addStars n).text = b.text ++ starRow n := by
  cases b <;> simp [addStars, text, starRow_add]

@[simp] theorem addStars_zero (b : Body) : b.addStars 0 = b := by
  cases b <;> rfl

theorem addStars_addStars (b : Body) (m n : Nat) :
    (b.addStars m).addStars n = b.addStars (m + n) := by
  cases b <;> simp [addStars, Nat.add_assoc]

/-- The units of `front` followed by those of the second tree. The `*` that lead
the second tree come to repeat the last unit of `front`. -/
def append (front : Body) : Body → Body
  | leading stars => front.addStars stars
  | symbol b c plain stars => symbol (front.append b) c plain stars
  | group b inner stars => group (front.append b) inner stars
  | choice b left right stars => choice (front.append b) left right stars

@[simp] theorem text_append (front b : Body) : (front.append b).text = front.text ++ b.text := by
  induction b with
  | leading stars => simp [append, text]
  | symbol b c plain stars ih => simp [append, text, ih]
  | group b inner stars ih _ => simp [append, text, ih]
  | choice b left right stars ih _ _ => simp [append, text, ih]

end Body

/-- The patterns of trees are the well-formed ones. -/
theorem wellFormed_iff_exists_text {p : List Char} : WellFormed p ↔ ∃ b : Body, b.text = p := by
  constructor
  · intro h
    induction h with
    | nil => exact ⟨.leading 0, rfl⟩
    | @ordinary c plain => exact ⟨.symbol (.leading 0) c plain 0, rfl⟩
    | star => exact ⟨.leading 1, rfl⟩
    | append _ _ ihLeft ihRight =>
        obtain ⟨b, rfl⟩ := ihLeft
        obtain ⟨b', rfl⟩ := ihRight
        exact ⟨b.append b', b.text_append b'⟩
    | group _ ih =>
        obtain ⟨b, rfl⟩ := ih
        exact ⟨.group (.leading 0) b 0, rfl⟩
    | choice _ _ ihLeft ihRight =>
        obtain ⟨b, rfl⟩ := ihLeft
        obtain ⟨b', rfl⟩ := ihRight
        exact ⟨.choice (.leading 0) b b' 0, by simp [Body.text, Body.starRow]⟩
  · rintro ⟨b, rfl⟩
    exact b.wellFormed_text

/-! ### Drafts -/

/-- The operators that wait for a `)`. -/
inductive Opener
  /-- A `(`. -/
  | group
  /-- A `|`. -/
  | bar
  deriving DecidableEq

/-- How an operator is written. -/
def Opener.char : Opener → Char
  | group => '('
  | bar => '|'

/-- A pattern that has been read in part. -/
structure Draft where
  /-- The operators that wait for a `)`, the latest first, each with the tree in
  front of it. -/
  waiting : List (Body × Opener)
  /-- The tree behind the latest waiting operator. -/
  current : Body

namespace Draft

/-- The part of a pattern up to the latest waiting operator. -/
def waitingText : List (Body × Opener) → List Char
  | [] => []
  | (front, op) :: outer => waitingText outer ++ front.text ++ [op.char]

/-- The number of characters up to the latest waiting operator. -/
def waitingSize : List (Body × Opener) → Nat
  | [] => 0
  | (front, _) :: outer => waitingSize outer + front.size + 1

/-- The positions of the waiting operators, the latest first. -/
def waitingPositions : List (Body × Opener) → List Int
  | [] => []
  | (front, _) :: outer => ((waitingSize outer + front.size : Nat) : Int) :: waitingPositions outer

/-- What has been read. -/
def text (d : Draft) : List Char := waitingText d.waiting ++ d.current.text

/-- How many characters have been read. -/
def size (d : Draft) : Nat := waitingSize d.waiting + d.current.size

@[simp] theorem length_waitingText (waiting : List (Body × Opener)) :
    (waitingText waiting).length = waitingSize waiting := by
  induction waiting with
  | nil => rfl
  | cons entry outer ih => simp [waitingText, waitingSize, ih, Nat.add_assoc]

@[simp] theorem length_text (d : Draft) : d.text.length = d.size := by
  simp [text, size]

/-- Nothing has been read. -/
def empty : Draft := ⟨[], .leading 0⟩

/-! ### Reading -/

/-- Reads a `)`: the trees of the group become one unit. -/
def close (d : Draft) : Except (PatternFault × Nat) Draft :=
  match d.waiting with
  | [] => .error (.unmatchedClose, d.size)
  | (front, .group) :: outer => .ok ⟨outer, .group front d.current 0⟩
  | [(_, .bar)] => .error (.barOutsideGroup, d.size)
  | (left, .bar) :: (front, .group) :: outer => .ok ⟨outer, .choice front left d.current 0⟩
  | (_, .bar) :: (front, .bar) :: outer =>
    .error (.barNeedsGroup, waitingSize outer + front.size)

/-- Reads one character, or says what is wrong and at which position. -/
def read (d : Draft) (c : Char) : Except (PatternFault × Nat) Draft :=
  if plain : isMeta c = false then .ok { d with current := .symbol d.current c plain 0 }
  else if c = '*' then .ok { d with current := d.current.addStars 1 }
  else if c = '(' then .ok ⟨(d.current, .group) :: d.waiting, .leading 0⟩
  else if c = '|' then .ok ⟨(d.current, .bar) :: d.waiting, .leading 0⟩
  else d.close

/-- Reads a text. -/
def readAll (d : Draft) (text : List Char) : Except (PatternFault × Nat) Draft :=
  text.foldlM read d

/-- The tree of a pattern that has been read to its end; no operator may still
wait. -/
def finish (d : Draft) : Except (PatternFault × Nat) Body :=
  match d.waiting with
  | [] => .ok d.current
  | (front, _) :: outer => .error (.unmatchedOperator, waitingSize outer + front.size)

theorem read_plain (d : Draft) {c : Char} (plain : isMeta c = false) :
    d.read c = .ok { d with current := .symbol d.current c plain 0 } := by
  simp [read, plain]

@[simp] theorem read_star (d : Draft) :
    d.read '*' = .ok { d with current := d.current.addStars 1 } := rfl

@[simp] theorem read_open (d : Draft) :
    d.read '(' = .ok ⟨(d.current, .group) :: d.waiting, .leading 0⟩ := rfl

@[simp] theorem read_bar (d : Draft) :
    d.read '|' = .ok ⟨(d.current, .bar) :: d.waiting, .leading 0⟩ := rfl

@[simp] theorem read_close (d : Draft) : d.read ')' = d.close := rfl

@[simp] theorem readAll_nil (d : Draft) : d.readAll [] = .ok d := rfl

theorem readAll_cons (d : Draft) (c : Char) (rest : List Char) :
    d.readAll (c :: rest) = (d.read c).bind (·.readAll rest) := rfl

theorem readAll_cons_of_read {d d' : Draft} {c : Char} (h : d.read c = .ok d')
    (rest : List Char) : d.readAll (c :: rest) = d'.readAll rest := by
  rw [readAll_cons, h]
  rfl

theorem readAll_append_of_readAll {d d' : Draft} {x : List Char} (h : d.readAll x = .ok d')
    (y : List Char) : d.readAll (x ++ y) = d'.readAll y := by
  rw [readAll, List.foldlM_append]
  show (d.readAll x).bind (·.readAll y) = _
  rw [h]
  rfl

/-! ### What is read is kept -/

theorem text_close {d d' : Draft} (h : d.close = .ok d') : d'.text = d.text ++ [')'] := by
  obtain ⟨waiting, current⟩ := d
  match waiting with
  | [] => simp [close] at h
  | (front, .group) :: outer =>
      obtain rfl : _ = d' := by simpa [close] using h
      simp [text, waitingText, Body.text, Body.starRow, Opener.char]
  | [(_, .bar)] => simp [close] at h
  | (left, .bar) :: (front, .group) :: outer =>
      obtain rfl : _ = d' := by simpa [close] using h
      simp [text, waitingText, Body.text, Body.starRow, Opener.char]
  | (_, .bar) :: (_, .bar) :: _ => simp [close] at h

/-- Reading a character puts it behind what has been read. -/
theorem text_read {d d' : Draft} {c : Char} (h : d.read c = .ok d') :
    d'.text = d.text ++ [c] := by
  rcases char_cases c with plain | rfl | rfl | rfl | rfl
  · rw [read_plain d plain] at h
    obtain rfl : _ = d' := by simpa using h
    simp [text, Body.text, Body.starRow]
  · obtain rfl : _ = d' := by simpa using h
    simp [text, Body.starRow]
  · obtain rfl : _ = d' := by simpa using h
    simp [text, waitingText, Body.text, Body.starRow, Opener.char]
  · obtain rfl : _ = d' := by simpa using h
    simp [text, waitingText, Body.text, Body.starRow, Opener.char]
  · exact text_close h

theorem size_read {d d' : Draft} {c : Char} (h : d.read c = .ok d') : d'.size = d.size + 1 := by
  simpa using congrArg List.length (text_read h)

theorem text_readAll {d d' : Draft} {x : List Char} (h : d.readAll x = .ok d') :
    d'.text = d.text ++ x := by
  induction x generalizing d with
  | nil =>
      obtain rfl : d = d' := by simpa using h
      simp
  | cons c rest ih =>
      rw [readAll_cons] at h
      cases hc : d.read c with
      | error e => simp [hc, Except.bind] at h
      | ok next =>
          rw [hc] at h
          rw [ih h, text_read hc]
          simp

/-! ### Trees are read back -/

theorem readAll_starRow (d : Draft) (n : Nat) :
    d.readAll (Body.starRow n) = .ok { d with current := d.current.addStars n } := by
  induction n generalizing d with
  | zero => simp [Body.starRow]
  | succ n ih =>
      have row : Body.starRow (n + 1) = '*' :: Body.starRow n := rfl
      rw [row, readAll_cons_of_read d.read_star, ih, Body.addStars_addStars, Nat.add_comm]

/-- Behind any waiting operators, the pattern of a tree is read as the tree. -/
theorem readAll_text (waiting : List (Body × Opener)) (b : Body) :
    readAll ⟨waiting, .leading 0⟩ b.text = .ok ⟨waiting, b⟩ := by
  induction b generalizing waiting with
  | leading stars =>
      rw [Body.text, readAll_starRow]
      simp [Body.addStars]
  | symbol front c plain stars ih =>
      rw [Body.text, readAll_append_of_readAll (ih waiting),
        readAll_cons_of_read (read_plain _ plain), readAll_starRow]
      simp [Body.addStars]
  | group front inner stars ihFront ihInner =>
      -- the tree inside is read behind one more waiting operator
      simp only [Body.text, List.append_assoc, List.cons_append]
      rw [readAll_append_of_readAll (ihFront waiting), readAll_cons_of_read (read_open _),
        readAll_append_of_readAll (ihInner _)]
      have closed : read ⟨(front, .group) :: waiting, inner⟩ ')' =
          .ok ⟨waiting, .group front inner 0⟩ := rfl
      rw [readAll_cons_of_read closed, readAll_starRow]
      simp [Body.addStars]
  | choice front left right stars ihFront ihLeft ihRight =>
      simp only [Body.text, List.append_assoc, List.cons_append]
      rw [readAll_append_of_readAll (ihFront waiting), readAll_cons_of_read (read_open _),
        readAll_append_of_readAll (ihLeft _), readAll_cons_of_read (read_bar _),
        readAll_append_of_readAll (ihRight _)]
      have closed : read ⟨(left, .bar) :: (front, .group) :: waiting, right⟩ ')' =
          .ok ⟨waiting, .choice front left right 0⟩ := rfl
      rw [readAll_cons_of_read closed, readAll_starRow]
      simp [Body.addStars]

end Draft

/-! ### Parsing -/

/-- The tree of a pattern, or what is wrong with the pattern and at which
position. -/
def parse (p : List Char) : Except (PatternFault × Nat) Body := do
  let d ← Draft.empty.readAll p
  d.finish

theorem exists_finish_of_parse {p : List Char} {b : Body} (h : parse p = .ok b) :
    ∃ d, Draft.empty.readAll p = .ok d ∧ d.finish = .ok b := by
  cases hd : Draft.empty.readAll p with
  | error e => simp [parse, hd, bind, Except.bind] at h
  | ok d => exact ⟨d, rfl, by simpa [parse, hd, bind, Except.bind] using h⟩

/-- A pattern is refused while it is read, or because an operator still waits at
its end. -/
theorem refused_of_parse {p : List Char} {e : PatternFault × Nat} (h : parse p = .error e) :
    Draft.empty.readAll p = .error e ∨
      ∃ d, Draft.empty.readAll p = .ok d ∧ d.finish = .error e := by
  cases hd : Draft.empty.readAll p with
  | error e' => exact .inl (by simpa [parse, hd, bind, Except.bind] using h)
  | ok d => exact .inr ⟨d, rfl, by simpa [parse, hd, bind, Except.bind] using h⟩

/-- A pattern is read as a tree exactly if the tree writes it. -/
theorem parse_eq_ok_iff {p : List Char} {b : Body} : parse p = .ok b ↔ b.text = p := by
  constructor
  · intro h
    -- what was read is kept, and at the end there is nothing in front of the tree
    obtain ⟨⟨waiting, current⟩, hd, finished⟩ := exists_finish_of_parse h
    have read : Draft.text ⟨waiting, current⟩ = p := by
      simpa [Draft.empty, Draft.text, Draft.waitingText, Body.text, Body.starRow]
        using Draft.text_readAll hd
    cases waiting with
    | nil =>
        obtain rfl : current = b := by simpa [Draft.finish] using finished
        simpa [Draft.text, Draft.waitingText] using read
    | cons entry outer => simp [Draft.finish] at finished
  · rintro rfl
    have read : Draft.empty.readAll b.text = .ok ⟨[], b⟩ := Draft.readAll_text [] b
    simp [parse, read, Draft.finish, bind, Except.bind]

/-- A pattern has at most one tree. -/
theorem Body.text_injective : Function.Injective Body.text := by
  intro b b' h
  have parsed : parse b'.text = .ok b := parse_eq_ok_iff.2 h
  simpa [parse_eq_ok_iff.2 rfl] using parsed.symm

/-- A pattern that is not well formed is not read to its end. -/
theorem exists_parse_eq_error {p : List Char} (h : ¬ WellFormed p) : ∃ e, parse p = .error e := by
  cases hp : parse p with
  | error e => exact ⟨e, rfl⟩
  | ok b => exact absurd (wellFormed_iff_exists_text.2 ⟨b, parse_eq_ok_iff.1 hp⟩) h

end EpsilonMatch
