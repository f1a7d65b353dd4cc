import EpsilonMatch.Graph.Basic
import EpsilonMatch.Record.Numeral
/-!
# EpsilonMatch.Record.Reading

Reading typed values out of untyped ones. The theory does not depend on how this is
done: it is about the counts and lists that any reader comes to
(`EpsilonMatch.Graph.Record`).

A reading that fails does so with a list of findings, each with the place of the
value it is about. Readings of separate parts are joined by `Reading.both` and
`Reading.all`, which keep the findings of all parts in order; only a part that
depends on others (a graph on its fields) waits until they are read.
-/

namespace EpsilonMatch

/-- Untyped values. `number m p` is the decimal `m / 10 ^ p`. -/
inductive Value
  | null
  | bool (b : Bool)
  | number (mantissa : Int) (places : Nat)
  | text (s : String)
  | list (items : List Value)
  | record (fields : List (String × Value))
  deriving Repr, Inhabited

/-- The fields of a record. -/
abbrev Fields := List (String × Value)

/-- What is wrong with a value. -/
inductive Problem
  /-- A field is absent. -/
  | missing
  /-- The value is no integer and nothing that stands for one. -/
  | integerExpected
  /-- The value is a number with a fraction. -/
  | fraction
  /-- The value is a text but no numeral. -/
  | numeralExpected
  /-- The value is no list, where an open graph wants one. -/
  | listExpected
  /-- The value is no list, where a sealed graph wants one. -/
  | sealedListExpected
  /-- The value is no text. -/
  | textExpected
  /-- The value is no record of a graph. -/
  | graphExpected
  /-- The fields are well typed, but no graph has them. -/
  | refused (e : GraphError)
  /-- A field of a sealed graph was assigned. -/
  | assigned
  deriving Repr, DecidableEq

namespace Problem

/-- The short name of a problem. -/
def code : Problem → String
  | missing => "missing"
  | integerExpected => "int_type"
  | fraction => "int_from_float"
  | numeralExpected => "int_parsing"
  | listExpected => "list_type"
  | sealedListExpected => "tuple_type"
  | textExpected => "string_type"
  | graphExpected => "model_type"
  | refused _ => "value_error"
  | assigned => "frozen_instance"

/-- The wording of a problem. -/
def message : Problem → String
  | missing => "Field required"
  | integerExpected => "Input should be a valid integer"
  | fraction => "Input should be a valid integer, got a number with a fractional part"
  | numeralExpected =>
    "Input should be a valid integer, unable to parse string as an integer"
  | listExpected => "Input should be a valid list"
  | sealedListExpected => "Input should be a valid tuple"
  | textExpected => "Input should be a valid string"
  | graphExpected => "Input should be a valid dictionary or instance of FrozenDigraph"
  | refused e => "Value error, " ++ e.message
  | assigned => "Instance is frozen"

end Problem

/-- A step from a value to a part of it. -/
inductive Segment
  | field (name : String)
  | index (i : Nat)
  deriving Repr, DecidableEq

/-- A problem and the place of the value that has it, from the outside in. -/
structure Finding where
  problem : Problem
  location : List Segment := []
  deriving Repr, DecidableEq

/-- The result of reading a value, or all findings about it. -/
abbrev Reading (α : Type) := Except (List Finding) α

namespace Reading

variable {α β : Type}

/-- A single finding about the value itself. -/
def fail (problem : Problem) : Reading α :=
  .error [{ problem }]

/-- Places the findings of a reading inside a part. -/
def within (segment : Segment) (reading : Reading α) : Reading α :=
  reading.mapError (·.map fun finding =>
    { finding with location := segment :: finding.location })

/-- Joins two readings; the findings of the first come first. -/
def both (first : Reading α) (second : Reading β) : Reading (α × β) :=
  match first, second with
  | .ok a, .ok b => .ok (a, b)
  | .ok _, .error findings => .error findings
  | .error findings, .ok _ => .error findings
  | .error findings, .error more => .error (findings ++ more)

/-- Joins readings in order. -/
def all : List (Reading α) → Reading (List α)
  | [] => .ok []
  | first :: rest => (both first (all rest)).map fun (a, as) => a :: as

end Reading

open Reading

/-! ## Values -/

/-- Reads an integer. Truth values stand for one and zero, numbers without a
fraction and numerals for the integer they denote. -/
def Value.integer : Value → Reading Int
  | bool b => .ok (if b then 1 else 0)
  | number mantissa places =>
    let scale := Int.pow 10 places
    if mantissa % scale = 0 then .ok (mantissa / scale) else fail .fraction
  | text s =>
    match Numeral.integer? s.toList with
    | some n => .ok n
    | none => fail .numeralExpected
  | null | list _ | record _ => fail .integerExpected

/-- Reads a text. -/
def Value.string : Value → Reading String
  | text s => .ok s
  | _ => fail .textExpected

/-- Reads a list item by item; `problem` if the value is no list. -/
def Value.listOf {α : Type} (problem : Problem) (item : Value → Reading α) :
    Value → Reading (List α)
  | list items => all (items.zipIdx.map fun (v, i) => within (.index i) (item v))
  | _ => fail problem

/-- Reads lists of integers. -/
def Value.integerLists (problem : Problem) : Value → Reading (List (List Int)) :=
  Value.listOf problem (Value.listOf problem Value.integer)

/-! ## Fields -/

/-- Reads a field that must be there. -/
def Fields.required {α : Type} (fields : Fields) (name : String) (read : Value → Reading α) :
    Reading α :=
  within (.field name)
    (match fields.lookup name with
    | some v => read v
    | none => fail .missing)

/-- Reads a field that may be absent. -/
def Fields.optional {α : Type} (fields : Fields) (name : String) (read : Value → Reading α)
    (absent : α) : Reading α :=
  match fields.lookup name with
  | some v => within (.field name) (read v)
  | none => .ok absent

end EpsilonMatch
