import EpsilonMatch.Graph.Sealed
/-!
# EpsilonMatch.Graph.Record

Graphs built from untyped records.

How a record is read is left open. A `RecordReader` says which count and lists a record
holds, or reports what is wrong with it, and only a record that is read is checked as a
graph. `EpsilonMatch.Record.Schema` has one reader, which the commands use when they are
run.
-/

namespace EpsilonMatch

/-- What is asked of a reader of records `φ`, with its reports `ρ`. -/
structure RecordReader (φ ρ : Type) where
  /-- The count and lists of an open graph. -/
  growing : φ → Except ρ (Int × List (List Int))
  /-- The count and lists of a sealed graph. -/
  closed : φ → Except ρ (Int × List (List Int))
  /-- The report on a count and lists that make no graph. -/
  refused : GraphError → ρ
  /-- The report on a new vertex count for a sealed graph. -/
  assigned : ρ

variable {φ ρ α : Type}

namespace RecordReader

/-- Reports a refusal by a graph. -/
def report (reader : RecordReader φ ρ) : Except GraphError α → Except ρ α
  | .ok a => .ok a
  | .error e => .error (reader.refused e)

/-- Builds a graph of the count and lists that were read. -/
def build (reader : RecordReader φ ρ) (ofLists? : Int → List (List Int) → Except GraphError α)
    (read : Except ρ (Int × List (List Int))) : Except ρ α := do
  let (count, lists) ← read
  reader.report (ofLists? count lists)

end RecordReader

/-- Builds an open graph of a record. -/
def Graph.ofRecord (reader : RecordReader φ ρ) (record : φ) : Except ρ Graph :=
  reader.build Graph.ofLists? (reader.growing record)

/-- Builds a sealed graph of a record. -/
def SealedGraph.ofRecord (reader : RecordReader φ ρ) (record : φ) : Except ρ SealedGraph :=
  reader.build SealedGraph.ofLists? (reader.closed record)

end EpsilonMatch
