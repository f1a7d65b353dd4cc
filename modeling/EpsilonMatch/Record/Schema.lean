import EpsilonMatch.Automaton.Basic
import EpsilonMatch.Graph.Record
import EpsilonMatch.Record.Reading
/-!
# EpsilonMatch.Record.Schema

The records from which graphs and automata are built.

The fields are read first, in the order in which a record declares them, and
only a record whose fields are all well typed is checked as a whole. An open
graph may leave out its lists; a sealed one may not.
-/

namespace EpsilonMatch

open Reading

/-- Reads records that are given by their fields. -/
def Fields.reader : RecordReader Fields (List Finding) where
  growing fields := both
    (fields.required "vertex_count" Value.integer)
    (fields.optional "adj" (Value.integerLists .listExpected) [])
  closed fields := both
    (fields.required "vertex_count" Value.integer)
    (fields.required "adj" (Value.integerLists .sealedListExpected))
  refused e := [{ problem := .refused e }]
  assigned := [{ problem := .assigned, location := [.field "vertex_count"] }]

/-- Reads a record that holds a sealed graph. -/
def Value.sealedGraph : Value → Reading SealedGraph
  | record fields => SealedGraph.ofRecord Fields.reader fields
  | _ => fail .graphExpected

/-- Reads an automaton: any pattern with any sealed graph. -/
def Automaton.ofFields (fields : Fields) : Reading Automaton := do
  let (pattern, moves) ← both
    (fields.required "regexp" Value.string)
    (fields.required "graph" Value.sealedGraph)
  return { symbols := pattern.toList.toArray, moves }

end EpsilonMatch
