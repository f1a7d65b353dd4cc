import EpsilonMatch.Graph.Closure
import EpsilonMatch.Graph.Record
/-!
# EpsilonMatch.Workspace

Named graphs, open or sealed, and the commands that work on them.

A command names the graph it is about. Building a graph first removes the one
of that name, so that a failed building leaves none. A change of an open graph
stores what it leaves of the graph, also if it fails. Commands are carried out
with any reader of records.
-/

namespace EpsilonMatch

/-- A graph of either kind. -/
inductive StoredGraph
  | growing (g : Graph)
  | closed (g : SealedGraph)
  deriving DecidableEq

/-- The graph behind either kind, for queries. -/
def StoredGraph.toGraph : StoredGraph → Graph
  | growing g => g
  | closed g => g.toGraph

/-- Questions about a graph that leave it unchanged. -/
inductive GraphQuery
  | targets (v : Int)
  | vertices
  | edgeCount
  | checkVertex (v : Int)
  | check
  | listing
  | closure (sources : List Int)

/-- What a command answers. -/
inductive Reply
  | done
  | graph (g : StoredGraph)
  | vertices (vs : List Nat)
  | count (n : Nat)
  | printed (p : Printout GraphError)
  | verdict (b : Bool)

/-- The answer to a question. -/
def GraphQuery.answer (g : Graph) : GraphQuery → Except GraphError Reply
  | targets v => (g.targets v).map .vertices
  | vertices => .ok (.vertices g.vertices)
  | edgeCount => .ok (.count g.edgeCount)
  | checkVertex v => (g.checkVertex v).map fun _ => .done
  | check => g.check.map fun _ => .done
  | listing => .ok (.printed g.listing)
  | closure sources => (g.closure sources).map .vertices

/-- What can be done with a graph that is there. -/
inductive Action
  /-- Adds an edge. -/
  | connect (v w : Int)
  /-- Stores the sealed graph under another name. -/
  | seal (target : String)
  /-- Reassigns the vertex count. -/
  | recount (n : Int)
  /-- Compares with another graph: the same kind, count and lists. -/
  | equal (other : String)
  | ask (query : GraphQuery)

/-- What can be done with a name; graphs are built of records `φ`. -/
inductive Command (φ : Type)
  /-- Builds an open graph. -/
  | create (record : φ)
  /-- Builds a sealed graph. -/
  | createSealed (record : φ)
  | act (action : Action)

/-- Why a command fails; on records there are reports `ρ`. -/
inductive CommandError (ρ : Type)
  /-- There is no graph of that name. -/
  | absent (name : String)
  /-- The operation exists for open graphs only. -/
  | notOpen (operation : String)
  | graph (e : GraphError)
  | record (report : ρ)
  deriving Repr, DecidableEq

/-- The wording for an operation that a sealed graph does not have. -/
def CommandError.notOpenMessage (operation : String) : String :=
  "'FrozenDigraph' object has no attribute '" ++ operation ++ "'"

/-- The named graphs. -/
structure Workspace where
  entries : List (String × StoredGraph) := []
  deriving DecidableEq

namespace Workspace

/-- The graph of a name. -/
def get? (ws : Workspace) (name : String) : Option StoredGraph :=
  ws.entries.lookup name

/-- Removes a name. -/
def erase (ws : Workspace) (name : String) : Workspace :=
  { entries := ws.entries.filter (·.1 != name) }

/-- Stores a graph under a name, in place of any other. -/
def insert (ws : Workspace) (name : String) (g : StoredGraph) : Workspace :=
  { entries := (name, g) :: (ws.erase name).entries }

variable {φ ρ : Type}

/-- Stores what was built under a name that has been freed. -/
def store (ws : Workspace) (name : String) (built : Except ρ StoredGraph) :
    Except (CommandError ρ) Reply × Workspace :=
  match built with
  | .ok g => (.ok .done, (ws.erase name).insert name g)
  | .error report => (.error (.record report), ws.erase name)

/-- Changes the open graph `g`, which bears the name `name`. -/
def change (ws : Workspace) (name : String) (g : Graph) (m : GraphM Unit) :
    Except (CommandError ρ) Reply × Workspace :=
  match m g with
  | .ok _ g => (.ok .done, ws.insert name (.growing g))
  | .error e g => (.error (.graph e), ws.insert name (.growing g))

/-- Carries out an action on the graph `stored`, which bears the name `name`. -/
def perform (reader : RecordReader φ ρ) (ws : Workspace) (name : String) (stored : StoredGraph) :
    Action → Except (CommandError ρ) Reply × Workspace
  | .connect v w =>
    match stored with
    | .closed _ => (.error (.notOpen "add_edge"), ws)
    | .growing g => ws.change name g (Graph.connect v w)
  | .seal target =>
    match stored with
    | .closed _ => (.error (.notOpen "freeze"), ws)
    | .growing g =>
      match reader.report g.seal with
      | .ok s => (.ok (.graph (.closed s)), ws.insert target (.closed s))
      | .error report => (.error (.record report), ws)
  | .recount n =>
    match stored with
    | .closed _ => (.error (.record reader.assigned), ws)
    | .growing g => ws.change name g (modify (·.recount n))
  | .equal other => (.ok (.verdict (ws.get? other == some stored)), ws)
  | .ask query => ((query.answer stored.toGraph).mapError .graph, ws)

/-- Carries out a command on the graph of a name. -/
def execute (reader : RecordReader φ ρ) (ws : Workspace) (name : String) (command : Command φ) :
    Except (CommandError ρ) Reply × Workspace :=
  match command with
  | .create record => ws.store name ((Graph.ofRecord reader record).map .growing)
  | .createSealed record => ws.store name ((SealedGraph.ofRecord reader record).map .closed)
  | .act action =>
    match ws.get? name with
    | none => (.error (.absent name), ws)
    | some stored => ws.perform reader name stored action

end Workspace

end EpsilonMatch
