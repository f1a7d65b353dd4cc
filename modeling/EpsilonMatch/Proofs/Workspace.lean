import EpsilonMatch.Proofs.Graph.Validation
import EpsilonMatch.Workspace
/-!
# EpsilonMatch.Proofs.Workspace

What a command leaves of the named graphs.

A command may replace the graphs of a few names only (`Command.replaces`), and all others
are looked up as before (`Workspace.get?_execute_of_notMem`). Where it fails there are two
cases. A graph that could not be built is gone, and one that could not be changed is there
as it was. The latter is no matter of the workspace, which stores whatever a failed change
leaves; it rests on `Graph.connect_eq_error`.

What is built is the graph of the count and lists that were read, and changes that are
carried out as commands come to what `Graph.afterAll` says of them
(`Workspace.get?_changeAll`). Nothing is assumed about the reader of records.
-/

namespace EpsilonMatch

/-- The names whose graphs a command to `name` may replace. -/
def Command.replaces {φ : Type} (name : String) : Command φ → List String
  | .create _ | .createSealed _ => [name]
  | .act (.connect _ _) | .act (.recount _) => [name]
  | .act (.seal target) => [target]
  | .act (.equal _) | .act (.ask _) => []

/-- The action that carries out a change. -/
def Change.action : Change → Action
  | connect v w => .connect v w
  | recount n => .recount n

/-! ### Records -/

section
variable {φ ρ : Type} {reader : RecordReader φ ρ} {record : φ}

theorem RecordReader.report_eq_ok_iff {α : Type} {outcome : Except GraphError α} {a : α} :
    reader.report outcome = .ok a ↔ outcome = .ok a := by
  cases outcome with
  | ok b =>
      show Except.ok b = .ok a ↔ _
      rw [Except.ok.injEq, Except.ok.injEq]
  | error e => exact iff_of_false nofun nofun

theorem RecordReader.build_eq_ok_iff {α : Type}
    {ofLists? : Int → List (List Int) → Except GraphError α}
    {read : Except ρ (Int × List (List Int))} {a : α} :
    reader.build ofLists? read = .ok a ↔
      ∃ count lists, read = .ok (count, lists) ∧ ofLists? count lists = .ok a := by
  cases read with
  | error report =>
      refine iff_of_false nofun fun found => ?_
      obtain ⟨count, lists, read, -⟩ := found
      cases read
  | ok fields =>
      obtain ⟨count, lists⟩ := fields
      refine report_eq_ok_iff.trans ⟨fun built => ⟨count, lists, rfl, built⟩, fun found => ?_⟩
      obtain ⟨_, _, read, built⟩ := found
      cases read
      exact built

/-- A sealed graph is built of a record exactly if its count and lists were read. -/
theorem SealedGraph.ofRecord_eq_ok_iff {s : SealedGraph} :
    ofRecord reader record = .ok s ↔
      reader.closed record = .ok (s.toGraph.vertexCount, s.toGraph.lists) := by
  refine RecordReader.build_eq_ok_iff.trans ⟨fun found => ?_, fun read => ?_⟩
  · obtain ⟨count, lists, read, built⟩ := found
    obtain ⟨rfl, rfl⟩ := ofLists?_eq_ok_iff.1 built
    exact read
  · exact ⟨_, _, read, ofLists?_eq_ok_iff.2 ⟨rfl, rfl⟩⟩

end

namespace Workspace

variable {φ ρ : Type} {reader : RecordReader φ ρ} {ws : Workspace} {name other : String}
  {g : Graph} {stored : StoredGraph}

/-! ### Names -/

theorem get?_erase_self (ws : Workspace) (name : String) : (ws.erase name).get? name = none := by
  refine List.lookup_eq_none_iff.2 fun entry mem => ?_
  exact bne_iff_ne.2 (bne_iff_ne.1 (List.mem_filter.1 mem).2).symm

theorem get?_erase_of_ne (ws : Workspace) (ne : other ≠ name) :
    (ws.erase name).get? other = ws.get? other := by
  obtain ⟨entries⟩ := ws
  show (entries.filter (·.1 != name)).lookup other = entries.lookup other
  induction entries with
  | nil => rfl
  | cons entry rest ih =>
      obtain ⟨key, stored⟩ := entry
      by_cases same : key = name
      · rw [List.filter_cons_of_neg (by simp [same]), ih, List.lookup_cons,
          beq_false_of_ne (same ▸ ne)]
      · rw [List.filter_cons_of_pos (by simp [same]), List.lookup_cons, List.lookup_cons, ih]

theorem get?_insert_self (ws : Workspace) (name : String) (stored : StoredGraph) :
    (ws.insert name stored).get? name = some stored :=
  List.lookup_cons_self

theorem get?_insert_of_ne (ws : Workspace) (ne : other ≠ name) (stored : StoredGraph) :
    (ws.insert name stored).get? other = ws.get? other := by
  show ((name, stored) :: (ws.erase name).entries).lookup other = _
  rw [List.lookup_cons, beq_false_of_ne ne]
  exact ws.get?_erase_of_ne ne

/-- A graph that is stored again is there as it was, and so are all others. -/
theorem get?_insert_of_get? (here : ws.get? name = some stored) (other : String) :
    (ws.insert name stored).get? other = ws.get? other := by
  by_cases same : other = name
  · rw [same, get?_insert_self, here]
  · exact ws.get?_insert_of_ne same stored

/-! ### One command -/

theorem execute_act (here : ws.get? name = some stored) (action : Action) :
    ws.execute reader name (.act action) = ws.perform reader name stored action := by
  simp only [execute, here]

theorem execute_act_absent (absent : ws.get? name = none) (action : Action) :
    ws.execute reader name (.act action) = (.error (.absent name), ws) := by
  simp only [execute, absent]

theorem get?_store_of_ne (ne : other ≠ name) (built : Except ρ StoredGraph) :
    (ws.store name built).2.get? other = ws.get? other := by
  cases built with
  | error report => exact ws.get?_erase_of_ne ne
  | ok g => exact ((ws.erase name).get?_insert_of_ne ne g).trans (ws.get?_erase_of_ne ne)

theorem get?_change_of_ne (ne : other ≠ name) (m : GraphM Unit) :
    (ws.change name g m : Except (CommandError ρ) Reply × Workspace).2.get? other =
      ws.get? other := by
  unfold change
  cases m g with
  | ok _ next => exact ws.get?_insert_of_ne ne _
  | error e left => exact ws.get?_insert_of_ne ne _

theorem get?_perform_of_notMem {action : Action}
    (untouched : other ∉ (Command.act action : Command φ).replaces name) :
    (ws.perform reader name stored action).2.get? other = ws.get? other := by
  cases action with
  | connect v w =>
      cases stored with
      | closed s => rfl
      | growing g => exact get?_change_of_ne (List.ne_of_not_mem_cons untouched) _
  | recount n =>
      cases stored with
      | closed s => rfl
      | growing g => exact get?_change_of_ne (List.ne_of_not_mem_cons untouched) _
  | «seal» target =>
      cases stored with
      | closed s => rfl
      | growing g =>
          rw [perform]
          cases reader.report g.seal with
          | error report => rfl
          | ok s => exact ws.get?_insert_of_ne (List.ne_of_not_mem_cons untouched) _
  | equal _ => rfl
  | ask query => rfl

/-- A command leaves all graphs but those of a few names as they are. -/
theorem get?_execute_of_notMem {command : Command φ} (untouched : other ∉ command.replaces name) :
    (ws.execute reader name command).2.get? other = ws.get? other := by
  cases command with
  | create record => exact get?_store_of_ne (List.ne_of_not_mem_cons untouched) _
  | createSealed record => exact get?_store_of_ne (List.ne_of_not_mem_cons untouched) _
  | act action =>
      cases here : ws.get? name with
      | none => rw [execute_act_absent here]
      | some stored =>
          rw [execute_act here]
          exact get?_perform_of_notMem untouched

/-! ### Building -/

/-- A name bears what was built under it, and nothing if that failed. -/
theorem get?_store_self (ws : Workspace) (name : String) (built : Except ρ StoredGraph) :
    (ws.store name built).2.get? name = built.toOption := by
  cases built with
  | error report => exact ws.get?_erase_self name
  | ok g => exact (ws.erase name).get?_insert_self name g

theorem toOption_map_eq_some_iff {α β : Type} {f : α → β} (injective : Function.Injective f)
    {built : Except ρ α} {a : α} : (built.map f).toOption = some (f a) ↔ built = .ok a := by
  cases built with
  | error report => exact iff_of_false nofun nofun
  | ok b => exact Option.some_inj.trans (injective.eq_iff.trans (by rw [Except.ok.injEq]))

/-- An open graph is there exactly if it is built of the count and lists that were read. -/
theorem get?_execute_create_iff {record : φ} :
    (ws.execute reader name (.create record)).2.get? name = some (.growing g) ↔
      ∃ count lists, reader.growing record = .ok (count, lists) ∧
        Graph.ofLists? count lists = .ok g := by
  rw [execute, get?_store_self, toOption_map_eq_some_iff fun _ _ => StoredGraph.growing.inj]
  exact RecordReader.build_eq_ok_iff

/-- A sealed graph is there exactly if its count and lists were read. -/
theorem get?_execute_createSealed_iff {record : φ} {s : SealedGraph} :
    (ws.execute reader name (.createSealed record)).2.get? name = some (.closed s) ↔
      reader.closed record = .ok (s.toGraph.vertexCount, s.toGraph.lists) := by
  rw [execute, get?_store_self, toOption_map_eq_some_iff fun _ _ => StoredGraph.closed.inj]
  exact SealedGraph.ofRecord_eq_ok_iff

/-! ### Failures -/

theorem get?_perform_of_error (here : ws.get? name = some stored) {action : Action}
    {e : CommandError ρ} (failed : (ws.perform reader name stored action).1 = .error e) :
    (ws.perform reader name stored action).2.get? other = ws.get? other := by
  cases action with
  | connect v w =>
      cases stored with
      | closed s => rfl
      | growing g =>
          rw [perform, change] at failed ⊢
          cases refused : Graph.connect v w g with
          | ok _ next =>
              rw [refused] at failed
              cases failed
          | error fault left =>
              obtain ⟨-, rfl⟩ := Graph.connect_eq_error refused
              exact get?_insert_of_get? here other
  | recount n =>
      cases stored with
      | closed s => rfl
      | growing g => cases failed
  | «seal» target =>
      cases stored with
      | closed s => rfl
      | growing g =>
          rw [perform] at failed ⊢
          cases sealing : reader.report g.seal with
          | error report => rfl
          | ok s =>
              rw [sealing] at failed
              cases failed
  | equal _ => cases failed
  | ask query => rfl

/-- An action that fails leaves every graph as it is. -/
theorem get?_execute_of_error {action : Action} {e : CommandError ρ}
    (failed : (ws.execute reader name (.act action)).1 = .error e) (other : String) :
    (ws.execute reader name (.act action)).2.get? other = ws.get? other := by
  cases here : ws.get? name with
  | none => rw [execute_act_absent here]
  | some stored =>
      rw [execute_act here] at failed ⊢
      exact get?_perform_of_error here failed

/-! ### Sequences of changes -/

/-- The workspace behind a sequence of changes to one of its graphs. -/
def changeAll (reader : RecordReader φ ρ) (ws : Workspace) (name : String)
    (changes : List Change) : Workspace :=
  changes.foldl (fun ws c => (ws.execute reader name (.act c.action)).2) ws

theorem get?_execute_change (here : ws.get? name = some (.growing g)) (c : Change) :
    (ws.execute reader name (.act c.action)).2.get? name = some (.growing (g.after c)) := by
  have changed : ws.perform reader name (.growing g) c.action = ws.change name g c.run := by
    cases c with
    | connect v w => rfl
    | recount n => rfl
  rw [execute_act here, changed, change, Graph.after]
  cases c.run g with
  | ok _ next => exact ws.get?_insert_self name _
  | error e left => exact ws.get?_insert_self name _

/-- **Changes carried out as commands.** They leave the graph that the changes lead to, and the
graphs of all other names as they were. -/
theorem get?_changeAll (here : ws.get? name = some (.growing g)) (changes : List Change) :
    (ws.changeAll reader name changes).get? name = some (.growing (g.afterAll changes)) ∧
      ∀ other ≠ name, (ws.changeAll reader name changes).get? other = ws.get? other := by
  induction changes generalizing ws g with
  | nil => exact ⟨here, fun other _ => rfl⟩
  | cons c rest ih =>
      have step : (ws.execute reader name (.act c.action)).2.get? name =
          some (.growing (g.after c)) := get?_execute_change here c
      obtain ⟨now, kept⟩ := ih step
      refine ⟨now, fun other ne => (kept other ne).trans (get?_execute_of_notMem ?_)⟩
      cases c with
      | connect v w => exact fun mem => ne (List.mem_singleton.1 mem)
      | recount n => exact fun mem => ne (List.mem_singleton.1 mem)

end Workspace

end EpsilonMatch
