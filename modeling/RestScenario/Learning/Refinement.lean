import RestScenario.Learning.Knowledge

/-!
# What executions tell

Executions refine what names tell of tables. A `POST` or `PUT` that writes a table confirms it; a
`GET` that queries a table for the first time settles the verdict on whether names derive it.
Accesses to tables that the snapshot does not know are passed over.

Resources that have confirmed and written the same table are mutually related with certainty, as
soon as one of them confirms it anew.
-/

namespace RestScenario.Knowledge

/-- Knowledge in refinement, and the tables confirmed anew. -/
structure Refinement where
  knowledge : Knowledge
  confirmed : SortedSet String

/-- Changes what is known of the tables of a resource. -/
def mapTables (k : Knowledge) (resource : String) (f : TableKnowledge → TableKnowledge) :
    Knowledge :=
  { k with tables := k.tables.upsert resource fun t => f (t.getD .empty) }

/-- What is known of the tables of a resource; nothing of an unknown one. -/
def tablesOf (k : Knowledge) (resource : String) : TableKnowledge :=
  (k.tables.get? resource).getD .empty

/-- Draws the conclusion from the accesses of an action with a verb to a table. -/
def conclude (v : Verb) (table : String) (seen : SortedSet Access) (t : TableKnowledge) :
    TableKnowledge :=
  match v with
  | .post | .put => if seen.toList.any Access.isWrite then t.confirm table else t
  | .get =>
    if Access.select ∈ seen && !t.confirmed.contains table then
      t.judge table (t.isDerived table)
    else t
  | _ => t

/-- Whether an action with these accesses confirms a table. -/
def confirms (v : Verb) (seen : SortedSet Access) : Bool :=
  (v = .post || v = .put) && seen.toList.any Access.isWrite

/-- Takes the accesses of an action of a resource to one table into account. -/
def refineTable (resource : String) (a : Action) (state : Refinement)
    (touched : String × SortedSet Access) : Refinement :=
  let (table, seen) := touched
  if state.knowledge.snapshot.knows table then
    let new := confirms a.verb seen && !(state.knowledge.tablesOf resource).isConfirmed table
    { knowledge := state.knowledge.mapTables resource fun t =>
        conclude a.verb table seen (t.recordAccess a.name table seen)
      confirmed := if new then state.confirmed.insert table else state.confirmed }
  else state

/-- Takes what an action of a resource did to the database into account. -/
def refineAction (state : Refinement) (resource : String) (a : Action) (e : Execution) :
    Refinement :=
  e.accesses.entries.foldl (refineTable resource a) state

/-- The actions of calls in order, each with the resource of its call. -/
def actionsInOrder (calls : List Call) : List (String × Action) :=
  calls.flatMap fun c => c.actions.map (c.resource, ·)

/-- Takes executions into account, by the position of the action over all calls. -/
def refineActions (k : Knowledge) (calls : List Call) (executions : SortedMap Nat Execution) :
    Refinement :=
  (actionsInOrder calls).zipIdx.foldl (fun state ((resource, a), position) =>
    match executions.get? position with
    | some e => refineAction state resource a e
    | none => state) ⟨k, ∅⟩

/-- The resources that have confirmed and written a table. -/
def writers (k : Knowledge) (table : String) : SortedSet String :=
  .ofList ((k.tables.entries.filter fun e => e.2.isConfirmed table && e.2.writes table).map (·.1))

/-- Relates the resources that have confirmed and written a table. -/
def relateWriters (k : Knowledge) (table : String) : Knowledge :=
  let members := k.writers table
  if 1 < members.size then
    let name := ((k.schema.table? table).map (·.name)).getD table
    k.updateShared members table 1.0 true ("table:" ++ name)
  else k

/-- Takes executions into account; gives also the tables that some resource confirmed anew. -/
def refine (k : Knowledge) (calls : List Call) (executions : SortedMap Nat Execution) :
    Knowledge × SortedSet String :=
  let state := k.refineActions calls executions
  (state.confirmed.toList.foldl relateWriters state.knowledge, state.confirmed)

end RestScenario.Knowledge
