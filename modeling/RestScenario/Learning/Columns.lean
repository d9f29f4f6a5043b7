import RestScenario.Learning.Knowledge
import RestScenario.Resource.Basic

/-!
# Parameters bound to columns

Each parameter that takes its value from rows is bound to the best of its columns. All fields of a
body are bound to one table: the one that is best for most fields, the smallest name among equals.
When a call is seeded, its parameters take the latest value that the row actions give to their
column; a value that a creating action of the call provides stays.
-/

namespace RestScenario

/-- The column from which a parameter, or a field of a body, takes its value. -/
structure ColumnBinding where
  param : String
  field : Option String
  table : String
  column : String
deriving DecidableEq

namespace TableKnowledge

/-- The number of fields for which each table is best. -/
def votes (k : TableKnowledge) (fields : SortedMap String (List ColumnMatch)) :
    SortedMap String Nat :=
  (fields.values.filterMap k.bestColumn?).foldl
    (fun m c => m.upsert c.table fun n => n.getD 0 + 1) ∅

/-- The table that is best for most fields; the smallest name among equals. -/
def majorityTable? (k : TableKnowledge) (fields : SortedMap String (List ColumnMatch)) :
    Option String :=
  let counts := k.votes fields
  let top := counts.values.foldl max 0
  (counts.entries.find? fun e => e.2 = top).map (·.1)

/-- The bindings of one parameter. -/
def bindingsOf (k : TableKnowledge) (param : String) : ParamColumns → List ColumnBinding
  | .simple columns =>
    match k.bestColumn? columns with
    | some c => [⟨param, none, c.table, c.column⟩]
    | none => []
  | .body fields =>
    match k.majorityTable? fields with
    | none => []
    | some table =>
      fields.entries.filterMap fun e =>
        (k.bestColumn? (e.2.filter fun c => c.table = table)).map fun c =>
          ⟨param, some e.1, table, c.column⟩

/-- The bindings of all parameters. -/
def bindings (k : TableKnowledge) : List ColumnBinding :=
  k.params.entries.flatMap fun e => k.bindingsOf e.1 e.2

end TableKnowledge

/-- The value that the latest row action on a table gives to a column. -/
def latestValue? (rows : List RowAction) (table column : String) : Option Value :=
  (rows.reverse.filter fun a => a.isOn table).findSome? fun a =>
    (a.value? column).filter fun v => !v.isNull

/-- Applies a binding to its parameter, counting what it binds. -/
def ColumnBinding.apply (rows : List RowAction) (state : Param × Nat) (b : ColumnBinding) :
    Param × Nat :=
  let (p, bound) := state
  match latestValue? rows b.table b.column with
  | none => (p, bound)
  | some v =>
    match b.field with
    | none => ({ p with value := v }, bound + 1)
    | some name =>
      if (p.field? name).isSome then (p.mapFields (setField name v), bound + 1) else (p, bound)

namespace Knowledge

/-- The bindings of the parameters of a resource. -/
def bindings (k : Knowledge) (resource : String) : List ColumnBinding :=
  match k.tables.get? resource with
  | some t => t.bindings
  | none => []

/-- The key of a parameter that is bound from rows. -/
def boundKey? (r : Resource) (created : Bool) (a : Action) (p : Param) : Option String :=
  match r.record? a p with
  | some record => if record.isBoundFromRows created then some record.key else none
  | none => none

/-- Binds a parameter of an action, counting what is bound. -/
def bindParam (bindings : List ColumnBinding) (rows : List RowAction) (key : Option String)
    (p : Param) : Param × Nat :=
  match key with
  | none => (p, 0)
  | some key => (bindings.filter fun b => b.param = key).foldl (ColumnBinding.apply rows) (p, 0)

/-- Binds the parameters of an action, counting what is bound. -/
def bindAction (bindings : List ColumnBinding) (rows : List RowAction) (r : Resource)
    (created : Bool) (a : Action) : Action × Nat :=
  let results := a.params.map fun p => bindParam bindings rows (boundKey? r created a p) p
  ({ a with params := results.map (·.1) }, (results.map (·.2)).foldl (· + ·) 0)

/-- Gives the parameters of a call the values of its row actions; gives also the number of values
bound. -/
def bindCall (k : Knowledge) (r : Resource) (c : Call) : Call × Nat :=
  let bindings := k.bindings c.resource
  if bindings.isEmpty || c.rows.isEmpty then (c, 0)
  else
    let results := c.actions.map (bindAction bindings c.rows r (c.status = .created))
    let bound : Nat := (results.map (·.2)).foldl (· + ·) 0
    let c := { c with actions := results.map (·.1) }
    (if 0 < bound then c.realign else c, bound)

end Knowledge

end RestScenario
