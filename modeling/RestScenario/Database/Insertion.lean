import RestScenario.Database.RowAction
import RestScenario.Error
import RestScenario.Random.Draw

/-!
# Insertions with the rows they refer to

To insert a row is to insert first, for each foreign key of its table, a row of the table referred
to, and so on. A table whose insertion is under way is not inserted again: the reference to it stays
without target, so cycles of foreign keys come to an end. An `InsertionPlan` is the tree of these
insertions; it is laid out from the schema alone and then built row by row.

Row actions are numbered consecutively. Numbers and random words that a failed insertion has used up
stay used up.
-/

namespace RestScenario

open RestScenario.Random

/-! ## Plans -/

mutual

/-- The insertion of a row into a named table. -/
inductive InsertionPlan where
  /-- The schema has no table of the name. -/
  | missing (name : String)
  | row (table : Table) (targets : TargetPlans)

/-- What is inserted for the foreign keys of a table. -/
inductive TargetPlans where
  | none
  /-- The table referred to is under way already. -/
  | underWay (key : ForeignKey) (rest : TargetPlans)
  | insert (key : ForeignKey) (plan : InsertionPlan) (rest : TargetPlans)

end

namespace InsertionPlan

/-- The tables of a schema that are not under way. -/
def idle (schema : Schema) (underWay : List String) : List Table :=
  schema.tables.filter fun t => tableKey t.name ∉ underWay

theorem table?_key {schema : Schema} {name : String} {t : Table} (h : schema.table? name = some t) :
    t ∈ schema.tables ∧ tableKey t.name = tableKey name :=
  ⟨List.mem_of_find?_eq_some h, by simpa using List.find?_some h⟩

/-- Putting a table of the schema under way leaves fewer idle. -/
theorem idle_cons_lt {schema : Schema} {underWay : List String} {name : String} {t : Table}
    (h : schema.table? name = some t) (fresh : tableKey name ∉ underWay) :
    (idle schema (tableKey t.name :: underWay)).length < (idle schema underWay).length := by
  obtain ⟨mem, key⟩ := table?_key h
  have others : idle schema (tableKey t.name :: underWay) =
      (idle schema underWay).filter fun u => tableKey u.name ≠ tableKey t.name := by
    simp [idle, List.filter_filter]
  rw [others, List.length_filter_lt_length_iff_exists]
  exact ⟨t, List.mem_filter.2 ⟨mem, by simpa [key] using fresh⟩, by simp⟩

mutual

/-- The plan for a row of a table that is not under way. -/
def layOut (schema : Schema) (underWay : List String) (name : String)
    (fresh : tableKey name ∉ underWay) : InsertionPlan :=
  match h : schema.table? name with
  | none => .missing name
  | some t =>
    have := idle_cons_lt h fresh
    .row t (layOutTargets schema (tableKey t.name :: underWay) t.foreignKeys)
termination_by ((idle schema underWay).length, 0)
decreasing_by exact .left _ _ this

/-- The plans for the foreign keys of a table. -/
def layOutTargets (schema : Schema) (underWay : List String) : List ForeignKey → TargetPlans
  | [] => .none
  | k :: rest =>
    if fresh : tableKey k.targetTable ∈ underWay then
      .underWay k (layOutTargets schema underWay rest)
    else
      .insert k (layOut schema underWay k.targetTable fresh) (layOutTargets schema underWay rest)
termination_by keys => ((idle schema underWay).length, keys.length + 1)
decreasing_by
  · exact .right _ (by simp)
  · exact .right _ (by simp)
  · exact .right _ (by simp)

end

/-- The plan for a row of a table when nothing is under way. -/
def ofTable (schema : Schema) (name : String) : InsertionPlan := layOut schema [] name (by simp)

end InsertionPlan

/-! ## Building -/

/-- Random words and row numbers for building row actions. -/
structure Supply where
  source : Source
  nextId : Nat

/-- The first number given out when no other is asked for. -/
def Supply.firstId : Nat := 1

/-- A computation that builds row actions; a failure keeps what was used up. -/
abbrev Building := ExceptT Error (StateM Supply)

namespace Building

/-- A draw from the random words of the supply. -/
def draw {α : Type} (d : Draw α) : Building α := fun s =>
  let (a, source) := d s.source
  (.ok a, { s with source := source })

/-- The next row number; numbers start at one. -/
def takeId : Building Nat := fun s =>
  let id := max s.nextId 1
  (.ok id, { s with nextId := id + 1 })

/-- A random value for every column, drawn in order. -/
def drawValues : List Column → Draw (List (String × Value))
  | [] => return []
  | c :: rest => do
    let v ← c.type.draw
    let rest ← drawValues rest
    return (c.name, v) :: rest

mutual

/-- Builds a planned row after the rows it refers to: all row actions, its own last, and its
number. -/
def ofPlan : InsertionPlan → Building (List RowAction × Nat)
  | .missing name => throw (.unknownTable name)
  | .row t targets => do
    let (rows, references) ← ofTargets targets
    let values ← draw (drawValues t.ownColumns)
    let id ← takeId
    return (rows ++ [⟨id, t.name, .insert, SortedMap.ofList values, references⟩], id)

/-- Builds the rows planned for foreign keys, and one reference for each key. -/
def ofTargets : TargetPlans → Building (List RowAction × List Reference)
  | .none => return ([], [])
  | .underWay k rest => do
    let (rows, references) ← ofTargets rest
    return (rows, ⟨k.columns, k.targetTable, none⟩ :: references)
  | .insert k plan rest => do
    let (rows, id) ← ofPlan plan
    let (more, references) ← ofTargets rest
    return (rows ++ more, ⟨k.columns, k.targetTable, some id⟩ :: references)

end

/-- Inserts a row into a table, after the rows it refers to. -/
def insertWithReferences (schema : Schema) (table : String) : Building (List RowAction) := do
  let (rows, _) ← ofPlan (.ofTable schema table)
  return rows

/-- Selects an existing row of a table. -/
def selectExisting (table : String) (row : Row) : Building RowAction := do
  let id ← takeId
  return .select id table row

end Building

end RestScenario
