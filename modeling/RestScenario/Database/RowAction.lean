import RestScenario.Database.Snapshot

/-!
# Row actions and their references

A row action seeds a call with a row: it inserts a fresh one or selects one that exists. The foreign
keys of an inserted row refer to earlier row actions by number, or to nothing.

References are in order when each points to an earlier row action on the table it names
(`referencesInOrder`). `repairReferences` restores that order: what is in order stays, any other
reference turns to the latest earlier row action on its table, or to nothing.
-/

namespace RestScenario

/-- What a row action does. -/
inductive RowActionKind where
  /-- Inserts a fresh row. -/
  | insert
  /-- Refers to a row that exists already. -/
  | select (row : Row)
deriving DecidableEq

/-- A reference of foreign key columns to an earlier row action; without a target it refers to data
that is present already. -/
structure Reference where
  columns : List String
  targetTable : String
  target : Option Nat
deriving DecidableEq

/-- An insertion or selection of a row. -/
structure RowAction where
  id : Nat
  table : String
  kind : RowActionKind
  values : SortedMap String Value
  references : List Reference
deriving DecidableEq

namespace RowAction

/-- The selection of an existing row. -/
def select (id : Nat) (table : String) (row : Row) : RowAction :=
  ⟨id, table, .select row, row.values, []⟩

/-- Whether the row exists already. -/
def isSelection (a : RowAction) : Bool :=
  match a.kind with
  | .select _ => true
  | .insert => false

/-- The table in comparison form. -/
def tableKey (a : RowAction) : String := RestScenario.tableKey a.table

/-- Whether the row belongs to a table. -/
def isOn (a : RowAction) (table : String) : Bool := a.tableKey = RestScenario.tableKey table

/-- The value of a column, case aside. -/
def value? (a : RowAction) (column : String) : Option Value := valueOfColumn? a.values column

end RowAction

/-! ## References in order -/

/-- The rows that later row actions may refer to: number and table, the latest first. -/
abbrev SeenRows := List (Nat × String)

/-- The rows of row actions that went before. -/
def seenRows (preceding : List RowAction) : SeenRows :=
  (preceding.map fun a => (a.id, a.tableKey)).reverse

/-- Whether a reference points to nothing or to a seen row of its table. -/
def Reference.inOrder (seen : SeenRows) (r : Reference) : Bool :=
  match r.target with
  | none => true
  | some t => seen.any fun s => s.1 = t && s.2 = tableKey r.targetTable

/-- Whether every reference points to a row seen before it. -/
def inOrderAfter (seen : SeenRows) : List RowAction → Bool
  | [] => true
  | a :: rest =>
    a.references.all (·.inOrder seen) && inOrderAfter ((a.id, a.tableKey) :: seen) rest

/-- Whether every reference points to an earlier row action on its table, among those that went
before or in the list itself. -/
def referencesInOrder (preceding actions : List RowAction) : Bool :=
  inOrderAfter (seenRows preceding) actions

/-! ## Repair -/

/-- The latest seen row of a table. -/
def latestOn? (seen : SeenRows) (table : String) : Option Nat :=
  (seen.find? fun s => s.2 = tableKey table).map (·.1)

/-- Keeps a reference that is in order; turns any other to the latest seen row of its table. -/
def Reference.repair (seen : SeenRows) (r : Reference) : Reference :=
  if r.inOrder seen then r else { r with target := latestOn? seen r.targetTable }

/-- Repairs the references of row actions after the given rows. -/
def repairAfter (seen : SeenRows) : List RowAction → List RowAction
  | [] => []
  | a :: rest =>
    { a with references := a.references.map (·.repair seen) }
      :: repairAfter ((a.id, a.tableKey) :: seen) rest

/-- Puts the references of a list in order after the row actions that went before. -/
def repairReferences (preceding actions : List RowAction) : List RowAction :=
  repairAfter (seenRows preceding) actions

end RestScenario
