import RestScenario.Database.Schema
import RestScenario.Ordered.Map
import RestScenario.Ordered.Set

/-!
# Snapshots of existing rows

A snapshot holds the rows that tables have, by table. Tables that are added to a snapshot are filed
under their comparison form; a snapshot that was read keeps its names as given. Look-ups bring the
name asked for into comparison form.
-/

namespace RestScenario

/-- The known values of one existing row, by column. -/
structure Row where
  values : SortedMap String Value
deriving DecidableEq

/-- The value of the first column of a name, case aside. -/
def valueOfColumn? (values : SortedMap String Value) (column : String) : Option Value :=
  (values.entries.find? fun e => Text.sameLetters e.1 column).map (·.2)

/-- Whether two rows have the same columns with agreeing values. -/
def Row.agrees (r s : Row) : Bool :=
  r.values.keys = s.values.keys &&
    (r.values.values.zip s.values.values).all fun (a, b) => a.agrees b

/-- The existing rows of each table. -/
structure Snapshot where
  tables : SortedMap String (List Row)
deriving DecidableEq

namespace Snapshot

/-- The snapshot without tables. -/
def empty : Snapshot := ⟨∅⟩

instance : Inhabited Snapshot := ⟨empty⟩

/-- Adds a table, without rows unless it is there already. -/
def addTable (s : Snapshot) (table : String) : Snapshot :=
  ⟨s.tables.upsert (tableKey table) fun rows => rows.getD []⟩

/-- Adds a row at the end of a table. -/
def addRow (s : Snapshot) (table : String) (row : Row) : Snapshot :=
  ⟨s.tables.upsert (tableKey table) fun rows => rows.getD [] ++ [row]⟩

/-- The rows of a table, if the snapshot knows it. -/
def rows? (s : Snapshot) (table : String) : Option (List Row) := s.tables.get? (tableKey table)

/-- The rows of a table; an unknown table has none. -/
def rows (s : Snapshot) (table : String) : List Row := (s.rows? table).getD []

/-- Whether the snapshot knows a table. -/
def knows (s : Snapshot) (table : String) : Bool := (s.rows? table).isSome

/-! ## Differences -/

/-- The tables that gained and lost rows between two snapshots. -/
structure Difference where
  inserted : SortedSet String
  deleted : SortedSet String
deriving DecidableEq

/-- Whether no table gained or lost a row. -/
def Difference.isEmpty (d : Difference) : Bool := d.inserted.isEmpty && d.deleted.isEmpty

/-- Some row of the second list agrees with none of the first. -/
def hasNewRow (old new : List Row) : Bool := new.any fun r => !old.any fun o => o.agrees r

/-- The names under which either snapshot files a table. -/
def tableNames (before after : Snapshot) : SortedSet String :=
  SortedSet.ofList (before.tables.keys ++ after.tables.keys)

/-- What changed from one snapshot to another. -/
def difference (before after : Snapshot) : Difference where
  inserted := (tableNames before after).filter fun t => hasNewRow (before.rows t) (after.rows t)
  deleted := (tableNames before after).filter fun t => hasNewRow (after.rows t) (before.rows t)

end Snapshot

/-- A schema with the rows that exist. -/
structure Database where
  schema : Schema
  snapshot : Snapshot
deriving DecidableEq

/-- The database without tables. -/
def Database.empty : Database := ⟨⟨[]⟩, .empty⟩

end RestScenario
