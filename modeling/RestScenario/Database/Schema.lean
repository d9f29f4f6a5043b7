import RestScenario.Text.Ascii
import RestScenario.Text.Blank
import RestScenario.Value

/-!
# Database schemas

Tables with typed columns and foreign keys. Table names are compared without blanks around them and
without regard to case; column names without regard to case.
-/

namespace RestScenario

/-- The form in which table names are compared. -/
def tableKey (name : String) : String := Text.lower (Text.trim name)

/-- A column of a table. -/
structure Column where
  name : String
  type : ValueType
  primaryKey : Bool
deriving DecidableEq

/-- Columns that refer to another table. -/
structure ForeignKey where
  columns : List String
  targetTable : String
deriving DecidableEq

/-- A table of a schema. -/
structure Table where
  name : String
  columns : List Column
  foreignKeys : List ForeignKey
deriving DecidableEq

namespace Table

/-- The columns of the primary key. -/
def primaryKeys (t : Table) : List Column := t.columns.filter (·.primaryKey)

/-- Whether a column belongs to a foreign key. -/
def isForeignKeyColumn (t : Table) (column : String) : Bool :=
  t.foreignKeys.any fun k => k.columns.any fun c => Text.sameLetters c column

/-- The columns that no foreign key fills. -/
def ownColumns (t : Table) : List Column :=
  t.columns.filter fun c => !t.isForeignKeyColumn c.name

end Table

/-- The tables of a database. -/
structure Schema where
  tables : List Table
deriving DecidableEq, Inhabited

/-- The first table of a name. -/
def Schema.table? (s : Schema) (name : String) : Option Table :=
  s.tables.find? fun t => tableKey t.name = tableKey name

end RestScenario
