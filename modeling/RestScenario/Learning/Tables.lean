import RestScenario.Learning.Execution
import RestScenario.Number.Compare

/-!
# Resources and tables

What is known of one resource in relation to tables: tables derived from names, the verdict of
executions on each table, the columns that parameters may take values from, and the accesses seen
per action. A table with a negative verdict was queried without any sign that the resource writes
it.
-/

namespace RestScenario

/-- A name that matches a table. -/
structure NameMatch where
  /-- The path element, schema type or word that matched. -/
  input : String
  target : String
  similarity : Float
  /-- The level of a path element; 0 for schema types. -/
  level : Nat
deriving DecidableEq

/-- A column that a parameter or field may carry the value of. -/
structure ColumnMatch where
  table : String
  column : String
  similarity : Float
deriving DecidableEq

/-- The columns for a parameter, or for each field of a body. -/
inductive ParamColumns where
  | simple (columns : List ColumnMatch)
  | body (fields : SortedMap String (List ColumnMatch))
deriving DecidableEq

/-- What is known of a resource in relation to tables. -/
structure TableKnowledge where
  derived : SortedMap String (List NameMatch)
  /-- The verdicts on tables. -/
  confirmed : SortedMap String Bool
  /-- Columns by parameter key. -/
  params : SortedMap String ParamColumns
  /-- Accesses by action name, then by table. -/
  accesses : SortedMap String (SortedMap String (SortedSet Access))
deriving DecidableEq

namespace TableKnowledge

/-- Nothing known. -/
def empty : TableKnowledge := ⟨∅, ∅, ∅, ∅⟩

instance : Inhabited TableKnowledge := ⟨empty⟩

/-- Adds a match unless the table has one from the same input. -/
def addMatch (found : NameMatch) (known : List NameMatch) : List NameMatch :=
  if known.any fun i => i.input = found.input then known else known ++ [found]

/-- Derives a table from a name. -/
def derive (k : TableKnowledge) (table : String) (found : NameMatch) : TableKnowledge :=
  { k with derived := k.derived.upsert table fun known => addMatch found (known.getD []) }

/-- Whether a table is derived. -/
def isDerived (k : TableKnowledge) (table : String) : Bool := k.derived.contains table

/-- Whether the verdict on a table is positive. -/
def isConfirmed (k : TableKnowledge) (table : String) : Bool :=
  (k.confirmed.get? table).getD false

/-- Confirms a table, which counts as derived from then on. -/
def confirm (k : TableKnowledge) (table : String) : TableKnowledge :=
  let k := if k.isDerived table then k else k.derive table ⟨table, table, 1.0, 0⟩
  { k with confirmed := k.confirmed.insert table true }

/-- Sets the verdict on a table. -/
def judge (k : TableKnowledge) (table : String) (verdict : Bool) : TableKnowledge :=
  { k with confirmed := k.confirmed.insert table verdict }

/-- The tables with a positive verdict. -/
def confirmedTables (k : TableKnowledge) : SortedSet String :=
  .ofList ((k.confirmed.entries.filter (·.2)).map (·.1))

/-- The tables that are confirmed, or derived without a negative verdict. -/
def relatedTables (k : TableKnowledge) : SortedSet String :=
  (SortedSet.ofList (k.derived.keys.filter fun t => (k.confirmed.get? t).getD true)).union
    k.confirmedTables

/-- The best similarity from which a table is derived. -/
def bestSimilarity (k : TableKnowledge) (table : String) : Float :=
  (((k.derived.get? table).getD []).map (·.similarity)).foldl Number.larger 0.0

/-- Adds accesses of an action to a table. -/
def recordAccess (k : TableKnowledge) (action table : String) (seen : SortedSet Access) :
    TableKnowledge :=
  { k with
    accesses := k.accesses.upsert action fun tables =>
      (tables.getD ∅).upsert table fun old => (old.getD ∅).union seen }

/-- Whether some action was seen to write the table. -/
def writes (k : TableKnowledge) (table : String) : Bool :=
  k.accesses.values.any fun tables =>
    match tables.get? table with
    | some seen => seen.toList.any Access.isWrite
    | none => false

/-- Compares two columns: a confirmed table first, then similarity, then the smaller table name. -/
def compareColumns (k : TableKnowledge) (a b : ColumnMatch) : Ordering :=
  (compare (k.isConfirmed a.table).toNat (k.isConfirmed b.table).toNat).then
    ((compare (Number.rank a.similarity) (Number.rank b.similarity)).then
      (compare b.table a.table))

/-- The better of two columns; of equal ones the later. -/
def betterColumn (k : TableKnowledge) (best : Option ColumnMatch) (m : ColumnMatch) :
    Option ColumnMatch :=
  match best with
  | some b => if k.compareColumns b m = .gt then some b else some m
  | none => some m

/-- The best of several columns; of equal ones the last. -/
def bestColumn? (k : TableKnowledge) (columns : List ColumnMatch) : Option ColumnMatch :=
  columns.foldl k.betterColumn none

end TableKnowledge

end RestScenario
