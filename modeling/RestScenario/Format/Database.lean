import RestScenario.Database.RowAction
import RestScenario.Format.Catalogue

/-!
# Database documents

Schemas, snapshots and row actions as JSON documents. A snapshot keeps the names of its tables as
they are written.
-/

namespace RestScenario

open Json

/-! ## Schemas -/

namespace Column

/-- The column of a document. -/
def ofDocument? (d : Document) : Option Column := do
  let fields ← d.asRecord? ["name", "type", "primary_key"]
  return {
    name := ← fields.required "name" Document.asText?
    type := ← fields.optional "type" .integer ValueType.ofDocument?
    primaryKey := ← fields.optional "primary_key" false Document.asBool? }

/-- The document of a column. -/
def toDocument (c : Column) : Document :=
  ofFields [("name", ofString c.name), ("type", ofString c.type.name),
    ("primary_key", .bool c.primaryKey)]

end Column

namespace ForeignKey

/-- The foreign key of a document. -/
def ofDocument? (d : Document) : Option ForeignKey := do
  let fields ← d.asRecord? ["columns", "target_table"]
  return {
    columns := ← fields.required "columns" (Document.asList? Document.asText?)
    targetTable := ← fields.required "target_table" Document.asText? }

/-- The document of a foreign key. -/
def toDocument (k : ForeignKey) : Document :=
  ofFields [("columns", ofList ofString k.columns), ("target_table", ofString k.targetTable)]

end ForeignKey

namespace Table

/-- The table of a document. -/
def ofDocument? (d : Document) : Option Table := do
  let fields ← d.asRecord? ["name", "columns", "foreign_keys"]
  return {
    name := ← fields.required "name" Document.asText?
    columns := ← fields.required "columns" (Document.asList? Column.ofDocument?)
    foreignKeys := ← fields.optional "foreign_keys" [] (Document.asList? ForeignKey.ofDocument?) }

/-- The document of a table. -/
def toDocument (t : Table) : Document :=
  ofFields [("name", ofString t.name), ("columns", ofList Column.toDocument t.columns),
    ("foreign_keys", ofList ForeignKey.toDocument t.foreignKeys)]

end Table

namespace Schema

/-- The schema of a document. -/
def ofDocument? (d : Document) : Option Schema := do
  let fields ← d.asRecord? ["tables"]
  return ⟨← fields.required "tables" (Document.asList? Table.ofDocument?)⟩

/-- The document of a schema. -/
def toDocument (s : Schema) : Document := ofFields [("tables", ofList Table.toDocument s.tables)]

end Schema

/-! ## Snapshots -/

/-- The document of a map from column names to values. -/
def valuesDocument (values : SortedMap String Value) : Document :=
  ofFields (values.entries.map fun e => (e.1, e.2.toDocument))

namespace Row

/-- The row of a document. -/
def ofDocument? (d : Document) : Option Row := do
  let fields ← d.asRecord? ["values"]
  return ⟨← fields.required "values" (Document.asMap? Value.ofDocument?)⟩

/-- The document of a row. -/
def toDocument (r : Row) : Document := ofFields [("values", valuesDocument r.values)]

end Row

namespace Snapshot

/-- The snapshot of a document. -/
def ofDocument? (d : Document) : Option Snapshot := do
  let fields ← d.asRecord? ["tables"]
  return ⟨← fields.required "tables" (Document.asMap? (Document.asList? Row.ofDocument?))⟩

/-- The document of a snapshot. -/
def toDocument (s : Snapshot) : Document :=
  ofFields [("tables",
    ofFields (s.tables.entries.map fun e => (e.1, ofList Row.toDocument e.2)))]

end Snapshot

/-! ## Row actions -/

namespace RowActionKind

/-- The kind of a document. -/
def ofDocument? : Document → Option RowActionKind
  | .object [(some "Select", d)] => (Row.ofDocument? d).map .select
  | d => d.asName? [("Insert", .insert)]

/-- The document of a kind. -/
def toDocument : RowActionKind → Document
  | insert => ofString "Insert"
  | select row => ofFields [("Select", row.toDocument)]

end RowActionKind

namespace Reference

/-- The reference of a document. -/
def ofDocument? (d : Document) : Option Reference := do
  let fields ← d.asRecord? ["columns", "target_table", "target"]
  return {
    columns := ← fields.required "columns" (Document.asList? Document.asText?)
    targetTable := ← fields.required "target_table" Document.asText?
    target := ← fields.optional "target" none (Document.asOption? Document.asWord?) }

/-- The document of a reference. -/
def toDocument (r : Reference) : Document :=
  ofFields [("columns", ofList ofString r.columns), ("target_table", ofString r.targetTable),
    ("target", ofOption ofNat r.target)]

end Reference

namespace RowAction

/-- The row action of a document. -/
def ofDocument? (d : Document) : Option RowAction := do
  let fields ← d.asRecord? ["id", "table", "kind", "values", "references"]
  return {
    id := ← fields.required "id" Document.asWord?
    table := ← fields.required "table" Document.asText?
    kind := ← fields.required "kind" RowActionKind.ofDocument?
    values := ← fields.required "values" (Document.asMap? Value.ofDocument?)
    references := ← fields.required "references" (Document.asList? Reference.ofDocument?) }

/-- The document of a row action. -/
def toDocument (a : RowAction) : Document :=
  ofFields [("id", ofNat a.id), ("table", ofString a.table), ("kind", a.kind.toDocument),
    ("values", valuesDocument a.values), ("references", ofList Reference.toDocument a.references)]

end RowAction

/-! ## Databases -/

namespace Database

/-- The database of a document; without a snapshot no row is known. -/
def ofDocument? (d : Document) : Option Database := do
  let fields ← d.asRecord? ["schema", "snapshot"]
  return {
    schema := ← fields.required "schema" Schema.ofDocument?
    snapshot := ← fields.optional "snapshot" .empty Snapshot.ofDocument? }

/-- The database that a text spells. -/
def ofText (s : String) : Except Error Database :=
  match (read? s).bind ofDocument? with
  | some database => .ok database
  | none => .error (.malformedDocument "database document")

end Database

end RestScenario
