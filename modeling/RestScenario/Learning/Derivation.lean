import RestScenario.Learning.Knowledge
import RestScenario.Resource.Basic

/-!
# What names tell

Before anything is executed, names tell which tables a resource works on: its path elements, or the
words of those that match no table, and the schema types of its bodies. Parameters are mapped to the
columns with similar names. Resources that derive the same table are mutually related, and a body
whose schema type is named like another resource depends on that resource.
-/

namespace RestScenario

namespace TableKnowledge

/-- The tables of a schema in comparison form. -/
def tableNames (schema : Schema) : List String := schema.tables.map fun t => tableKey t.name

/-! ## Tables -/

/-- Derives the tables that match an input best, at a level. -/
def deriveBest (names : List String) (threshold : Float) (k : TableKnowledge) (input : String)
    (level : Nat) : TableKnowledge :=
  let (similarity, found) := Similarity.bestMatches input names threshold
  found.foldl (fun k table => k.derive table ⟨input, table, similarity, level⟩) k

/-- Whether an input matches a table. -/
def matchesTable (names : List String) (threshold : Float) (input : String) : Bool :=
  !(Similarity.bestMatches input names threshold).2.isEmpty

/-- Derives tables from a path element, or from its words where it matches none. -/
def deriveSegment (names : List String) (threshold : Float) (tokenParser : Bool)
    (k : TableKnowledge) (element : String × Nat) : TableKnowledge :=
  if matchesTable names threshold element.1 then
    k.deriveBest names threshold element.1 (element.2 + 1)
  else if tokenParser then
    (Similarity.tokenize element.1).foldl
      (fun k word => k.deriveBest names threshold word (element.2 + 1)) k
  else k

/-- The schema types of the bodies of a resource. -/
def refTypes (r : Resource) : List String := r.actions.filterMap Action.bodyRefType?

/-- The tables that the names of a resource tell of. -/
def ofNames (schema : Schema) (threshold : Float) (tokenParser : Bool) (r : Resource) :
    TableKnowledge :=
  let names := tableNames schema
  let fromPath := r.path.literals.zipIdx.foldl (deriveSegment names threshold tokenParser) empty
  (refTypes r).foldl (fun k refType => k.deriveBest names threshold refType 0) fromPath

/-! ## Columns -/

/-- The columns whose names are similar to a name, alone or after the name of their table. -/
def matchColumns (name : String) (threshold : Float) (tables : List Table) : List ColumnMatch :=
  tables.flatMap fun t =>
    let table := tableKey t.name
    t.columns.filterMap fun c =>
      let similarity := Number.larger (Similarity.score name c.name)
        (Similarity.score name (table ++ c.name))
      if threshold ≤ similarity then some ⟨table, c.name, similarity⟩ else none

/-- The columns for a parameter among those of the given tables. -/
def mapParam? (p : Param) (threshold : Float) (tables : List Table) : Option ParamColumns :=
  if p.isBody then
    let found := (p.fields.map fun f => (f.name, matchColumns f.name threshold tables)).filter
      fun e => !e.2.isEmpty
    if found.isEmpty then none else some (.body (.ofList found))
  else
    let found := matchColumns p.name threshold tables
    if found.isEmpty then none else some (.simple found)

/-- The tables derived from an input. -/
def derivedFrom (k : TableKnowledge) (schema : Schema) (input : Option String) : List Table :=
  match input with
  | none => []
  | some s =>
    (k.derived.entries.filter fun e => e.2.any fun m => m.input = s).filterMap fun e =>
      schema.table? e.1

/-- The tables on which the columns of a parameter are sought first: those derived from its schema
type, or else from its segment. -/
def candidates (k : TableKnowledge) (schema : Schema) (r : ParamRecord) : List Table :=
  match k.derivedFrom schema r.source.refType? with
  | [] => k.derivedFrom schema r.segment
  | tables => tables

/-- The tables on which columns are sought next: all derived ones, or else the whole schema. -/
def fallback (k : TableKnowledge) (schema : Schema) : List Table :=
  match k.derived.keys.filterMap schema.table? with
  | [] => schema.tables
  | tables => tables

/-- The columns of a parameter that is bound from rows. -/
def columnsFor? (k : TableKnowledge) (schema : Schema) (threshold : Float) (r : ParamRecord) :
    Option ParamColumns :=
  if r.isBoundFromRows false then
    (mapParam? r.source threshold (k.candidates schema r)).or
      (mapParam? r.source threshold (k.fallback schema))
  else none

/-- What the names of a resource tell of tables and columns. -/
def ofResource (schema : Schema) (threshold : Float) (tokenParser : Bool) (r : Resource) :
    TableKnowledge :=
  let k := ofNames schema threshold tokenParser r
  let found := r.params.entries.filterMap fun e =>
    (k.columnsFor? schema threshold e.2).map fun columns => (e.1, columns)
  { k with params := .ofList found }

end TableKnowledge

namespace Knowledge

/-! ## Relations -/

/-- The resources that derive each table. -/
def derivingResources (tables : SortedMap String TableKnowledge) :
    SortedMap String (SortedSet String) :=
  (tables.entries.flatMap fun e => e.2.derived.keys.map (·, e.1)).foldl
    (fun m e => m.upsert e.1 fun keys => (keys.getD ∅).insert e.2) ∅

/-- Relates the resources that derive the same table. -/
def relateByTable (k : Knowledge) : Knowledge :=
  ((derivingResources k.tables).entries.filter fun e => 1 < e.2.size).foldl
    (fun k e => k.updateShared e.2 e.1 k.threshold false ("table:" ++ e.1)) k

/-- Whether neither of two resources is the other or an ancestor of it. -/
def areApart (a b : Resource) : Bool :=
  b.key ≠ a.key && !b.path.isAncestorOf a.path && !a.path.isAncestorOf b.path

/-- Relates a resource to another one that a schema type of its bodies names. -/
def relateByType (k : Knowledge) (r : Resource) (refType : String) (other : Resource) : Knowledge :=
  if areApart r other then
    match other.path.lastLiteral? with
    | none => k
    | some token =>
      let similarity := Similarity.score refType token
      if k.threshold ≤ similarity then
        k.updateDependency r.key (.singleton other.key) ("ref:" ++ refType) similarity
      else k
  else k

/-- Relates every resource to those that the schema types of its bodies name. -/
def relateByTypes (k : Knowledge) (resources : List Resource) : Knowledge :=
  resources.foldl (fun k r =>
    (TableKnowledge.refTypes r).foldl (fun k refType =>
      resources.foldl (fun k other => k.relateByType r refType other) k) k) k

/-- Takes up a resource model with a database. What was learned before of tables is replaced, what
was learned of relations stays. -/
def init (k : Knowledge) (m : ResourceModel) (schema : Schema) (snapshot : Snapshot) : Knowledge :=
  let k := { k with
    schema
    snapshot
    tables := m.resources.map fun _ r =>
      TableKnowledge.ofResource schema k.threshold k.tokenParser r }
  { k.relateByTable.relateByTypes m.resources.values with initialized := true }

end Knowledge

end RestScenario
