import RestScenario.Engine.Basic
import RestScenario.Learning.Columns

/-!
# Seeding calls with rows

A call is seeded on the tables related to its resource: with a row that exists, where the table has
enough of them and a chance comes true, else with a fresh one and the rows that it refers to. Of
several row actions on one table the first is kept. The parameters of the call then take the values
of its rows (`seedCall`).

In a scenario a call follows others. It takes over their path values, and where they provide a table
it needs no fresh row of its own there (`Call.bindAfter`).
-/

namespace RestScenario

/-! ## One row action per table -/

/-- The first row action on each table, passing over the tables already seen. -/
def firstPerTable (seen : List String) : List RowAction → List RowAction
  | [] => []
  | a :: rest =>
    if a.tableKey ∈ seen then firstPerTable seen rest
    else a :: firstPerTable (a.tableKey :: seen) rest

/-- Keeps the first row action on each table. Where others are dropped, references to them turn to
the one that is kept. -/
def onePerTable (rows : List RowAction) : List RowAction :=
  let kept := firstPerTable [] rows
  if kept.length = rows.length then kept else repairReferences [] kept

/-! ## Calls after other calls -/

/-- The given row actions and those of the calls, one for each number. -/
def rowsInFront (frontRows : List RowAction) (front : List Call) : List RowAction :=
  (front.flatMap (·.rows)).foldl
    (fun known a => if known.any (·.id = a.id) then known else known ++ [a]) frontRows

/-- Whether a row action is needed after others: selections are, and insertions into tables that the
others do not provide. -/
def isNeededAfter (preceding : List RowAction) (a : RowAction) : Bool :=
  a.isSelection || !preceding.any fun p => p.tableKey = a.tableKey

namespace Call

/-- Drops the row actions that are not needed after others; references to them turn to what
precedes. -/
def dropProvided (preceding : List RowAction) (c : Call) : Call :=
  let kept := c.rows.filter (isNeededAfter preceding)
  if kept.length = c.rows.length then c else { c with rows := repairReferences preceding kept }

/-- Makes a call follow others: it takes over their path values and drops its insertions into tables
that they, or the rows in front of them, provide. -/
def bindAfter (front : List Call) (frontRows : List RowAction) (c : Call) : Call :=
  let actions := front.flatMap (·.actions)
  (if actions.isEmpty then c else c.bindWith actions).dropProvided (rowsInFront frontRows front)

/-- Makes a call follow the calls of a scenario before a position. -/
def bindAt (s : Scenario) (position : Nat) (c : Call) : Call :=
  c.bindAfter (s.calls.take position) (s.rowsBefore position)

end Call

/-! ## Seeding -/

namespace Composing

/-- An existing row of a table, if the table has enough rows and the chance comes true. A forced
insertion never selects. -/
def chooseRow (table : String) (forced : Bool) : Composing (Option Row) := do
  let e ← getThe Engine
  let rows := e.knowledge.snapshot.rows table
  if forced || rows.length < e.settings.minRowsOfTable then return none
  else if ← draw (Random.chance e.settings.selectFromDb) then draw (Random.choose rows)
  else return none

/-- The row actions that seed one table; none if the table, or one that it refers to, is not in the
schema. -/
def seedTable (table : String) (forced : Bool) : Composing (List RowAction) := do
  match ← chooseRow table forced with
  | some row =>
    let a ← build (Building.selectExisting table row)
    return a.toOption.toList
  | none =>
    let schema := (← getThe Engine).knowledge.schema
    let rows ← build (Building.insertWithReferences schema table)
    return rows.toOption.getD []

/-- The row actions that seed several tables, one after another. -/
def seedTables (forced : Bool) : List String → Composing (List RowAction)
  | [] => return []
  | table :: rest => do
    let rows ← seedTable table forced
    let more ← seedTables forced rest
    return rows ++ more

end Composing

/-- A call seeded with rows: it works on existing data unless it creates its own, and its parameters
take the values of the rows. A call that should have rows and gets none is marked so. -/
def Engine.attachRows (e : Engine) (c : Call) (wanted : Bool) (rows : List RowAction) : Call :=
  if rows.isEmpty then (if wanted then { c with unlinked := true } else c)
  else
    let status := if c.status = .created then .created else .existing
    let c := { c with rows, status, unlinked := false }
    match e.model.get? c.resource with
    | some r => (e.knowledge.bindCall r c).1
    | none => c

/-- Seeds a call on the tables related to its resource. Calls stay as they are without a database,
and so do creating calls without related tables unless insertion is forced. -/
def Composing.seedCall (c : Call) (forced : Bool) : Composing Call := do
  let e ← getThe Engine
  let tables := e.knowledge.relatedTables c.resource
  if !e.settings.involveDb || e.knowledge.schema.tables.isEmpty then return c
  else if c.status = .created && tables.isEmpty && !forced then return c
  else
    let rows ← seedTables forced tables.toList
    return e.attachRows c (!tables.isEmpty || forced) (onePerTable rows)

end RestScenario
