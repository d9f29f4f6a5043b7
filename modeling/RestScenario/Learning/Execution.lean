import RestScenario.Database.Snapshot

/-!
# What an action did to the database

The tables that one action was seen to insert into, update, delete from or query.
-/

namespace RestScenario

/-- A way of touching a table. -/
inductive Access where
  | insert
  | update
  | delete
  | select
deriving DecidableEq

namespace Access

/-- The place in the order of accesses. -/
def index : Access → Nat
  | insert => 0
  | update => 1
  | delete => 2
  | select => 3

/-- The name of an access. -/
def name : Access → String
  | insert => "Insert"
  | update => "Update"
  | delete => "Delete"
  | select => "Select"

/-- Whether the access puts values into the table. -/
def isWrite : Access → Bool
  | insert | update => true
  | delete | select => false

instance : Ord Access := ⟨fun a b => compare a.index b.index⟩

theorem index_injective {a b : Access} (h : a.index = b.index) : a = b := by
  cases a <;> cases b <;> simp_all [index]

instance : Std.TransOrd Access where
  eq_swap {a b} := Std.OrientedOrd.eq_swap (a := a.index) (b := b.index)
  isLE_trans {a b c} h := Std.TransOrd.isLE_trans (a := a.index) (b := b.index) (c := c.index) h

instance : Std.LawfulEqOrd Access where
  eq_of_compare h := index_injective (Nat.compare_eq_eq.1 h)

end Access

/-- The tables that an action touched, in comparison form. -/
structure Execution where
  inserted : SortedSet String
  /-- The updated columns per table. -/
  updated : SortedMap String (SortedSet String)
  deleted : SortedSet String
  queried : SortedSet String
deriving DecidableEq

namespace Execution

/-- No table touched. -/
def empty : Execution := ⟨∅, ∅, ∅, ∅⟩

/-- With an insertion into a table. -/
def withInsert (e : Execution) (table : String) : Execution :=
  { e with inserted := e.inserted.insert (tableKey table) }

/-- With an update of columns of a table. -/
def withUpdate (e : Execution) (table : String) (columns : List String) : Execution :=
  { e with updated := e.updated.upsert (tableKey table) fun old => (old.getD ∅).insertMany columns }

/-- With a deletion from a table. -/
def withDelete (e : Execution) (table : String) : Execution :=
  { e with deleted := e.deleted.insert (tableKey table) }

/-- With a query of a table. -/
def withQuery (e : Execution) (table : String) : Execution :=
  { e with queried := e.queried.insert (tableKey table) }

/-- What the snapshots before and after an action tell of it. -/
def ofDifference (d : Snapshot.Difference) : Execution :=
  { empty with
    inserted := .ofList (d.inserted.toList.map tableKey)
    deleted := .ofList (d.deleted.toList.map tableKey) }

/-- Whether no table was touched. -/
def isEmpty (e : Execution) : Bool :=
  e.inserted.isEmpty && e.updated.isEmpty && e.deleted.isEmpty && e.queried.isEmpty

/-- All touched tables, each with its accesses. -/
def accesses (e : Execution) : SortedMap String (SortedSet Access) :=
  let touches := e.inserted.toList.map (·, Access.insert) ++ e.updated.keys.map (·, Access.update)
    ++ e.deleted.toList.map (·, Access.delete) ++ e.queried.toList.map (·, Access.select)
  touches.foldl (fun m t => m.upsert t.1 fun old => (old.getD ∅).insert t.2) ∅

end Execution

end RestScenario
