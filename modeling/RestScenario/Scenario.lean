import RestScenario.Call
import RestScenario.Error

/-!
# Scenarios

A scenario is a list of calls that are made in order, after row actions that set the database up.
The row actions of a call run just before it, so its references may point to the rows of the setup
and of all earlier calls. Edits move rows around; `Scenario.repair` puts path values and references
in order again, call by call.

Positions of calls count from 0; a position where no call is or may come is refused.
-/

namespace RestScenario

/-- How a scenario was made. -/
inductive Origin where
  | random
  /-- Made by an outside sampler; no edit applies to it. -/
  | smart
  | smartCollection
  /-- Made before any dependency was known. -/
  | smartWithoutDependencies
  /-- Made from known dependencies. -/
  | smartWithDependencies
deriving DecidableEq

namespace Origin

/-- All origins. -/
def all : List Origin :=
  [random, smart, smartCollection, smartWithoutDependencies, smartWithDependencies]

/-- The name of an origin. -/
def name : Origin → String
  | random => "Random"
  | smart => "Smart"
  | smartCollection => "SmartGetCollection"
  | smartWithoutDependencies => "SmartResourceWithoutDep"
  | smartWithDependencies => "SmartResource"

/-- Whether scenarios of the origin may be edited. -/
def isEditable (o : Origin) : Bool := o ≠ smart

end Origin

/-- Calls to be made in order. -/
structure Scenario where
  calls : List Call
  origin : Origin
  /-- Run once before the first call. -/
  setup : List RowAction
deriving DecidableEq

namespace Scenario

/-- A scenario without setup. -/
def ofCalls (calls : List Call) (origin : Origin) : Scenario := ⟨calls, origin, []⟩

/-- The number of calls. -/
def length (s : Scenario) : Nat := s.calls.length

/-- The number of actions in all calls. -/
def size (s : Scenario) : Nat := (s.calls.flatMap (·.actions)).length

/-- The keys of the resources on which calls are made. -/
def resourceKeys (s : Scenario) : SortedSet String := .ofList (s.calls.map Call.resource)

/-- Whether no call needs a creation. -/
def allIndependent (s : Scenario) : Bool := s.calls.all Call.isIndependent

/-- The names of all actions in order. -/
def actionNames (s : Scenario) : List String := s.calls.flatMap Call.actionNames

/-- The positions of the calls that may be removed. -/
def deletablePositions (s : Scenario) : List Nat :=
  (s.calls.zipIdx.filter fun e => e.1.deletable).map (·.2)

/-! ## Calls by position -/

/-- The call at a position. -/
def call (s : Scenario) (position : Nat) : Except Error Call :=
  match s.calls[position]? with
  | some c => .ok c
  | none => .error (.positionOutOfRange position s.length)

/-- The scenario with one call more, before the one at a position or at the end. -/
def addCall (s : Scenario) (position : Nat) (c : Call) : Except Error Scenario :=
  if s.length < position then .error (.positionOutOfRange position s.length)
  else .ok { s with calls := s.calls.insertIdx position c }

/-- The scenario without the call at a position. -/
def removeCall (s : Scenario) (position : Nat) : Except Error Scenario := do
  let _ ← s.call position
  return { s with calls := s.calls.eraseIdx position }

/-- The scenario with another call at a position. -/
def replaceCall (s : Scenario) (position : Nat) (c : Call) : Except Error Scenario := do
  let _ ← s.call position
  return { s with calls := s.calls.set position c }

/-- The scenario with two calls exchanged. -/
def swapCalls (s : Scenario) (a b : Nat) : Except Error Scenario := do
  let x ← s.call a
  let y ← s.call b
  return { s with calls := (s.calls.set a y).set b x }

/-! ## Rows -/

/-- The row actions that run before the call at a position; those of the call itself come later. -/
def rowsBefore (s : Scenario) (position : Nat) : List RowAction :=
  s.setup ++ (s.calls.take position).flatMap (·.rows)

/-- All row actions in the order in which they run. -/
def rows (s : Scenario) : List RowAction := s.rowsBefore s.length

/-- Whether the references of calls are in order after the row actions that went before. -/
def callsInOrder (preceding : List RowAction) : List Call → Bool
  | [] => true
  | c :: rest =>
    RestScenario.referencesInOrder preceding c.rows && callsInOrder (preceding ++ c.rows) rest

/-- Whether all references are in order, in the setup and then call by call. -/
def referencesInOrder (s : Scenario) : Bool :=
  RestScenario.referencesInOrder [] s.setup && callsInOrder s.setup s.calls

/-- Repairs the references of calls after the row actions that went before. -/
def repairCalls (preceding : List RowAction) : List Call → List Call
  | [] => []
  | c :: rest =>
    let rows := RestScenario.repairReferences preceding c.rows
    { c with rows } :: repairCalls (preceding ++ rows) rest

/-- Repairs all references, in the setup and then call by call. -/
def repairReferences (s : Scenario) : Scenario :=
  let setup := RestScenario.repairReferences [] s.setup
  { s with setup, calls := repairCalls setup s.calls }

/-- Gives the actions of every call the path values of its target, then repairs all references. -/
def repair (s : Scenario) : Scenario :=
  { s with calls := s.calls.map Call.realign }.repairReferences

end Scenario

end RestScenario
