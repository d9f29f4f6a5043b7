/-!
# Structural edits

The five edits that change which calls a scenario holds.
-/

namespace RestScenario

/-- A kind of structural edit. -/
inductive Edit where
  | add
  | delete
  | swap
  | replace
  | modify
deriving DecidableEq, Inhabited

namespace Edit

/-- The kinds in the order in which they are considered. -/
def all : List Edit := [delete, swap, add, replace, modify]

/-- The calls that a scenario must have for the edit. -/
def minCalls : Edit → Nat
  | delete | swap => 2
  | add | replace | modify => 1

/-- The name of the edit, which is also the tag of the evidence it gives. -/
def name : Edit → String
  | add => "ADD"
  | delete => "DELETE"
  | swap => "SWAP"
  | replace => "REPLACE"
  | modify => "MODIFY"

/-- The name of the edit inside a sentence. -/
def word : Edit → String
  | add => "Add"
  | delete => "Delete"
  | swap => "Swap"
  | replace => "Replace"
  | modify => "Modify"

end Edit

end RestScenario
