import RestScenario.Action
import RestScenario.Error
import RestScenario.Ordered.Map

/-!
# Catalogues

A catalogue lists every action that an API offers. It is accepted when no two actions share verb
and path.
-/

namespace RestScenario

/-- The actions that an API offers. -/
structure Catalogue where
  actions : List Action
deriving DecidableEq

namespace Catalogue

/-- The first name that occurs a second time. -/
def firstRepeated? (seen : List String) : List String → Option String
  | [] => none
  | n :: rest => if n ∈ seen then some n else firstRepeated? (n :: seen) rest

/-- Refuses two actions of one name. -/
def validate (c : Catalogue) : Except Error Unit :=
  match firstRepeated? [] (c.actions.map Action.name) with
  | some n => .error (.duplicateAction n)
  | none => .ok ()

/-- The catalogue of a list of actions, if it is accepted. -/
def ofActions (actions : List Action) : Except Error Catalogue := do
  let c : Catalogue := ⟨actions⟩
  c.validate
  return c

/-- The actions of each path template, in the order of the catalogue. -/
def groupByPath (c : Catalogue) : SortedMap String (List Action) :=
  c.actions.foldl (fun groups a => groups.upsert a.path.key fun g => g.getD [] ++ [a]) ∅

end Catalogue

end RestScenario
