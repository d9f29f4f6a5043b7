import RestScenario.Database.RowAction
import RestScenario.Resource.Template
import RestScenario.Action

/-!
# Calls

A call realizes a template on one instance of a resource: actions in order, and the row actions that
seed it. Its target is the first action with the longest path. The path values of the target decide
which instance the call addresses, and `Call.realign` gives them to all its actions.
-/

namespace RestScenario

/-- How the creation that a call needs was resolved. -/
inductive CallStatus where
  /-- Creation was not asked for. -/
  | notExisting
  | created
  /-- No creating action was found. -/
  | notFound
  /-- Too few actions were allowed for the creation. -/
  | notEnoughLength
  /-- A creation that another one needs was not found. -/
  | notFoundDependent
  /-- The call works on rows that exist or are seeded. -/
  | existing
deriving DecidableEq

namespace CallStatus

/-- All statuses. -/
def all : List CallStatus :=
  [notExisting, created, notFound, notEnoughLength, notFoundDependent, existing]

/-- The name of a status. -/
def name : CallStatus → String
  | notExisting => "NotExisting"
  | created => "Created"
  | notFound => "NotFound"
  | notEnoughLength => "NotEnoughLength"
  | notFoundDependent => "NotFoundDependent"
  | existing => "Existing"

end CallStatus

/-- The instance of a resource that a call works on. -/
structure Subject where
  resource : String
  path : PathTemplate
  /-- Path parameters with their values. -/
  params : List Param
deriving DecidableEq

namespace Subject

/-- The instance that an action addresses. -/
def ofAction (resource : String) (a : Action) : Subject :=
  ⟨resource, a.path, a.params.filter Param.isPath⟩

/-- The resolved path, such as `/users/12`; equal keys denote the same instance. -/
def key (s : Subject) : String := s.path.resolveWith s.params

end Subject

/-- A template realized on an instance of a resource. -/
structure Call where
  template : Template
  subject : Subject
  actions : List Action
  rows : List RowAction
  status : CallStatus
  deletable : Bool
  /-- Seeding was wanted and not possible. -/
  unlinked : Bool
deriving DecidableEq

namespace Call

/-- A call that is not seeded. -/
def unseeded (template : Template) (subject : Subject) (actions : List Action)
    (status : CallStatus) : Call :=
  ⟨template, subject, actions, [], status, true, false⟩

/-- The key of the resource. -/
def resource (c : Call) : String := c.subject.resource

/-- The key of the instance. -/
def instanceKey (c : Call) : String := c.subject.key

/-- The number of actions. -/
def length (c : Call) : Nat := c.actions.length

/-- Whether the template needs no creation. -/
def isIndependent (c : Call) : Bool := c.template.independent

/-- The verbs of the actions. -/
def verbs (c : Call) : List Verb := c.actions.map (·.verb)

/-- The names of the actions. -/
def actionNames (c : Call) : List String := c.actions.map Action.name

/-- The tables of the row actions in comparison form. -/
def tables (c : Call) : SortedSet String := .ofList (c.rows.map RowAction.tableKey)

/-- The position of the target: the first action with the longest path. -/
def targetIndex? (c : Call) : Option Nat :=
  let longest := (c.actions.map fun a => a.path.levels).foldl max 0
  c.actions.findIdx? fun a => a.path.levels = longest

/-- Gives all actions the path values of the target, and names in one action one value; the call
then addresses the instance of the target. -/
def realign (c : Call) : Call :=
  match c.targetIndex? with
  | none => c
  | some i =>
    match c.actions[i]? with
    | none => c
    | some target =>
      { c with
        actions := c.actions.mapIdx fun j a =>
          (if j = i then a else a.followPath target).shareValues
        subject := .ofAction c.resource target }

/-- Takes over values from actions on the same paths or their ancestors, one after another. -/
def followAll (front : List Action) (a : Action) : Action :=
  front.foldl (fun a other =>
    if other.path.isSameOrAncestorOf a.path then a.follow other else a) a

/-- Takes over values from the actions that come before the call. -/
def bindWith (c : Call) (front : List Action) : Call :=
  { c with actions := c.actions.map (followAll front) }.realign

end Call

end RestScenario
