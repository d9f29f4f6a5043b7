import RestScenario.Learning.Edit
import RestScenario.Path
import RestScenario.Verb

/-!
# Errors

Every cause for which an operation refuses, and the wording of each.
-/

namespace RestScenario

/-- Why settings are refused. -/
inductive SettingsFault where
  | noTestSize
  /-- A probability or threshold outside the unit interval. -/
  | outsideUnit (name : String) (value : Float)
  | unreadable (file reason : String)
deriving DecidableEq

/-- The wording of a refusal of settings. -/
def SettingsFault.message : SettingsFault → String
  | noTestSize => "max_test_size must be positive"
  | outsideUnit name value => name ++ " must be within [0,1], got " ++ Number.plain value
  | unreadable file reason => "cannot read " ++ file ++ ": " ++ reason

/-- Why an operation refuses. -/
inductive Error where
  | invalidPath (path : String) (fault : PathFault)
  | unknownVerb (text : String)
  | duplicateAction (name : String)
  | unknownTable (name : String)
  | unknownResource (key : String)
  | unknownTemplate (resource template : String)
  | noActionForVerb (resource : String) (verb : Verb)
  /-- The numbers of calls differ by more than one edit can explain. -/
  | undefinedMutation (previous current : Nat)
  /-- An edit of one or two calls changed another number of positions. -/
  | ambiguousEdit (kind : Edit) (positions : Nat)
  | invalidSettings (fault : SettingsFault)
  | positionOutOfRange (position length : Nat)
  | notInitialized
  /-- A text that is no catalogue document. -/
  | malformedCatalogue
  /-- A text that is no document of the kind asked for. -/
  | malformedDocument (kind : String)
deriving DecidableEq

/-- The wording of an error. -/
def Error.message : Error → String
  | invalidPath path fault => "Invalid path template " ++ path ++ ": " ++ fault.message
  | unknownVerb text => "Unknown HTTP verb: " ++ text
  | duplicateAction name => "Duplicate action: " ++ name
  | unknownTable name => "Unknown table: " ++ name
  | unknownResource key => "Unknown resource: " ++ key
  | unknownTemplate resource template =>
    "Unknown template " ++ template ++ " for resource " ++ resource
  | noActionForVerb resource verb => "Resource " ++ resource ++ " has no " ++ verb.name ++ " action"
  | undefinedMutation previous current =>
    "Undefined structure mutation: size changed from " ++ toString previous ++ " to "
      ++ toString current ++ " calls"
  | ambiguousEdit kind positions => kind.word ++ " changed " ++ toString positions ++ " positions"
  | invalidSettings fault => "Invalid configuration: " ++ fault.message
  | positionOutOfRange position length =>
    "Position " ++ toString position ++ " out of range for " ++ toString length ++ " calls"
  | notInitialized => "Resource manager used before init_resources"
  | malformedCatalogue => "Malformed catalogue JSON: not a list of actions"
  | malformedDocument kind => "JSON error: not a " ++ kind

end RestScenario
