import RestScenario.Param
import RestScenario.Verb

/-!
# Actions

An action is one call of the API: a verb on a path template with parameters. It stands for an entry
of the catalogue, or for a concrete request inside a call.

Parameters of one action that share a name share a value, and a body field named like a plain
parameter follows that parameter (`Action.shareValues`). An action takes over values from another
where the two templates agree (`Action.followPath`) or wherever names agree (`Action.follow`).
-/

namespace RestScenario

/-- Credentials attached to the actions of a scenario. -/
structure Auth where
  name : String
  headers : List (String × String)
deriving DecidableEq

/-- One call of the API. -/
structure Action where
  verb : Verb
  path : PathTemplate
  params : List Param
  /-- Later actions may refer to the location in the response. -/
  savesLocation : Bool
  /-- The location saved by an earlier action that this one refers to. -/
  locationId : Option String
  auth : Option Auth
deriving DecidableEq

namespace Action

/-- The identity of an action, such as `POST:/users`. -/
def name (a : Action) : String := a.verb.name ++ ":" ++ a.path.key

/-- The path with the values of the path parameters. -/
def resolvedPath (a : Action) : String := a.path.resolveWith a.params

/-- The first body. -/
def body? (a : Action) : Option Param := a.params.find? Param.isBody

/-- The schema type of the first body. -/
def bodyRefType? (a : Action) : Option String := a.body?.bind Param.refType?

/-! ## Shared names -/

/-- The first parameter of a name that is no body. -/
def firstPlain? (params : List Param) (name : String) : Option Param :=
  params.find? fun p => !p.isBody && p.name = name

/-- Gives every plain parameter the value of the first one of its name. -/
def sharePlain (params : List Param) : List Param :=
  params.map fun p =>
    if p.isBody then p
    else
      match firstPlain? params p.name with
      | some first => { p with value := first.value }
      | none => p

/-- Gives body fields the values of the plain parameters of their names. -/
def shareWithBodies (params : List Param) : List Param :=
  let plain := params.filter fun p => !p.isBody
  params.map fun p => p.mapFields fun fields =>
    plain.foldl (fun fields q => setField q.name q.value fields) fields

/-- Gives the parameters and body fields that share a name one value: that of the first parameter
of the name that is no body. -/
def shareValues (a : Action) : Action := { a with params := shareWithBodies (sharePlain a.params) }

/-- A random value in every parameter, drawn in order. -/
def drawParams : List Param → Random.Draw (List Param)
  | [] => return []
  | p :: rest => do
    let p ← p.randomize
    let rest ← drawParams rest
    return p :: rest

/-- Random values, shared among equal names. -/
def randomize (a : Action) : Random.Draw Action := do
  let params ← drawParams a.params
  return { a with params := params }.shareValues

/-! ## Values from another action -/

/-- The pairs of variable names along the elements on which two templates agree from the start. -/
def sharedVariables (p q : PathTemplate) : List (String × String) :=
  ((p.elements.zip q.elements).takeWhile fun (a, b) => a.agrees b).filterMap fun
    | (.var x, .var y) => some (x, y)
    | _ => none

/-- Gives the first path parameter of a name a value. -/
def setPathValue (name : String) (v : Value) : List Param → List Param
  | [] => []
  | p :: rest =>
    if p.isPath && p.name = name then { p with value := v } :: rest
    else p :: setPathValue name v rest

/-- Takes over the path values of another action along the elements that both resolve alike. -/
def followPath (a other : Action) : Action :=
  { a with
    params := (sharedVariables a.path other.path).foldl (fun params (mine, theirs) =>
      match pathValue? other.params theirs with
      | some v => setPathValue mine v params
      | none => params) a.params }

/-- The value that an action has under a name outside its path: a query or header value, else that
of a body field. -/
def valueNamed? (a : Action) (name : String) : Option Value :=
  match a.params.find? fun p => !p.isBody && !p.isPath && p.name = name with
  | some p => some p.value
  | none => (a.params.findSome? (·.field? name)).map (·.value)

/-- Takes over a value outside the path from another action, where that has one of the name. -/
def followParam (other : Action) (p : Param) : Param :=
  match p.place with
  | .path => p
  | .query | .header =>
    match other.valueNamed? p.name with
    | some v => { p with value := v }
    | none => p
  | .body refType fields =>
    { p with
      place := .body refType (fields.map fun f =>
        match other.valueNamed? f.name with
        | some v => { f with value := v }
        | none => f) }

/-- Takes over all values that match another action: in the path by position, elsewhere by name. -/
def follow (a other : Action) : Action :=
  let a := a.followPath other
  { a with params := a.params.map (followParam other) }

/-! ## Parameter keys -/

/-- The segment that a parameter belongs to. -/
def segmentOf? (a : Action) (p : Param) : Option String :=
  if p.isPath then a.path.segmentOf? p.name else a.path.lastLiteral?

/-- The key under which a resource files a parameter, such as `PathParam:users_id`. -/
def paramKey (a : Action) (p : Param) : String :=
  match a.segmentOf? p with
  | some segment => p.place.tag ++ ":" ++ segment ++ "_" ++ p.name
  | none => p.place.tag ++ ":" ++ p.name

end Action

end RestScenario
