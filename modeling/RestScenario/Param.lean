import RestScenario.Path

/-!
# Parameters

A parameter is carried in the path, the query, a header or the body of a call. A body is a list of
named fields, perhaps with the name of its schema type; every other parameter has one value.
-/

namespace RestScenario

/-! ## Body fields -/

/-- A named field of a body. -/
structure Field where
  name : String
  type : ValueType
  value : Value
deriving DecidableEq

/-- Gives the first field of a name a value. -/
def setField (name : String) (v : Value) : List Field → List Field
  | [] => []
  | f :: rest => if f.name = name then { f with value := v } :: rest else f :: setField name v rest

/-- A random value in every field, drawn in order. -/
def drawFields : List Field → Random.Draw (List Field)
  | [] => return []
  | f :: rest => do
    let v ← f.type.draw
    let rest ← drawFields rest
    return { f with value := v } :: rest

/-! ## Parameters -/

/-- Where a parameter is carried. -/
inductive Place where
  | path
  | query
  | header
  | body (refType : Option String) (fields : List Field)
deriving DecidableEq

/-- The name of a place in the keys of parameters. -/
def Place.tag : Place → String
  | path => "PathParam"
  | query => "QueryParam"
  | header => "HeaderParam"
  | body _ _ => "BodyParam"

/-- A parameter of an action. -/
structure Param where
  name : String
  place : Place
  type : ValueType
  required : Bool
  default : Option Value
  value : Value
deriving DecidableEq

namespace Param

/-- Whether the parameter is carried in the path. -/
def isPath (p : Param) : Bool := p.place = .path

/-- Whether the parameter is a body. -/
def isBody (p : Param) : Bool :=
  match p.place with
  | .body _ _ => true
  | _ => false

/-- The schema type of a body. -/
def refType? (p : Param) : Option String :=
  match p.place with
  | .body refType _ => refType
  | _ => none

/-- The fields of a body; other parameters have none. -/
def fields (p : Param) : List Field :=
  match p.place with
  | .body _ fields => fields
  | _ => []

/-- The first field of a name. -/
def field? (p : Param) (name : String) : Option Field := p.fields.find? (·.name = name)

/-- Changes the fields of a body; other parameters stay. -/
def mapFields (p : Param) (f : List Field → List Field) : Param :=
  match p.place with
  | .body refType fields => { p with place := .body refType (f fields) }
  | _ => p

/-- Whether the value must be one that exists already: always in the path, and in the query where
it is required and has no default. -/
def isRequiredToBind (p : Param) : Bool :=
  match p.place with
  | .path => true
  | .query => p.required && p.default.isNone
  | .header | .body _ _ => false

/-- A random value, or random values in all fields of a body. -/
def randomize (p : Param) : Random.Draw Param :=
  match p.place with
  | .body refType fields => do
    let fields ← drawFields fields
    return { p with place := .body refType fields }
  | _ => do
    let v ← p.type.draw
    return { p with value := v }

/-- Takes over the value of another parameter; a body takes over field by field. -/
def copyValueFrom (p other : Param) : Param :=
  match p.place with
  | .body refType fields =>
    { p with
      place := .body refType (fields.map fun f =>
        match other.field? f.name with
        | some source => { f with value := source.value }
        | none => f) }
  | _ => { p with value := other.value }

end Param

/-- The value of the first path parameter of a name. -/
def pathValue? (params : List Param) (name : String) : Option Value :=
  (params.find? fun p => p.isPath && p.name = name).map (·.value)

/-- The path with the values of the path parameters in place of its variables. -/
def PathTemplate.resolveWith (p : PathTemplate) (params : List Param) : String :=
  p.resolve (pathValue? params)

end RestScenario
