import RestScenario.Catalogue
import RestScenario.Json.Reader
import RestScenario.Json.Shape

/-!
# Catalogue documents

Values, parameters, actions and catalogues as JSON documents. Fields that may be left out take
their usual values; a path must be a path template.
-/

namespace RestScenario

open Json

/-! ## Values -/

namespace Value

/-- The value of a document; arrays and objects have none. An integer beyond 64 bits with sign is a
double. -/
def ofDocument? : Document → Option Value
  | .null => some .null
  | .bool b => some (.bool b)
  | .number (.integer n) =>
    if Int64.minValue.toInt ≤ n && n ≤ Int64.maxValue.toInt then some (.int n)
    else some (.float (floatOfInt n))
  | .number (.double x) => some (.float x)
  | .text s => s.map .text
  | _ => none

/-- The document of a value. -/
def toDocument : Value → Document
  | null => .null
  | bool b => .bool b
  | int n => ofInt n
  | float x => ofFloat x
  | text s => ofString s

end Value

namespace ValueType

/-- The names of the types. -/
def names : List (String × ValueType) :=
  [("integer", integer), ("float", float), ("boolean", boolean), ("text", text)]

/-- The name of a type. -/
def name : ValueType → String
  | integer => "integer"
  | float => "float"
  | boolean => "boolean"
  | text => "text"

/-- The type that a document names. -/
def ofDocument? (d : Document) : Option ValueType := d.asName? names

end ValueType

/-! ## Parameters -/

namespace Field

/-- The field of a document. -/
def ofDocument? (d : Document) : Option Field := do
  let fields ← d.asRecord? ["name", "type", "value"]
  return {
    name := ← fields.required "name" Document.asText?
    type := ← fields.optional "type" .integer ValueType.ofDocument?
    value := ← fields.optional "value" .null Value.ofDocument? }

/-- The document of a field. -/
def toDocument (f : Field) : Document :=
  ofFields [("name", ofString f.name), ("type", ofString f.type.name),
    ("value", f.value.toDocument)]

end Field

namespace Place

/-- The names of the places that carry one value. -/
def names : List (String × Place) := [("path", path), ("query", query), ("header", header)]

/-- The content of a body. -/
def bodyOfDocument? (d : Document) : Option Place := do
  let fields ← d.asRecord? ["ref_type", "fields"]
  return .body (← fields.optional "ref_type" none (Document.asOption? Document.asText?))
    (← fields.optional "fields" [] (Document.asList? Field.ofDocument?))

/-- The place of a document. -/
def ofDocument? : Document → Option Place
  | .object [(some "body", d)] => bodyOfDocument? d
  | d => d.asName? names

/-- The document of a place. -/
def toDocument : Place → Document
  | path => ofString "path"
  | query => ofString "query"
  | header => ofString "header"
  | body refType fields =>
    ofFields [("body", ofFields [("ref_type", ofOption ofString refType),
      ("fields", ofList Field.toDocument fields)])]

end Place

namespace Param

/-- The parameter of a document. -/
def ofDocument? (d : Document) : Option Param := do
  let fields ← d.asRecord? ["name", "in", "type", "required", "default", "value"]
  return {
    name := ← fields.required "name" Document.asText?
    place := ← fields.required "in" Place.ofDocument?
    type := ← fields.optional "type" .integer ValueType.ofDocument?
    required := ← fields.optional "required" true Document.asBool?
    default := ← fields.optional "default" none (Document.asOption? Value.ofDocument?)
    value := ← fields.optional "value" .null Value.ofDocument? }

/-- The document of a parameter. -/
def toDocument (p : Param) : Document :=
  ofFields [("name", ofString p.name), ("in", p.place.toDocument), ("type", ofString p.type.name),
    ("required", .bool p.required), ("default", ofOption Value.toDocument p.default),
    ("value", p.value.toDocument)]

end Param

/-! ## Actions -/

namespace Auth

/-- A pair of texts. -/
def headerOfDocument? : Document → Option (String × String)
  | .array [name, value] => do return (← name.asText?, ← value.asText?)
  | _ => none

/-- The credentials of a document. -/
def ofDocument? (d : Document) : Option Auth := do
  let fields ← d.asRecord? ["name", "headers"]
  return {
    name := ← fields.required "name" Document.asText?
    headers := ← fields.optional "headers" [] (Document.asList? headerOfDocument?) }

/-- The document of credentials. -/
def toDocument (a : Auth) : Document :=
  ofFields [("name", ofString a.name),
    ("headers", ofList (fun h => .array [ofString h.1, ofString h.2]) a.headers)]

end Auth

/-- The verb that a document names in capitals. -/
def Verb.ofDocument? (d : Document) : Option Verb := d.asName? (Verb.all.map fun v => (v.name, v))

/-- The path template that a document spells. -/
def PathTemplate.ofDocument? (d : Document) : Option PathTemplate :=
  d.asText?.bind fun s => (PathTemplate.parse s).toOption

namespace Action

/-- The action of a document. -/
def ofDocument? (d : Document) : Option Action := do
  let fields ← d.asRecord? ["verb", "path", "params", "save_location", "location_id", "auth"]
  return {
    verb := ← fields.required "verb" Verb.ofDocument?
    path := ← fields.required "path" PathTemplate.ofDocument?
    params := ← fields.optional "params" [] (Document.asList? Param.ofDocument?)
    savesLocation := ← fields.optional "save_location" false Document.asBool?
    locationId := ← fields.optional "location_id" none (Document.asOption? Document.asText?)
    auth := ← fields.optional "auth" none (Document.asOption? Auth.ofDocument?) }

/-- The document of an action. -/
def toDocument (a : Action) : Document :=
  ofFields [("verb", ofString a.verb.name), ("path", ofString a.path.key),
    ("params", ofList Param.toDocument a.params), ("save_location", .bool a.savesLocation),
    ("location_id", ofOption ofString a.locationId), ("auth", ofOption Auth.toDocument a.auth)]

end Action

/-! ## Catalogues -/

namespace Catalogue

/-- The catalogue of a document; names may repeat. -/
def ofDocument? (d : Document) : Option Catalogue := do
  let fields ← d.asRecord? ["actions"]
  return ⟨← fields.required "actions" (Document.asList? Action.ofDocument?)⟩

/-- The document of a catalogue. -/
def toDocument (c : Catalogue) : Document :=
  ofFields [("actions", ofList Action.toDocument c.actions)]

/-- The catalogue that a text spells, if it is accepted. -/
def ofText (s : String) : Except Error Catalogue :=
  match (read? s).bind ofDocument? with
  | none => .error .malformedCatalogue
  | some c => do
    c.validate
    return c

end Catalogue

end RestScenario
