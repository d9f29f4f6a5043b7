import RestScenario.Json.Token

/-!
# Reading JSON

A machine reads the words of a document one by one. Its stack holds the arrays and objects that
are still open, so documents may nest to any depth. After the last word the document must be
complete.
-/

namespace RestScenario.Json

/-- An open array or object; what it holds already stands in reverse. -/
inductive Frame where
  | array (before : List Document)
  | object (before : List (Option String × Document))
  /-- An object whose entry under `key` is being read. -/
  | entry (before : List (Option String × Document)) (key : Option String)

/-- What the machine waits for; the frames stand innermost first. -/
inductive State where
  | value (open_ : List Frame)
  /-- Just after an array was opened: a value, or its end. -/
  | firstItem (open_ : List Frame)
  /-- Just after an object was opened: a key, or its end. -/
  | firstKey (before : List (Option String × Document)) (open_ : List Frame)
  | key (before : List (Option String × Document)) (open_ : List Frame)
  | colon (open_ : List Frame)
  /-- After a value inside an array or object: a comma, or its end. -/
  | separator (open_ : List Frame)
  | complete (d : Document)

/-- Puts a finished value where it belongs. -/
def place (d : Document) : List Frame → State
  | [] => .complete d
  | .array before :: rest => .separator (.array (d :: before) :: rest)
  | .object before :: rest => .separator (.object before :: rest)
  | .entry before key :: rest => .separator (.object ((key, d) :: before) :: rest)

/-- Starts or finishes a value. -/
def startValue (open_ : List Frame) : Token → Option State
  | .openArray => some (.firstItem (.array [] :: open_))
  | .openObject => some (.firstKey [] open_)
  | .null => some (place .null open_)
  | .bool b => some (place (.bool b) open_)
  | .number n => some (place (.number n) open_)
  | .text s => some (place (.text s) open_)
  | _ => none

/-- Takes one word. -/
def State.step : State → Token → Option State
  | .value open_, t => startValue open_ t
  | .firstItem (.array [] :: rest), .closeArray => some (place (.array []) rest)
  | .firstItem open_, t => startValue open_ t
  | .firstKey before open_, .text k => some (.colon (.entry before k :: open_))
  | .firstKey _ open_, .closeObject => some (place (.object []) open_)
  | .key before open_, .text k => some (.colon (.entry before k :: open_))
  | .colon open_, .colon => some (.value open_)
  | .separator (.array before :: rest), .comma => some (.value (.array before :: rest))
  | .separator (.array before :: rest), .closeArray => some (place (.array before.reverse) rest)
  | .separator (.object before :: rest), .comma => some (.key before rest)
  | .separator (.object before :: rest), .closeObject => some (place (.object before.reverse) rest)
  | _, _ => none

/-- The document that a text spells. -/
def read? (s : String) : Option Document := do
  let words ← tokens? s.toList
  match ← words.foldlM State.step (.value []) with
  | .complete d => some d
  | _ => none

end RestScenario.Json
