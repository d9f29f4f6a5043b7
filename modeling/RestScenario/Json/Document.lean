import RestScenario.Number.Numeral

/-!
# JSON documents

The tree of a document as it is written: objects keep all their entries in order, repeated keys
included, and numbers are told apart by their spelling. A text that names half of a surrogate pair
denotes no string; it is kept as `none`, so that a reader may pass over it.
-/

namespace RestScenario.Json

open Number

/-- A JSON document. -/
inductive Document where
  | null
  | bool (b : Bool)
  | number (n : Numeral)
  | text (s : Option String)
  | array (items : List Document)
  | object (entries : List (Option String × Document))
deriving Inhabited

/-! ## Building documents -/

/-- A text document. -/
def ofString (s : String) : Document := .text (some s)

/-- An integer document. -/
def ofInt (n : Int) : Document := .number (.integer n)

/-- A natural number as a document. -/
def ofNat (n : Nat) : Document := ofInt n

/-- A double as a document. -/
def ofFloat (x : Float) : Document := .number (.double x)

/-- An array of the images of a list. -/
def ofList {α : Type} (write : α → Document) (xs : List α) : Document := .array (xs.map write)

/-- `null`, or the image of a value. -/
def ofOption {α : Type} (write : α → Document) : Option α → Document
  | none => .null
  | some x => write x

/-- An object with the given entries. -/
def ofFields (fields : List (String × Document)) : Document :=
  .object (fields.map fun f => (some f.1, f.2))

end RestScenario.Json
