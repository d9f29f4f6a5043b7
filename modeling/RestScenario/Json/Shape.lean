import RestScenario.Json.Document
import RestScenario.Ordered.Map

/-!
# Reading values out of documents

Readers for the shapes that values take in documents; each gives `none` for any other shape. A
record is an object whose known fields occur at most once; its unknown fields are passed over.
-/

namespace RestScenario.Json

open Number

/-! ## Plain shapes -/

/-- A text. -/
def Document.asText? : Document → Option String
  | .text s => s
  | _ => none

/-- A truth value. -/
def Document.asBool? : Document → Option Bool
  | .bool b => some b
  | _ => none

/-- An integer. -/
def Document.asInt? : Document → Option Int
  | .number (.integer n) => some n
  | _ => none

/-- An integer of 64 bits without sign. -/
def Document.asWord? (d : Document) : Option Nat :=
  d.asInt?.bind fun n => if 0 ≤ n && n ≤ wordMax then some n.toNat else none

/-- The double nearest to an integer of 64 bits. -/
def floatOfInt (n : Int) : Float :=
  let x := (UInt64.ofNat n.natAbs).toFloat
  if n < 0 then -x else x

/-- A number as a double. -/
def Document.asFloat? : Document → Option Float
  | .number (.integer n) => some (floatOfInt n)
  | .number (.double x) => some x
  | _ => none

/-- `null`, or a value. -/
def Document.asOption? {α : Type} (read : Document → Option α) : Document → Option (Option α)
  | .null => some none
  | d => (read d).map some

/-- An array whose items are all of one shape. -/
def Document.asList? {α : Type} (read : Document → Option α) : Document → Option (List α)
  | .array items => items.mapM read
  | _ => none

/-- An object as a map; the last entry of a key counts. -/
def Document.asMap? {α : Type} (read : Document → Option α) : Document → Option (SortedMap String α)
  | .object entries => do
    let pairs ← entries.mapM fun (k, d) => do return (← k, ← read d)
    return SortedMap.ofList pairs
  | _ => none

/-- One of several names, alone or as the only key of an object over `null`. -/
def Document.asName? {α : Type} (names : List (String × α)) : Document → Option α
  | .text s => s.bind fun name => names.lookup name
  | .object [(k, .null)] => k.bind fun name => names.lookup name
  | _ => none

/-! ## Records -/

/-- The fields of a record. -/
abbrev Fields := List (String × Document)

/-- The known fields of a record, each at most once. -/
def Document.asRecord? (known : List String) : Document → Option Fields
  | .object entries => do
    let named ← entries.mapM fun (k, d) => k.map (·, d)
    let fields := named.filter fun f => known.contains f.1
    if (fields.map (·.1)).Nodup then some fields else none
  | _ => none

/-- A field that must be there. -/
def Fields.required {α : Type} (fields : Fields) (name : String) (read : Document → Option α) :
    Option α :=
  (fields.lookup name).bind read

/-- A field with a value to take in its absence. -/
def Fields.optional {α : Type} (fields : Fields) (name : String) (absent : α)
    (read : Document → Option α) : Option α :=
  match fields.lookup name with
  | none => some absent
  | some d => read d

end RestScenario.Json
