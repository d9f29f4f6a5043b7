import RestScenario.Number.Decimal
import RestScenario.Random.Draw

/-!
# Values

The values that parameters, body fields and columns carry, and the declared types from which random
values are drawn.
-/

namespace RestScenario

/-- The value of a parameter, a body field or a column. -/
inductive Value where
  | null
  | bool (b : Bool)
  | int (n : Int)
  | float (x : Float)
  | text (s : String)
deriving DecidableEq, Inhabited

namespace Value

/-- Whether there is no value. -/
def isNull : Value → Bool
  | null => true
  | _ => false

/-- The text of a value, as it stands in a resolved path. -/
def display : Value → String
  | null => "null"
  | bool b => if b then "true" else "false"
  | int n => toString n
  | float x => Number.plain x
  | text s => s

/-- Whether two values agree. Doubles are compared as numbers: both zeros agree. -/
def agrees : Value → Value → Bool
  | null, null => true
  | bool a, bool b => a == b
  | int a, int b => a == b
  | float a, float b => a == b
  | text a, text b => a == b
  | _, _ => false

end Value

/-- The declared type of a parameter, a field or a column. -/
inductive ValueType where
  | integer
  | float
  | boolean
  | text
deriving DecidableEq, Inhabited

namespace ValueType

open RestScenario.Random

/-- The lowercase letters. -/
def letters : List Char := "abcdefghijklmnopqrstuvwxyz".toList

/-- As many random lowercase letters. -/
def drawLetters : Nat → Draw (List Char)
  | 0 => return []
  | n + 1 => do
    let i ← belowNarrow 26
    let rest ← drawLetters n
    return (letters[i]?).getD 'a' :: rest

/-- A random value: an integer from 1 to 9999, a double below 1000, a coin toss, or a word of three
to eight letters. -/
def draw : ValueType → Draw Value
  | integer => do
    let n ← below64 9999
    return .int (n + 1)
  | float => do
    let x ← belowThousand
    return .float x
  | boolean => do
    let b ← chance 0.5
    return .bool b
  | text => do
    let n ← below32 6
    let cs ← drawLetters (n + 3)
    return .text (String.ofList cs)

end ValueType

end RestScenario
