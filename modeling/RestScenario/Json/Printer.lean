import RestScenario.Json.Document
import RestScenario.Number.Decimal

/-!
# Writing JSON

Documents on one line, without blanks. Doubles are written in positional notation with a point, so
that they read back as doubles; quotes, backslashes and characters below the blank are escaped.
-/

namespace RestScenario.Json

open Number

/-- The hexadecimal digits of a small number, at least two. -/
def hexPair (n : Nat) : List Char :=
  let ds := Nat.toDigits 16 n
  List.replicate (2 - ds.length) '0' ++ ds

/-- A character inside a quoted text. -/
def escape (c : Char) : List Char :=
  if c = '"' then ['\\', '"']
  else if c = '\\' then ['\\', '\\']
  else if c.toNat < 0x20 then ['\\', 'u', '0', '0'] ++ hexPair c.toNat
  else [c]

/-- A text in quotes. -/
def quote (s : String) : String := "\"" ++ String.ofList (s.toList.flatMap escape) ++ "\""

/-- A double with a point. -/
def pointedDouble (x : Float) : String :=
  let s := plain x
  if s.contains '.' then s else s ++ ".0"

/-- A numeral. A double without a numeral is written `null`. -/
def writeNumeral : Numeral → String
  | .integer n => toString n
  | .double x => if x.isNaN || x.isInf then "null" else pointedDouble x
  | .overflow => "null"

mutual

/-- The text of a document. -/
def Document.write : Document → String
  | .null => "null"
  | .bool b => if b then "true" else "false"
  | .number n => writeNumeral n
  | .text s => quote (s.getD "")
  | .array items => "[" ++ writeItems items ++ "]"
  | .object entries => "\x7b" ++ writeEntries entries ++ "\x7d"

/-- The items of an array, with commas between them. -/
def writeItems : List Document → String
  | [] => ""
  | [d] => d.write
  | d :: rest => d.write ++ "," ++ writeItems rest

/-- The entries of an object, with commas between them. -/
def writeEntries : List (Option String × Document) → String
  | [] => ""
  | [(k, d)] => quote (k.getD "") ++ ":" ++ d.write
  | (k, d) :: rest => quote (k.getD "") ++ ":" ++ d.write ++ "," ++ writeEntries rest

end

end RestScenario.Json
