import RestScenario.Json.Document

/-!
# JSON tokens

The words of a document: punctuation, the three constants, numerals and quoted texts. Between words
stand blanks, line ends and tabs. Characters below the blank may not stand in a quoted text, and
half of a surrogate pair makes a text that denotes no string.
-/

namespace RestScenario.Json

open Number

/-- A word of a document. -/
inductive Token where
  | openObject
  | closeObject
  | openArray
  | closeArray
  | comma
  | colon
  | null
  | bool (b : Bool)
  | number (n : Numeral)
  | text (s : Option String)

/-! ## Quoted texts -/

/-- The value of a hexadecimal digit. -/
def hexDigit? (c : Char) : Option Nat :=
  if c.isDigit then some (c.toNat - '0'.toNat)
  else if 'a' ≤ c && c ≤ 'f' then some (c.toNat - 'a'.toNat + 10)
  else if 'A' ≤ c && c ≤ 'F' then some (c.toNat - 'A'.toNat + 10)
  else none

/-- The number that hexadecimal digits spell. -/
def hexWord? (cs : List Char) : Option Nat :=
  cs.foldlM (fun n c => (hexDigit? c).map (n * 16 + ·)) 0

/-- The character that a one-letter escape stands for. -/
def escaped? : Char → Option Char
  | '"' => some '"'
  | '\\' => some '\\'
  | '/' => some '/'
  | 'b' => some '\x08'
  | 'f' => some '\x0c'
  | 'n' => some '\n'
  | 'r' => some '\r'
  | 't' => some '\t'
  | _ => none

/-- The text up to the closing quote, and what follows it. `high` is the first half of a surrogate
pair just read, `sound` whether every half so far has met its other half, `read` the characters so
far in reverse. -/
def quoted (high : Option Nat) (sound : Bool) (read : List Char) :
    List Char → Option (Option String × List Char)
  | [] => none
  | '"' :: rest =>
    some (if sound && high.isNone then some (String.ofList read.reverse) else none, rest)
  | '\\' :: 'u' :: a :: b :: c :: d :: rest =>
    match hexWord? [a, b, c, d] with
    | none => none
    | some code =>
      if 0xDC00 ≤ code && code ≤ 0xDFFF then
        match high with
        | some h =>
          quoted none sound (Char.ofNat (0x10000 + (h - 0xD800) * 0x400 + (code - 0xDC00)) :: read)
            rest
        | none => quoted none false read rest
      else if 0xD800 ≤ code && code ≤ 0xDBFF then
        quoted (some code) (sound && high.isNone) read rest
      else quoted none (sound && high.isNone) (Char.ofNat code :: read) rest
  | '\\' :: e :: rest =>
    match escaped? e with
    | none => none
    | some c => quoted none (sound && high.isNone) (c :: read) rest
  | c :: rest =>
    if c.toNat < 0x20 then none else quoted none (sound && high.isNone) (c :: read) rest

/-! ## Numerals -/

/-- The value of a decimal digit. -/
def digitValue (c : Char) : Nat := c.toNat - '0'.toNat

/-- The digits at the front, at least one, and what follows them. -/
def digits? (cs : List Char) : Option (List Nat × List Char) :=
  match cs.takeWhile Char.isDigit with
  | [] => none
  | ds => some (ds.map digitValue, cs.dropWhile Char.isDigit)

/-- The fraction at the front, if there is one. -/
def point? : List Char → Option (Option (List Nat) × List Char)
  | '.' :: rest => (digits? rest).map fun (ds, rest) => (some ds, rest)
  | rest => some (none, rest)

/-- The sign of an exponent, and what follows it. -/
def powerSign : List Char → Bool × List Char
  | '-' :: rest => (true, rest)
  | '+' :: rest => (false, rest)
  | rest => (false, rest)

/-- The exponent at the front, if there is one. -/
def power? : List Char → Option (Option (Bool × List Nat) × List Char)
  | 'e' :: rest | 'E' :: rest =>
    let (below, rest) := powerSign rest
    (digits? rest).map fun (ds, rest) => (some (below, ds), rest)
  | rest => some (none, rest)

/-- The numeral at the front, and what follows it. A whole part has no superfluous zero. -/
def numeral? (cs : List Char) : Option (Numeral × List Char) := do
  let (negative, cs) := match cs with
    | '-' :: rest => (true, rest)
    | rest => (false, rest)
  let (whole, cs) ← digits? cs
  if whole.head? = some 0 && 1 < whole.length then none
  let (point, cs) ← point? cs
  let (power, cs) ← power? cs
  return (Spelling.value ⟨negative, whole, point, power⟩, cs)

/-! ## All words -/

/-- The word at the front, `none` for a blank, and what follows it. -/
def token? : List Char → Option (Option Token × List Char)
  | [] => none
  | ' ' :: rest | '\n' :: rest | '\t' :: rest | '\r' :: rest => some (none, rest)
  | '\x7b' :: rest => some (some .openObject, rest)
  | '\x7d' :: rest => some (some .closeObject, rest)
  | '[' :: rest => some (some .openArray, rest)
  | ']' :: rest => some (some .closeArray, rest)
  | ',' :: rest => some (some .comma, rest)
  | ':' :: rest => some (some .colon, rest)
  | 'n' :: 'u' :: 'l' :: 'l' :: rest => some (some .null, rest)
  | 't' :: 'r' :: 'u' :: 'e' :: rest => some (some (.bool true), rest)
  | 'f' :: 'a' :: 'l' :: 's' :: 'e' :: rest => some (some (.bool false), rest)
  | '"' :: rest => (quoted none true [] rest).map fun (s, rest) => (some (.text s), rest)
  | cs => (numeral? cs).map fun (n, rest) => (some (.number n), rest)

/-- The words of a text, in at most `steps` steps; `read` holds the words so far in reverse. -/
def tokensWithin : Nat → List Token → List Char → Option (List Token)
  | _, read, [] => some read.reverse
  | 0, _, _ => none
  | steps + 1, read, cs =>
    match token? cs with
    | none => none
    | some (none, rest) => tokensWithin steps read rest
    | some (some t, rest) => tokensWithin steps (t :: read) rest

/-- The words of a text. Each takes a character at least, so the length bounds their number. -/
def tokens? (cs : List Char) : Option (List Token) := tokensWithin cs.length [] cs

end RestScenario.Json
