import RestScenario.Number.Numeral

/-!
# Command line arguments

The arguments name a catalogue file and set options. An option takes the word after it as its value;
the last value of an option counts, and an option without a word after it is passed over. The first
other word that does not look like an option is the catalogue; any further word is ignored with a
notice.
-/

namespace RestScenario.Program

/-- What the command line asks for. -/
structure Arguments where
  catalogue : Option String
  schema : Option String
  config : Option String
  /-- The number of mutations per seed scenario. -/
  rounds : Nat
  /-- The seed that takes the place of the one in the settings. -/
  seed : Option Nat
  /-- Words without a meaning, in order. -/
  ignored : List String
deriving DecidableEq

namespace Arguments

/-- The number of rounds unless another is given. -/
def standardRounds : Nat := 3

/-- The arguments of an empty command line. -/
def standard : Arguments := ⟨none, none, none, standardRounds, none, []⟩

/-- The value of decimal digits, if there are any and nothing else. -/
def digitsValue? (ds : List Char) : Option Nat :=
  if ds.isEmpty || !ds.all Char.isDigit then none
  else some (ds.foldl (fun n c => 10 * n + (c.toNat - '0'.toNat)) 0)

/-- An integer of 64 bits without sign; a plus sign in front is allowed. -/
def whole? (word : String) : Option Nat :=
  let ds := match word.toList with
    | '+' :: rest => rest
    | cs => cs
  (digitsValue? ds).filter fun n => n ≤ Number.wordMax

/-- What an option does with its value. -/
def setter? : String → Option (Arguments → String → Arguments)
  | "--schema" => some fun a v => { a with schema := some v }
  | "--config" => some fun a v => { a with config := some v }
  | "--rounds" => some fun a v => { a with rounds := (whole? v).getD standardRounds }
  | "--seed" => some fun a v => { a with seed := whole? v }
  | _ => none

/-- Whether a word looks like an option. -/
def isOption (word : String) : Bool := ['-', '-'].isPrefixOf word.toList

/-- Takes a word that no option takes. -/
def takeWord (a : Arguments) (word : String) : Arguments :=
  if a.catalogue.isNone && !isOption word then { a with catalogue := some word }
  else { a with ignored := a.ignored ++ [word] }

/-- Reads words from left to right. -/
def readWords (a : Arguments) : List String → Arguments
  | [] => a
  | [word] => if (setter? word).isSome then a else a.takeWord word
  | word :: value :: rest =>
    match setter? word with
    | some set => readWords (set a value) rest
    | none => readWords (a.takeWord word) (value :: rest)

/-- The arguments of a command line. -/
def ofWords (words : List String) : Arguments := standard.readWords words

/-- The files that are read, in order. -/
def files (a : Arguments) : List String := a.catalogue.toList ++ a.config.toList ++ a.schema.toList

end Arguments

end RestScenario.Program
