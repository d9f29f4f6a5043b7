/-!
# Numbers as they are written

A numeral without point or exponent that fits 64 bits, with or without sign, is an integer; minus
zero and every other numeral is a double. The double takes as many leading digits as fit an
unsigned 64-bit word and scales them by one power of ten, each step rounded to the nearest double.
A value beyond the doubles has no number.
-/

namespace RestScenario.Number

/-- What a numeral denotes. -/
inductive Numeral where
  | integer (n : Int)
  | double (x : Float)
  /-- A magnitude beyond the largest double. -/
  | overflow
deriving DecidableEq

/-- The parts of a numeral. `point` and `power` are `none` when they are not written. -/
structure Spelling where
  negative : Bool
  whole : List Nat
  point : Option (List Nat)
  /-- Whether the exponent is negative, and its digits. -/
  power : Option (Bool × List Nat)

/-- The largest unsigned 64-bit word. -/
def wordMax : Nat := (1 <<< 64) - 1

/-- The largest exponent that is read digit by digit. -/
def exponentMax : Nat := (1 <<< 31) - 1

/-- Extends a word by further digits while the result stays a word: the word reached, and the
digits left over. -/
def extend (word : Nat) : List Nat → Nat × List Nat
  | [] => (word, [])
  | d :: rest => if wordMax < word * 10 + d then (word, d :: rest) else extend (word * 10 + d) rest

/-- The double nearest to a power of ten. -/
def powerOfTen (n : Nat) : Float := Float.ofScientific 1 false n

/-- Divides by powers of ten in steps of at most 308 places. -/
def divideByPower (x : Float) (places : Nat) : Float :=
  if places ≤ 308 then x / powerOfTen places
  else if x == 0.0 then x
  else divideByPower (x / powerOfTen 308) (places - 308)
termination_by places
decreasing_by omega

/-- A word times a power of ten; `none` beyond the doubles. -/
def scale (word : Nat) (exponent : Int) : Option Float :=
  let x := (UInt64.ofNat word).toFloat
  if exponent < 0 then some (divideByPower x (-exponent).toNat)
  else if 308 < exponent then if word = 0 then some x else none
  else
    let y := x * powerOfTen exponent.toNat
    if y.isInf then none else some y

/-- The double of a numeral that is no integer. -/
def Spelling.double (s : Spelling) : Numeral :=
  let (word, spare) := extend 0 s.whole
  let (word', cut) := extend word (s.point.getD [])
  let shift : Int := (spare.length : Int) - (((s.point.getD []).length : Int) - cut.length)
  let magnitude :=
    match s.power with
    | none => scale word' shift
    | some (below, ds) =>
      let e := ds.foldl (fun e d => e * 10 + d) 0
      if exponentMax < e then if word' ≠ 0 && !below then none else some 0.0
      else scale word' (if below then shift - e else shift + e)
  match magnitude with
  | none => .overflow
  | some x => .double (if s.negative then -x else x)

/-- The number that a numeral denotes. -/
def Spelling.value (s : Spelling) : Numeral :=
  match s.point, s.power, extend 0 s.whole with
  | none, none, (word, []) =>
    if !s.negative then .integer word
    else if word = 0 || 1 <<< 63 < word then s.double
    else .integer (-word)
  | _, _, _ => s.double

end RestScenario.Number
