import RestScenario.Number.Compare

/-!
# Decimal text of doubles

A double is written with the fewest digits that read back as the same double, in positional
notation whatever its size: no exponent, and no point where there is no fraction. The digits are
found by exact arithmetic on the value `m * 2 ^ q`: a decimal reads back when it lies among the
reals that round to the value, and the shortest grid of decimals that meets that interval gives
the digits. Of two hits on one grid the nearer is taken, the larger on a tie.

`fixed` writes a given number of places, a half going to the even neighbour.
-/

namespace RestScenario.Number

/-! ## Binary values -/

/-- A finite magnitude `m * 2 ^ q`. -/
structure Binary where
  m : Nat
  q : Int
  /-- The gap to the value below is half the gap to the value above. -/
  narrowBelow : Bool

/-- The magnitude of a finite double. -/
def Binary.ofFloat (x : Float) : Binary :=
  let bits := x.toBits
  let e := ((bits >>> 52) &&& 0x7FF).toNat
  let f := (bits &&& 0xFFFFFFFFFFFFF).toNat
  if e = 0 then ⟨f, -1074, false⟩ else ⟨(1 <<< 52) + f, (e : Int) - 1075, f = 0 && 1 < e⟩

/-- Digits before a power of ten: `digits * 10 ^ exponent`. -/
structure Decimal where
  digits : Nat
  exponent : Int
deriving DecidableEq

/-- Compares `a * 10 ^ i` with `n * 2 ^ j`, exactly. -/
def compareScaled (a : Nat) (i : Int) (n : Nat) (j : Int) : Ordering :=
  compare ((a * Nat.pow 10 i.toNat) <<< (-j).toNat) ((n * Nat.pow 10 (-i).toNat) <<< j.toNat)

/-- Whether a decimal lies among the reals that round to `x`. The ends of that interval belong to
it exactly when `m` is even. -/
def Binary.readsBack (x : Binary) (d : Decimal) : Bool :=
  let low := if x.narrowBelow then 4 * x.m - 1 else 4 * x.m - 2
  let ends := x.m % 2 = 0
  let below := compareScaled d.digits d.exponent low (x.q - 2)
  let above := compareScaled d.digits d.exponent (4 * x.m + 2) (x.q - 2)
  (below = .gt || (ends && below = .eq)) && (above = .lt || (ends && above = .eq))

/-! ## The shortest decimal -/

/-- The largest decimal on the grid `10 ^ exponent` that does not exceed `x`. -/
def Binary.floorOn (x : Binary) (exponent : Int) : Nat :=
  ((x.m * Nat.pow 10 (-exponent).toNat) <<< x.q.toNat) /
    (Nat.pow 10 exponent.toNat <<< (-x.q).toNat)

/-- The hit on the grid `10 ^ exponent`, if one of the two neighbours of `x` reads back. -/
def Binary.hitOn (x : Binary) (exponent : Int) : Option Decimal :=
  let low : Decimal := ⟨x.floorOn exponent, exponent⟩
  let high : Decimal := ⟨low.digits + 1, exponent⟩
  match x.readsBack low, x.readsBack high with
  | false, false => none
  | true, false => some low
  | false, true => some high
  | true, true =>
    -- twice the value against the sum of the two neighbours
    if compareScaled (low.digits + high.digits) exponent (2 * x.m) x.q = .gt then some low
    else some high

/-- The first hit on the grids from `10 ^ exponent` downwards, each ten times as fine as the one
before. -/
def Binary.search (x : Binary) : Nat → Int → Option Decimal
  | 0, _ => none
  | steps + 1, exponent => (x.hitOn exponent).orElse fun _ => x.search steps (exponent - 1)

/-- An exponent of ten that no magnitude reaches. -/
def topExponent : Int := 310

/-- The number of grids between `10 ^ 310` and a grid on which every double lies. -/
def gridCount : Nat := 1400

/-- The decimal with the fewest digits that reads back as `x`; zero has the digit zero. -/
def Binary.shortest (x : Binary) : Decimal :=
  if x.m = 0 then ⟨0, 0⟩
  else
    -- the least power of ten above the value, estimated from its binary logarithm
    let estimate : Int := ((Nat.log2 x.m : Int) + x.q) * 30103 / 100000 + 2
    ((x.search gridCount (min estimate topExponent)).getD ⟨x.floorOn (-1074), -1074⟩)

/-! ## Layout -/

/-- The decimal digits of a number, most significant first. -/
def digitText (n : Nat) : String := String.ofList (Nat.toDigits 10 n)

/-- Digits with a point before the last `places` of them, and zeros in front as needed. -/
def pointed (n places : Nat) : String :=
  if places = 0 then digitText n
  else
    let ds := Nat.toDigits 10 n
    let padded := List.replicate (places + 1 - ds.length) '0' ++ ds
    String.ofList (padded.take (padded.length - places)) ++ "."
      ++ String.ofList (padded.drop (padded.length - places))

/-- Positional notation of a decimal. -/
def Decimal.text (d : Decimal) : String :=
  if 0 ≤ d.exponent then digitText (d.digits * Nat.pow 10 d.exponent.toNat)
  else pointed d.digits (-d.exponent).toNat

/-- The sign of a double, that of zero included. -/
def signText (x : Float) : String := if x.toBits >>> 63 = 0 then "" else "-"

/-- The shortest decimal of a double in positional notation. -/
def plain (x : Float) : String :=
  if x.isNaN then "NaN"
  else if x.isInf then signText x ++ "inf"
  else signText x ++ (Binary.ofFloat x).shortest.text

/-- The nearest number of units of `num / den`, a half going to the even neighbour. -/
def roundDiv (num den : Nat) : Nat :=
  let low := num / den
  match compare (2 * (num % den)) den with
  | .lt => low
  | .gt => low + 1
  | .eq => if low % 2 = 0 then low else low + 1

/-- A double with a given number of places after the point. -/
def fixed (places : Nat) (x : Float) : String :=
  if x.isNaN then "NaN"
  else if x.isInf then signText x ++ "inf"
  else
    let b := Binary.ofFloat x
    let units := roundDiv ((b.m * Nat.pow 10 places) <<< b.q.toNat) (1 <<< (-b.q).toNat)
    signText x ++ pointed units places

example : plain 0.1 = "0.1" ∧ plain (-0.0) = "-0" ∧ plain 1e21 = "1000000000000000000000" := by
  decide +kernel

example : fixed 2 0.125 = "0.12" ∧ fixed 2 0.995 = "0.99" ∧ fixed 2 1.0 = "1.00" := by
  decide +kernel

end RestScenario.Number
