/-!
# Comparing doubles

Larger and smaller of two doubles where an undefined operand is passed over, bounds that let an
undefined value through, and the total order in which undefined values stand above infinity.
-/

namespace RestScenario.Number

/-- The larger operand. An undefined operand is passed over; of equal ones the first is kept. -/
def larger (a b : Float) : Float := if a.isNaN || a < b then b else a

/-- The smaller operand. An undefined operand is passed over; of equal ones the first is kept. -/
def smaller (a b : Float) : Float := if a.isNaN || b < a then b else a

/-- The nearest value of the unit interval. An undefined value stays as it is. -/
def clampUnit (x : Float) : Float := if x < 0.0 then 0.0 else if 1.0 < x then 1.0 else x

/-- Whether a value lies in the unit interval, ends included. -/
def isUnit (x : Float) : Bool := 0.0 ≤ x && x ≤ 1.0

/-- The place of a double in the total order: negative values below, undefined ones at the top. -/
def rank (x : Float) : Int :=
  let magnitude : Int := (x.toBits &&& 0x7FFFFFFFFFFFFFFF).toNat
  if x.toBits >>> 63 = 0 then magnitude else -magnitude - 1

example : rank (-0.0) < rank 0.0 ∧ rank 0.0 < rank 0.5 := by decide

example : larger (0.0 / 0.0) 0.25 = 0.25 ∧ larger 0.25 (0.0 / 0.0) = 0.25 := by decide

end RestScenario.Number
