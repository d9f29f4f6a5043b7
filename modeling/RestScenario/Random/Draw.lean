import RestScenario.Random.Stream

/-!
# Drawing at random

A draw reads a few words of a random stream and moves on past them. Uniform numbers come from the
high half of a product with the width of the range; a product whose low half falls into the
incomplete last zone is drawn again, which happens with probability below one half.
-/

namespace RestScenario.Random

/-- A computation that uses up random words. -/
abbrev Draw := StateM Source

/-- The next word. -/
def nextWord : Draw Nat := fun s => ((s.word s.drawn).toNat, { s with drawn := s.drawn + 1 })

/-- The next two words as one number, the first the low half. -/
def nextPair : Draw Nat := do
  let low ← nextWord
  let high ← nextWord
  return (high <<< 32) + low

/-! ## Uniform numbers -/

/-- The high half of a draw of `bits` bits times `width`, drawn again while the low half exceeds
`zone` and attempts are left. -/
def drawBelow (draw : Draw Nat) (bits width zone : Nat) : Nat → Draw Nat
  | 0 => do
    let v ← draw
    return (v * width) >>> bits
  | attempts + 1 => do
    let v ← draw
    if v * width % (1 <<< bits) ≤ zone then return (v * width) >>> bits
    else drawBelow draw bits width zone attempts

/-- A draw with as many attempts as the source grants. -/
def drawUniform (draw : Draw Nat) (bits width zone : Nat) : Draw Nat := do
  drawBelow draw bits width zone (← get).redraws

/-- The last low half that is accepted: one below the largest `width * 2 ^ k` of `bits` bits. -/
def topZone (bits width : Nat) : Nat := (width <<< (bits - 1 - Nat.log2 width)) - 1

/-- A number below `width`, from one word. -/
def below32 (width : Nat) : Draw Nat := drawUniform nextWord 32 width (topZone 32 width)

/-- A number below `width`, from two words. -/
def below64 (width : Nat) : Draw Nat := drawUniform nextPair 64 width (topZone 64 width)

/-- A number below `width` for narrow types, from one word; no low half is rejected before the last
incomplete run of `width`. -/
def belowNarrow (width : Nat) : Draw Nat :=
  drawUniform nextWord 32 width ((1 <<< 32) - 1 - ((1 <<< 32) - width) % width)

/-- A double of the interval from 0 to 1000, without its upper end. -/
def belowThousand : Draw Float := do
  let v ← nextPair
  return (Float.ofBits (UInt64.ofNat (v >>> 12) ||| 0x3FF0000000000000) - 1.0) * 1000.0

/-! ## Chances and choices -/

/-- Whether a chance comes true. A certain one uses up no word. -/
def chance (p : Float) : Draw Bool :=
  if p == 1.0 then return true
  else do
    let v ← nextPair
    return v < (p * 18446744073709551616.0).toUInt64.toNat

/-- A member of a list; an empty list has none and uses up no word. -/
def choose {α : Type} (xs : List α) : Draw (Option α) :=
  if xs.isEmpty then return none
  else do
    let i ← below32 xs.length
    return xs[i]?

/-- Two different numbers below `n`, which is at least 2. -/
def chooseTwo (n : Nat) : Draw (Nat × Nat) := do
  let a ← below32 (n - 1)
  let b ← below32 n
  return if b = a then (n - 1, a) else (a, b)

end RestScenario.Random
