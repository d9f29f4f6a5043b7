/-!
# A stream of random words

Random words come from the ChaCha keystream with twelve rounds, a 64-bit block counter and a zero
nonce, under a key that a congruential generator spreads from a 64-bit seed. The stream is a
function of the position: word `i` is word `i % 16` of block `i / 16`.
-/

namespace RestScenario.Random

/-! ## The key -/

/-- The multiplier of the generator that spreads a seed. -/
def spreadMultiplier : UInt64 := 6364136223846793005

/-- The increment of the generator that spreads a seed. -/
def spreadIncrement : UInt64 := 11634580027462260723

/-- Turns the bits of a word right. -/
def rotateRight (x : UInt32) (n : UInt32) : UInt32 := (x >>> n) ||| (x <<< ((32 - n) % 32))

/-- The word that a state of the spreading generator yields. -/
def spreadWord (state : UInt64) : UInt32 :=
  rotateRight (((state >>> 18) ^^^ state) >>> 27).toUInt32 (state >>> 59).toUInt32

/-- The next words of a key, from a state of the spreading generator. -/
def keyWords : Nat → UInt64 → List UInt32
  | 0, _ => []
  | n + 1, state =>
    let next := state * spreadMultiplier + spreadIncrement
    spreadWord next :: keyWords n next

/-! ## Blocks -/

/-- The sixteen words of a block. -/
abbrev Block := Vector UInt32 16

/-- Turns the bits of a word left. -/
def rotateLeft (x : UInt32) (n : UInt32) : UInt32 := (x <<< n) ||| (x >>> (32 - n))

/-- One quarter round on four words of a block. -/
def quarterRound (b : Block) (i j k l : Fin 16) : Block :=
  let x := b[i] + b[j]
  let w := rotateLeft (b[l] ^^^ x) 16
  let z := b[k] + w
  let y := rotateLeft (b[j] ^^^ z) 12
  let x := x + y
  let w := rotateLeft (w ^^^ x) 8
  let z := z + w
  let y := rotateLeft (y ^^^ z) 7
  (((b.set i x).set j y).set k z).set l w

/-- A round on the columns of a block, then one on its diagonals. -/
def doubleRound (b : Block) : Block :=
  let b := quarterRound b 0 4 8 12
  let b := quarterRound b 1 5 9 13
  let b := quarterRound b 2 6 10 14
  let b := quarterRound b 3 7 11 15
  let b := quarterRound b 0 5 10 15
  let b := quarterRound b 1 6 11 12
  let b := quarterRound b 2 7 8 13
  quarterRound b 3 4 9 14

/-- The block before the rounds: four constants, the key, the counter, the zero nonce. -/
def initialBlock (key : List UInt32) (counter : Nat) : Block :=
  let word := fun i => (key[i]?).getD 0
  #v[0x61707865, 0x3320646e, 0x79622d32, 0x6b206574,
    word 0, word 1, word 2, word 3, word 4, word 5, word 6, word 7,
    UInt32.ofNat counter, UInt32.ofNat (counter >>> 32), 0, 0]

/-- A block of the keystream: twelve rounds, and the block before them added at the end. -/
def keystreamBlock (key : List UInt32) (counter : Nat) : Block :=
  let start := initialBlock key counter
  let mixed := (List.range 6).foldl (fun b _ => doubleRound b) start
  Vector.zipWith (· + ·) mixed start

/-- The words of the keystream by position. -/
def keystream (key : List UInt32) (position : Nat) : UInt32 :=
  (keystreamBlock key (position / 16)).get ⟨position % 16, Nat.mod_lt _ (by decide)⟩

/-! ## Sources -/

/-- A stream of random words, how many of them are used up, and how often in a row a draw may be
rejected before it is taken all the same. -/
structure Source where
  word : Nat → UInt32
  drawn : Nat
  redraws : Nat

/-- The stream of a seed. So many rejections in a row have probability below `2 ^ -256`. -/
def Source.ofSeed (seed : UInt64) : Source :=
  let key := keyWords 8 seed
  ⟨keystream key, 0, 256⟩

end RestScenario.Random
