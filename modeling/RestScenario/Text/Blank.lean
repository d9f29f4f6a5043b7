/-!
# Blank characters at the ends of a text

The blanks are the characters with the Unicode property `White_Space`, wider than the class
`Char.isWhitespace` of the core library. `trim` drops them at both ends.
-/

namespace RestScenario.Text

/-- The ranges of the Unicode property `White_Space`. -/
def blankRanges : List (Nat × Nat) :=
  [(0x09, 0x0D), (0x20, 0x20), (0x85, 0x85), (0xA0, 0xA0), (0x1680, 0x1680), (0x2000, 0x200A),
    (0x2028, 0x2029), (0x202F, 0x202F), (0x205F, 0x205F), (0x3000, 0x3000)]

/-- Whether a character has the property `White_Space`. -/
def isBlank (c : Char) : Bool := blankRanges.any fun r => r.1 ≤ c.toNat && c.toNat ≤ r.2

/-- Drops the blanks at both ends. -/
def trimChars (cs : List Char) : List Char :=
  ((cs.dropWhile isBlank).reverse.dropWhile isBlank).reverse

/-- The text without the blanks at its ends. -/
def trim (s : String) : String := String.ofList (trimChars s.toList)

example : (blankRanges.map fun r => r.2 + 1 - r.1).sum = 25 := by decide

example : trimChars "\t a b\u3000".toList = "a b".toList := by decide

end RestScenario.Text
