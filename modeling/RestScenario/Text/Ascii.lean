/-!
# Letter case

Names of verbs, path elements, tables and columns are compared without regard to the case of the
letters `A` to `Z`. All other characters stand for themselves.
-/

namespace RestScenario.Text

/-- Writes `A` to `Z` as `a` to `z`; other characters stay. -/
def lowerChars (cs : List Char) : List Char := cs.map Char.toLower

/-- The text with `A` to `Z` written as `a` to `z`. -/
def lower (s : String) : String := String.ofList (lowerChars s.toList)

/-- Equal up to the case of `A` to `Z`. -/
def sameLetters (s t : String) : Bool := lower s == lower t

/-- An ASCII letter or digit. -/
def isAlphanumeric (c : Char) : Bool := c.isUpper || c.isLower || c.isDigit

theorem sameLetters_iff {s t : String} : sameLetters s t = true ↔ lower s = lower t := by
  simp [sameLetters]

end RestScenario.Text
