import RestScenario.Text.Ascii

/-!
# Similarity of names

Names are compared by their letters and digits, in lower case and in the singular. Their similarity
is one less the edit distance over the length of the longer name, and lies between 0 and 1.
-/

namespace RestScenario.Similarity

/-- The score from which on two names count as related unless settings say otherwise. -/
def defaultThreshold : Float := 0.6

/-! ## Words -/

/-- The letters and digits in lower case. -/
def normalizeChars (cs : List Char) : List Char := Text.lowerChars (cs.filter Text.isAlphanumeric)

/-- The letters and digits of a name in lower case. -/
def normalize (s : String) : String := String.ofList (normalizeChars s.toList)

/-- A text without a given ending, if it has it. -/
def withoutEnding? (ending cs : List Char) : Option (List Char) :=
  if ending.isSuffixOf cs then some (cs.take (cs.length - ending.length)) else none

/-- The bytes of a text. -/
def byteCount (cs : List Char) : Nat := (String.ofList cs).utf8ByteSize

/-- A crude English singular: `ies` becomes `y`, `ss` stays, and a final `s` is dropped after more
than one byte. -/
def singularChars (cs : List Char) : List Char :=
  match withoutEnding? ['i', 'e', 's'] cs with
  | some (c :: stem) => c :: stem ++ ['y']
  | _ =>
    if ['s', 's'].isSuffixOf cs then cs
    else
      match withoutEnding? ['s'] cs with
      | some stem => if 1 < byteCount stem then stem else cs
      | none => cs

/-- The singular of a word. -/
def singular (s : String) : String := String.ofList (singularChars s.toList)

/-- Whether two neighbouring characters stand in one word: capitals run on into capitals and small
letters, small letters and digits only into their like. -/
def runsOn (c d : Char) : Bool :=
  (c.isUpper && (d.isUpper || d.isLower)) || (c.isLower && d.isLower) || (c.isDigit && d.isDigit)

/-- The words of a name: longest runs of letters or digits. -/
def wordsOf : List Char → List (List Char)
  | [] => []
  | c :: rest =>
    if !Text.isAlphanumeric c then wordsOf rest
    else
      match rest.head?, wordsOf rest with
      | some d, word :: words => if runsOn c d then (c :: word) :: words else [c] :: word :: words
      | _, words => [c] :: words

/-- The words of an identifier in lower case, split at separators and where the case changes. -/
def tokenize (s : String) : List String :=
  (wordsOf s.toList).map fun w => String.ofList (Text.lowerChars w)

/-! ## Scores -/

/-- A row of the table of edit distances after its first entry: `left` is the entry before,
`diagonal` the one above that. -/
def extendRow (c : Char) (left diagonal : Nat) : List Char → List Nat → List Nat
  | d :: ds, up :: ups =>
    let entry := min (min (left + 1) (up + 1)) (if c = d then diagonal else diagonal + 1)
    entry :: extendRow c entry up ds ups
  | _, _ => []

/-- The row of the table of edit distances for one character more. -/
def nextRow (target : List Char) (row : List Nat) (c : Char) : List Nat :=
  match row with
  | [] => []
  | first :: ups => (first + 1) :: extendRow c (first + 1) first target ups

/-- The least number of insertions, deletions and replacements between two texts. -/
def editDistance (source target : List Char) : Nat :=
  ((source.foldl (nextRow target) (List.range (target.length + 1))).getLast?).getD 0

/-- The similarity of two words; a word without characters is similar to none. -/
def scoreChars (a b : List Char) : Float :=
  if a.isEmpty || b.isEmpty then 0.0
  else if a = b then 1.0
  else 1.0 - Float.ofNat (editDistance a b) / Float.ofNat (max a.length b.length)

/-- The similarity of two names, case and number aside. -/
def score (a b : String) : Float :=
  scoreChars (singularChars (normalizeChars a.toList)) (singularChars (normalizeChars b.toList))

/-- Scores closer than this count as equal. -/
def tolerance : Float := Float.ofBits 0x3CB0000000000000

/-- Takes one candidate into account. -/
def weigh (input : String) (threshold : Float) (best : Float × List String) (candidate : String) :
    Float × List String :=
  let s := score input candidate
  if s < threshold then best
  else if best.1 < s then (s, [candidate])
  else if (s - best.1).abs < tolerance then (best.1, best.2 ++ [candidate])
  else best

/-- The best score that reaches a threshold, and the candidates that have it. -/
def bestMatches (input : String) (candidates : List String) (threshold : Float) :
    Float × List String :=
  candidates.foldl (weigh input threshold) (0.0, [])

end RestScenario.Similarity
