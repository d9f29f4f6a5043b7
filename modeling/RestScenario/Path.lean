import RestScenario.Text.Ascii
import RestScenario.Text.Blank
import RestScenario.Text.Split
import RestScenario.Value

/-!
# Path templates

A path template is a list of elements: literal ones, and variables written in braces. Reading a
template drops blanks at its ends and empty parts between slashes; a part with braces is a variable
whatever stands around the braces. Writing it back gives the key under which its resource is known.

Two templates are equivalent when they agree element by element: literals up to letter case,
variables whatever their names. One is an ancestor of another when it is shorter and agrees with
its first elements.
-/

namespace RestScenario

/-! ## Elements -/

/-- An element of a path template. -/
inductive Element where
  | literal (text : String)
  | var (name : String)
deriving DecidableEq

namespace Element

/-- Whether the element is a variable. -/
def isVar : Element → Bool
  | literal _ => false
  | var _ => true

/-- The element as written, after its slash. -/
def written : Element → String
  | literal s => "/" ++ s
  | var v => "/\x7b" ++ v ++ "\x7d"

/-- Whether two elements may stand for the same part of a path. -/
def agrees : Element → Element → Bool
  | literal a, literal b => Text.sameLetters a b
  | var _, var _ => true
  | _, _ => false

end Element

/-! ## Templates -/

/-- A path template such as `/users/{id}/orders`. -/
structure PathTemplate where
  elements : List Element
deriving DecidableEq, Inhabited

/-- Why a text is no path template. -/
inductive PathFault where
  | unbalancedBraces
  /-- More than one variable between two slashes. -/
  | severalVariables (part : String)
  | emptyVariable
deriving DecidableEq

/-- The wording of a fault. -/
def PathFault.message : PathFault → String
  | unbalancedBraces => "unbalanced braces"
  | severalVariables part => "more than one variable in element " ++ part
  | emptyVariable => "empty variable name"

namespace PathTemplate

/-! ### Reading -/

/-- What stands between the braces, if the opening one comes first. -/
def braced? (part : List Char) : Option (List Char) :=
  let inside := (part.dropWhile (· ≠ '\x7b')).drop 1
  if '\x7d' ∈ inside then some (inside.takeWhile (· ≠ '\x7d')) else none

/-- The element that a part between slashes denotes. -/
def parseElement (part : List Char) : Except PathFault Element :=
  if part.count '\x7b' ≠ part.count '\x7d' then .error .unbalancedBraces
  else if part.count '\x7b' = 0 then .ok (.literal (String.ofList part))
  else if 1 < part.count '\x7b' then .error (.severalVariables (String.ofList part))
  else
    match (braced? part).map Text.trimChars with
    | none | some [] => .error .emptyVariable
    | some name => .ok (.var (String.ofList name))

/-- The parts of a path that are not empty. -/
def partsOf (cs : List Char) : List (List Char) :=
  (Text.splitAtEach '/' (Text.trimChars cs)).filter (· ≠ [])

/-- The template that characters spell. -/
def parseChars (cs : List Char) : Except PathFault PathTemplate :=
  ((partsOf cs).mapM parseElement).map PathTemplate.mk

/-- The template that a text spells. -/
def parse (s : String) : Except PathFault PathTemplate := parseChars s.toList

/-! ### Writing -/

/-- Elements one after another; without elements, a slash. -/
def writeElements : List Element → String
  | [] => "/"
  | elements => String.join (elements.map Element.written)

/-- The normalized text of a template; its resource is known under this key. -/
def key (p : PathTemplate) : String := writeElements p.elements

/-- The path in which every variable with a known value is replaced by it. -/
def resolve (p : PathTemplate) (valueOf : String → Option Value) : String :=
  writeElements (p.elements.map fun
    | .literal s => .literal s
    | .var v => match valueOf v with
      | some value => .literal value.display
      | none => .var v)

/-! ### Relations -/

/-- The number of elements. -/
def levels (p : PathTemplate) : Nat := p.elements.length

/-- Whether two templates agree as far as the shorter one goes. -/
def agree (p q : PathTemplate) : Bool :=
  (p.elements.zip q.elements).all fun (a, b) => a.agrees b

/-- Same length and agreeing elements. -/
def isEquivalent (p q : PathTemplate) : Bool := p.levels = q.levels && p.agree q

/-- Shorter, and agreeing with the first elements of the other. -/
def isAncestorOf (p q : PathTemplate) : Bool := p.levels < q.levels && p.agree q

/-- Equivalent to the other or an ancestor of it. -/
def isSameOrAncestorOf (p q : PathTemplate) : Bool := p.isEquivalent q || p.isAncestorOf q

/-! ### Variables and segments -/

/-- The names of the variables, in order. -/
def variableNames (p : PathTemplate) : List String :=
  p.elements.filterMap fun
    | .var v => some v
    | .literal _ => none

/-- The literal elements, in order. -/
def literals (p : PathTemplate) : List String :=
  p.elements.filterMap fun
    | .literal s => some s
    | .var _ => none

/-- Whether there is a variable. -/
def hasVariables (p : PathTemplate) : Bool := p.elements.any Element.isVar

/-- Whether the last element is a variable. -/
def endsInVariable (p : PathTemplate) : Bool := (p.elements.getLast?.map Element.isVar).getD false

/-- The last literal element. -/
def lastLiteral? (p : PathTemplate) : Option String := p.literals.getLast?

/-- The literal last met before the first variable of a name; `last` is the one met so far. -/
def ownerFrom (last : Option String) (name : String) : List Element → Option String
  | [] => none
  | .literal s :: rest => ownerFrom (some s) name rest
  | .var v :: rest => if v = name then last else ownerFrom last name rest

/-- The segment that a variable belongs to: the nearest literal before it. -/
def segmentOf? (p : PathTemplate) (name : String) : Option String :=
  ownerFrom none name p.elements

/-- The segments that own a variable, each once; in their absence the last literal. -/
def segments (p : PathTemplate) : List String :=
  match (p.variableNames.filterMap p.segmentOf?).eraseDups with
  | [] => p.lastLiteral?.toList
  | owners => owners

/-- Something must be created before a call that creates `p`: it has variables but does not end in
one, or it has several. -/
def needsParent (p : PathTemplate) : Bool :=
  (p.hasVariables && !p.endsInVariable) || 2 ≤ p.variableNames.length

end PathTemplate

end RestScenario
