import RestScenario.Ordered.Map
import RestScenario.Text.Split
import RestScenario.Verb

/-!
# Call templates

A template names a combination of verbs that exercises a resource, such as `POST-GET`. Single verbs
other than `POST` are independent; the templates that start with `POST` create the resource first,
and their size counts the whole creation.
-/

namespace RestScenario

/-- A legal combination of verbs. -/
structure Template where
  name : String
  /-- Nothing has to be created to run it. -/
  independent : Bool
  /-- The least number of actions once creation is included. -/
  size : Nat
  /-- How often it has been sampled. -/
  times : Nat
deriving DecidableEq

namespace Template

/-- The character between two verbs of a name. -/
def separator : Char := '-'

/-- The parts of a name. -/
def parts (name : String) : List String :=
  (Text.splitAtEach separator name.toList).map String.ofList

/-- The verbs that a name lists; an empty name lists none. -/
def parseName? (name : String) : Option (List Verb) :=
  if name.isEmpty then none else (parts name).mapM Verb.parse?

/-- The name that lists the given verbs. -/
def nameOf (verbs : List Verb) : String := String.intercalate "-" (verbs.map Verb.name)

/-- A template that was never sampled. -/
def unvisited (name : String) (independent : Bool) (size : Nat) : Template :=
  ⟨name, independent, size, 0⟩

/-- The verbs of a template. -/
def verbs? (t : Template) : Option (List Verb) := parseName? t.name

/-- Whether the name lists a verb, spelled as it is. -/
def lists (t : Template) (v : Verb) : Bool := (parts t.name).contains v.name

/-- Whether the name has more than one part. -/
def isMultiVerb (t : Template) : Bool := t.name.toList.contains separator

/-- The template counted once more. -/
def visited (t : Template) : Template := { t with times := t.times + 1 }

end Template

/-- The templates of a resource by name. -/
abbrev Templates := SortedMap String Template

namespace Templates

/-- Files a template under its name. -/
def add (ts : Templates) (t : Template) : Templates := SortedMap.insert ts t.name t

/-- The templates that the verbs of a resource admit. A creatable resource has `POST`, and `POST`
before each of its other verbs. -/
def ofVerbs (own : List Verb) (creatable : Bool) : Templates :=
  let others := own.filter (· ≠ .post)
  let single := (others.map fun v => Template.unvisited v.name true 1).foldl add SortedMap.empty
  if creatable then
    (others.map fun v => Template.unvisited (Template.nameOf [.post, v]) false 2).foldl add
      (single.add (.unvisited Verb.post.name false 1))
  else single

/-- Counts the actions of a creation chain beyond the first in every template that creates. -/
def growCreating (ts : Templates) (chainLength : Nat) : Templates :=
  SortedMap.map (fun _ t =>
    if t.lists .post then { t with size := t.size + (chainLength - 1) } else t) ts

end Templates

end RestScenario
