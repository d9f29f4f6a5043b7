import RestScenario.Number.Decimal
import RestScenario.Ordered.Set

/-!
# Relations between resources

A relation says that one resource depends on others, with a probability and the tags of the evidence
for it. A mutual relation holds among resources that share tables; each of them owns a copy. New
evidence never lowers a probability, and no tag is kept twice.
-/

namespace RestScenario

/-- The shape of a relation. -/
inductive RelationKind where
  /-- The source depends on the targets. -/
  | simple
  /-- All members share the tables; `confirmed` when rows were seen to be written. -/
  | shared (tables : SortedSet String) (confirmed : Bool)
  /-- The source depends on another instance of itself. -/
  | onSelf
deriving DecidableEq

/-- A dependency of one resource on others. -/
structure Relation where
  source : String
  targets : SortedSet String
  probability : Float
  kind : RelationKind
  /-- The tags of the evidence, oldest first. -/
  provenance : List String
deriving DecidableEq

/-- One key as it is; none or several in braces with commas between them. -/
def groupName : List String → String
  | [key] => key
  | keys => "\x7b" ++ String.intercalate "," keys ++ "\x7d"

namespace Relation

/-- A relation of one source with its targets. -/
def simple (source : String) (targets : SortedSet String) (probability : Float) (tag : String) :
    Relation where
  source := source
  targets := targets
  probability := Number.clampUnit probability
  kind := if targets.toList = [source] then .onSelf else .simple
  provenance := [tag]

/-- The copy that `source` owns of a mutual relation. -/
def shared (source : String) (members : SortedSet String) (table : String) (probability : Float)
    (confirmed : Bool) (tag : String) : Relation where
  source := source
  targets := members.filter (· ≠ source)
  probability := Number.clampUnit probability
  kind := .shared (.singleton table) confirmed
  provenance := [tag]

/-- Whether the source depends on another instance of itself. -/
def isOnSelf (r : Relation) : Bool := r.kind = .onSelf

/-- Whether the relation is mutual. -/
def isMutual (r : Relation) : Bool :=
  match r.kind with
  | .shared _ _ => true
  | _ => false

/-- The targets and the source. -/
def members (r : Relation) : SortedSet String := r.targets.insert r.source

/-- Whether all given targets are targets of the relation. -/
def covers (r : Relation) (targets : SortedSet String) : Bool := targets.isSubset r.targets

/-- The name of a relation. -/
def name (r : Relation) : String := r.source ++ "$->$" ++ groupName r.targets.toList

/-- The tags of the evidence in one text. -/
def provenanceTag (r : Relation) : String := String.intercalate ";" r.provenance

/-- The relation with its probability and evidence, as one line. -/
def display (r : Relation) : String :=
  r.name ++ " (" ++ Number.fixed 2 r.probability ++ ", " ++ r.provenanceTag ++ ")"

/-- Adds a tag that is not there yet. -/
def addTag (tags : List String) (tag : String) : List String :=
  if tags.contains tag then tags else tags ++ [tag]

/-- Takes new evidence into account. Evidence that conflicts with other knowledge counts only half,
together with the probability so far. An empty tag is not noted. -/
def reinforce (r : Relation) (probability : Float) (tag : String) (conflicting : Bool) : Relation :=
  let incoming := Number.clampUnit probability
  let candidate := if conflicting then (r.probability + incoming) / 2.0 else incoming
  { r with
    probability := Number.smaller (Number.larger r.probability candidate) 1.0
    provenance := if tag.isEmpty then r.provenance else addTag r.provenance tag }

/-- The shape of a relation that takes in another. -/
def RelationKind.merge : RelationKind → RelationKind → RelationKind
  | .shared tables confirmed, .shared tables' confirmed' =>
    .shared (tables.union tables') (confirmed || confirmed')
  | kind, _ => kind

/-- Takes in another relation with its members, probability and evidence. -/
def absorb (r other : Relation) : Relation :=
  { r with
    targets := r.targets.insertMany (other.members.toList.filter (· ≠ r.source))
    kind := RelationKind.merge r.kind other.kind
    probability := Number.larger r.probability other.probability
    provenance := other.provenance.foldl addTag r.provenance }

/-- Notes that a mutual relation rests on one table more. -/
def addTable (r : Relation) (table : String) (confirmed : Bool) : Relation :=
  match r.kind with
  | .shared tables was => { r with kind := .shared (tables.insert table) (was || confirmed) }
  | _ => r

end Relation

end RestScenario
