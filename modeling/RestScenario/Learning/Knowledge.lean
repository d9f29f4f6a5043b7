import RestScenario.Call
import RestScenario.Learning.Relation
import RestScenario.Learning.Tables
import RestScenario.Similarity

/-!
# Knowledge of dependencies

What an engine has learned: relations between resources, pairs seen to be independent, and what is
known of each resource in relation to tables. Relations are kept in a list per source, and no two of
a list have the same targets.

New evidence for a relation that is there reinforces it. A mutual relation is filed under each of
its members; it takes in the other relations of the member that lie inside it.
-/

namespace RestScenario

/-- The relations of each source, in the order in which they were learned. -/
abbrev RelationStore := SortedMap String (List Relation)

/-- What an engine has learned. -/
structure Knowledge where
  /-- The least similarity of names that count as related. -/
  threshold : Float
  /-- Whether path elements are split into words where they match no table. -/
  tokenParser : Bool
  schema : Schema
  snapshot : Snapshot
  tables : SortedMap String TableKnowledge
  dependencies : RelationStore
  nonDependencies : SortedMap String (SortedSet String)
  initialized : Bool
deriving DecidableEq

namespace Knowledge

/-- Nothing learned. -/
def empty (threshold : Float) (tokenParser : Bool) : Knowledge :=
  ⟨threshold, tokenParser, ⟨[]⟩, .empty, ∅, ∅, ∅, false⟩

/-! ## Look-ups -/

/-- The relations of a source. -/
def relationsOf (k : Knowledge) (key : String) : List Relation := (k.dependencies.get? key).getD []

/-- The resources from which a source was seen to be independent. -/
def nonDependenciesOf (k : Knowledge) (key : String) : SortedSet String :=
  (k.nonDependencies.get? key).getD ∅

/-- Whether some relation of the source has the target. -/
def isDependent (k : Knowledge) (source target : String) : Bool :=
  (k.relationsOf source).any fun r => target ∈ r.targets

/-- Whether the source was seen to be independent of the target. -/
def isNonDependent (k : Knowledge) (source target : String) : Bool :=
  target ∈ k.nonDependenciesOf source

/-- Whether a source has a relation. -/
def hasDependencies (k : Knowledge) (key : String) : Bool := !(k.relationsOf key).isEmpty

/-- The sources that have a relation. -/
def keysWithDependencies (k : Knowledge) : List String :=
  (k.dependencies.entries.filter fun e => !e.2.isEmpty).map (·.1)

/-- The tables related to a resource. -/
def relatedTables (k : Knowledge) (key : String) : SortedSet String :=
  match k.tables.get? key with
  | some t => t.relatedTables
  | none => ∅

/-- The positions of the calls other than the one at `position` whose resource passes a test
together with the resource of that one. -/
def positionsRelated (test : String → String → Bool) (calls : List Call) (position : Nat) :
    List Nat :=
  match calls[position]? with
  | none => []
  | some c =>
    (calls.zipIdx.filter fun e => e.2 ≠ position && test c.resource e.1.resource).map (·.2)

/-- The positions of the calls that the call at `position` depends on. -/
def dependentCalls (k : Knowledge) (calls : List Call) (position : Nat) : List Nat :=
  positionsRelated k.isDependent calls position

/-- The positions of the calls that the call at `position` was seen to be independent of. -/
def nonDependentCalls (k : Knowledge) (calls : List Call) (position : Nat) : List Nat :=
  positionsRelated k.isNonDependent calls position

/-! ## New evidence -/

/-- Replaces the snapshot of existing rows. -/
def refreshSnapshot (k : Knowledge) (s : Snapshot) : Knowledge := { k with snapshot := s }

/-- Reinforces the first relation with the given targets, or adds one. -/
def reinforceOrAdd (source : String) (targets : SortedSet String) (tag : String)
    (probability : Float) (conflicting : Bool) : List Relation → List Relation
  | [] => [.simple source targets probability tag]
  | r :: rest =>
    if r.targets = targets then r.reinforce probability tag conflicting :: rest
    else r :: reinforceOrAdd source targets tag probability conflicting rest

/-- Takes evidence into account that a source depends on targets. It conflicts with earlier
knowledge when the source was seen to be independent of a target. No targets, no evidence. -/
def updateDependency (k : Knowledge) (source : String) (targets : SortedSet String) (tag : String)
    (probability : Float) : Knowledge :=
  if targets.isEmpty then k
  else
    let conflicting := targets.toList.any fun t => k.isNonDependent source t
    { k with
      dependencies := k.dependencies.upsert source fun rs =>
        reinforceOrAdd source targets tag probability conflicting (rs.getD []) }

/-- Notes that a source was seen to be independent of a target. Relations stay. -/
def recordNonDependency (k : Knowledge) (source target : String) : Knowledge :=
  { k with
    nonDependencies := k.nonDependencies.upsert source fun ts => (ts.getD ∅).insert target }

/-! ## Mutual relations -/

/-- Whether a relation is mutual and has all the members. -/
def isCovering (members : SortedSet String) (r : Relation) : Bool :=
  r.isMutual && members.isSubset r.members

/-- Whether a relation lies inside the given members. A relation of a source to itself never
does. -/
def isNarrower (scope : SortedSet String) (r : Relation) : Bool :=
  !r.isOnSelf && r.members.isSubset scope

/-- The relations of one member after evidence for a mutual relation: the first that covers the
members is reinforced, else a new one is made; it takes in what lies inside it and moves to the
end. -/
def mergeShared (member : String) (members : SortedSet String) (table : String)
    (probability : Float) (confirmed : Bool) (tag : String) (relations : List Relation) :
    List Relation :=
  let (base, others) :=
    match relations.find? (isCovering members) with
    | some r =>
      ((r.reinforce probability tag false).addTable table confirmed,
        relations.eraseP (isCovering members))
    | none => (.shared member members table probability confirmed tag, relations)
  let scope := base.members
  let narrower := others.filter (isNarrower scope)
  others.filter (fun r => !isNarrower scope r) ++ [narrower.foldl Relation.absorb base]

/-- Takes evidence into account that members share a table. -/
def updateShared (k : Knowledge) (members : SortedSet String) (table : String)
    (probability : Float) (confirmed : Bool) (tag : String) : Knowledge :=
  members.toList.foldl (fun k member =>
    { k with
      dependencies := k.dependencies.upsert member fun rs =>
        mergeShared member members table probability confirmed tag (rs.getD []) }) k

end Knowledge

end RestScenario
