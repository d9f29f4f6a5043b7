import RestScenario.Ordered.Set
import RestScenario.Resource.Site
import RestScenario.Resource.Template
import RestScenario.Similarity

/-!
# Resources

A resource is a site with what is known before any call is made: its creation chain, its templates,
and a record for each parameter of its actions that says whether the value must be one that exists
already and whether the creation of the resource provides it.
-/

namespace RestScenario

/-! ## Parameter records -/

/-- What is known of a parameter that actions of one resource share. -/
structure ParamRecord where
  key : String
  name : String
  /-- The literal path element that the parameter belongs to. -/
  segment : Option String
  /-- The value must be one that exists already. -/
  requiredToBind : Bool
  /-- A creating action provides the value. -/
  inCreationChain : Bool
  source : Param
  involvedVerbs : SortedSet Verb
deriving DecidableEq

namespace ParamRecord

/-- Segments more similar than this count as the same. -/
def segmentThreshold : Float := 0.5

/-- Whether two segments, or none on both sides, count as the same. -/
def sameSegment : Option String → Option String → Bool
  | some a, some b => segmentThreshold < Similarity.score a b
  | none, none => true
  | _, _ => false

/-- Whether an action has a parameter or body field of the name in the same segment. -/
def providedBy (post : Action) (name : String) (segment : Option String) : Bool :=
  post.params.any fun q =>
    (q.name = name || (q.field? name).isSome) && sameSegment segment (post.segmentOf? q)

/-- Whether a creating action other than `a` itself provides a parameter of `a`. -/
def providedByChain (a : Action) (p : Param) (chain : CreationChain) : Bool :=
  (chain.actions.filter fun post => post.name ≠ a.name).any fun post =>
    providedBy post p.name (a.segmentOf? p)

/-- The record of a parameter of one action. -/
def ofParam (chain : CreationChain) (a : Action) (p : Param) : ParamRecord where
  key := a.paramKey p
  name := p.name
  segment := a.segmentOf? p
  requiredToBind := p.isRequiredToBind
  inCreationChain := providedByChain a p chain
  source := p
  involvedVerbs := .singleton a.verb

/-- Notes that an action with a verb has the parameter too. -/
def involve (r : ParamRecord) (v : Verb) : ParamRecord :=
  { r with involvedVerbs := r.involvedVerbs.insert v }

/-- Whether the value is taken from a seeded row: values required to bind and body fields, unless a
creating action of the same call provides them. -/
def isBoundFromRows (r : ParamRecord) (created : Bool) : Bool :=
  (r.requiredToBind || r.source.isBody) && !(created && r.inCreationChain)

/-- Takes a parameter into the records: the first of a key makes the record, later ones involve
their verbs. -/
def note (chain : CreationChain) (records : SortedMap String ParamRecord) (use : Action × Param) :
    SortedMap String ParamRecord :=
  records.upsert (use.1.paramKey use.2) fun
    | some r => r.involve use.1.verb
    | none => ofParam chain use.1 use.2

/-- The records of all parameters of actions, by key. -/
def ofActions (chain : CreationChain) (actions : List Action) : SortedMap String ParamRecord :=
  (actions.flatMap fun a => a.params.map fun p => (a, p)).foldl (note chain) ∅

end ParamRecord

/-! ## Resources -/

/-- A site with its creation chain, templates and parameter records. -/
structure Resource extends Site where
  creation : CreationChain
  /-- The resource or an ancestor of it has a creating action. -/
  creatable : Bool
  templates : Templates
  params : SortedMap String ParamRecord
deriving DecidableEq

namespace Resource

/-- The key of a resource: its path template as text. -/
def key (r : Resource) : String := r.path.key

/-- One flag per verb in canonical order: whether the resource has an action with it, and for `POST`
also whether it is creatable. -/
def verbFlags (r : Resource) : List Bool :=
  Verb.all.map fun v => r.ownVerbs.contains v || (v = .post && r.creatable)

/-- Nothing creates the resource, and its only verb is `GET`. -/
def isIndependent (r : Resource) : Bool := !r.creatable && r.actions.all fun a => a.verb = .get

/-- Whether there is an action that creates nothing. -/
def hasIndependentAction (r : Resource) : Bool := r.actions.any fun a => a.verb ≠ .post

/-- Whether calls can be sampled from the resource. -/
def isSampleable (r : Resource) : Bool := !r.templates.isEmpty

/-- The templates that need no creation. -/
def independentTemplates (r : Resource) : List Template := r.templates.values.filter (·.independent)

/-- The templates that create. -/
def creatingTemplates (r : Resource) : List Template :=
  r.templates.values.filter fun t => !t.independent

/-- The record of a parameter of an action. -/
def record? (r : Resource) (a : Action) (p : Param) : Option ParamRecord :=
  r.params.get? (a.paramKey p)

/-- The resource of a site. -/
def ofSite (sites : Sites) (s : Site) : Resource :=
  let creation := sites.chainOf s
  let creatable := sites.isCreatable s
  { s with
    creation
    creatable
    templates := (Templates.ofVerbs s.ownVerbs creatable).growCreating creation.length
    params := ParamRecord.ofActions creation s.actions }

end Resource

/-! ## The resource model -/

/-- All resources of an API by key. -/
structure ResourceModel where
  resources : SortedMap String Resource
deriving DecidableEq

namespace ResourceModel

/-- The model without resources. -/
def empty : ResourceModel := ⟨∅⟩

/-- The sites of the resources. -/
def sites (m : ResourceModel) : Sites := m.resources.map fun _ r => r.toSite

/-- The model of a catalogue; two actions of one name are refused. -/
def ofCatalogue (c : Catalogue) : Except Error ResourceModel := do
  c.validate
  let sites := Sites.ofCatalogue c
  return ⟨sites.map fun _ s => Resource.ofSite sites s⟩

/-- The resource of a key, if there is one. -/
def get? (m : ResourceModel) (key : String) : Option Resource := m.resources.get? key

/-- The resource of a key. -/
def resource (m : ResourceModel) (key : String) : Except Error Resource :=
  match m.get? key with
  | some r => .ok r
  | none => .error (.unknownResource key)

/-- The keys of the resources from which calls can be sampled. -/
def sampleableKeys (m : ResourceModel) : List String :=
  (m.resources.values.filter (·.isSampleable)).map (·.key)

/-- Counts a template of a resource once more. -/
def visit (m : ResourceModel) (key template : String) : ResourceModel :=
  ⟨m.resources.modify key fun r =>
    { r with templates := SortedMap.modify r.templates template Template.visited }⟩

end ResourceModel

end RestScenario
