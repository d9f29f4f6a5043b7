import RestScenario.Call
import RestScenario.Resource.Basic

/-!
# Sampling calls

A call is built from a template in two stages. `creationPlan` settles which creating actions come
before the target and how the creation ends; it looks at paths alone. Then values are drawn: for
the target, for each creating action from the nearest outwards, and for the actions that follow.
Every action takes over the path values of the one it belongs to, and `chainLocations` lets each
action after a shorter path refer to the location that the creation before it returns.

A sampler counts how often each template was realized. A call that cannot be built is not counted,
yet the random words it took stay used up.
-/

namespace RestScenario

open RestScenario.Random

/-- What one request for a call asks for. -/
structure SamplingOptions where
  /-- The largest number of actions the call may take. -/
  budget : Nat
  /-- Stop resolving creation once the budget is reached. -/
  checkSize : Bool
  /-- Create the resource when the template does. -/
  create : Bool
  /-- The chance of a second `PATCH` at the end of a creating template. -/
  extraPatch : Float

/-- A checked request with creation and without an extra `PATCH`. -/
def SamplingOptions.ofBudget (budget : Nat) : SamplingOptions := ⟨budget, true, true, 0.0⟩

/-! ## Which actions create the target -/

/-- The creator of an action is always below it: it has a shorter path, or the same length and
creates what `a` only uses. -/
def creationRank (a : Action) : Nat := 2 * a.path.levels + if a.verb = .post then 0 else 1

/-- The status of a call whose creation ended without a creator for `a`. -/
def missingCreator (a : Action) : CallStatus :=
  if a.verb = .post then .notFoundDependent else .notFound

/-- The status of a creation seen from the action that it is for. -/
def CallStatus.ofNested : CallStatus → CallStatus
  | created => created
  | notEnoughLength => notEnoughLength
  | _ => notFoundDependent

/-- The actions that create the target of a call, nearest first, and how the creation ends.
`length` counts the actions planned so far. -/
def creationPlan (sites : Sites) (options : SamplingOptions) (target : Action) (length : Nat) :
    List Action × CallStatus :=
  if target.verb = .post && !target.path.needsParent then ([], .created)
  else if options.checkSize && options.budget ≤ length then ([], .notEnoughLength)
  else
    match (sites.creatorsFor target.path target.name).head? with
    | none => ([], missingCreator target)
    | some creator =>
      if creationRank creator < creationRank target then
        let (outer, nested) := creationPlan sites options creator (length + 1)
        (creator :: outer, nested.ofNested)
      else ([], missingCreator target)
termination_by creationRank target

/-! ## Values and locations -/

/-- Draws values for the creators of an action, nearest first; each takes over the path values of
the action that it creates. -/
def drawCreators (target : Action) : List Action → Draw (List Action)
  | [] => return []
  | creator :: outer => do
    let drawn ← creator.randomize
    let post := drawn.followPath target
    let rest ← drawCreators post outer
    return post :: rest

/-- Links two actions of which the first creates what the second needs: on equivalent paths both
refer to one location, else the second refers to the location that the first saves. -/
def linkLocations (outer inner : Action) : Action × Action :=
  if outer.path.isEquivalent inner.path then (outer, { inner with locationId := outer.locationId })
  else
    ({ outer with savesLocation := true }, { inner with locationId := some outer.path.key })

/-- Links each action of a creation, outermost first, with the one after it. -/
def chainLocations : Action → List Action → List Action
  | a, [] => [a]
  | a, b :: rest =>
    let (a, b) := linkLocations a b
    a :: chainLocations b rest

/-- The actions of a creation up to its target, outermost first, with their locations. -/
def linkCreation (target : Action) (creators : List Action) : List Action :=
  match creators.reverse ++ [target] with
  | [] => []
  | a :: rest => chainLocations a rest

/-! ## Building a call -/

/-- A computation that builds calls from random words. -/
abbrev Drawing := ExceptT Error Draw

namespace ResourceModel

/-- The template of a resource under a name. -/
def template (m : ResourceModel) (key name : String) : Except Error Template := do
  let r ← m.resource key
  match r.templates.get? name with
  | some t => .ok t
  | none => .error (.unknownTemplate key name)

/-- The action of the resource with a verb. -/
def actionOf (m : ResourceModel) (key : String) (v : Verb) : Except Error Action := do
  let r ← m.resource key
  match r.action? v with
  | some a => .ok a
  | none => .error (.noActionForVerb key v)

/-- The action that a template aims at: that of its first verb other than `POST`, else the creating
action of the resource or of its nearest ancestor. -/
def targetOf (m : ResourceModel) (key : String) (verbs : List Verb) : Except Error Action := do
  match verbs.find? (· ≠ .post) with
  | some v => m.actionOf key v
  | none =>
    let r ← m.resource key
    match (r.action? .post).or (m.sites.creatorsFor r.path "").head? with
    | some a => .ok a
    | none => .error (.noActionForVerb key .post)

/-- An action after the target, with its values and location. -/
def followUp (m : ResourceModel) (key : String) (target : Action) (v : Verb) : Drawing Action := do
  let a ← m.actionOf key v
  let drawn ← a.randomize
  return { drawn.follow target with locationId := target.locationId }

/-- The actions after the target, one per verb. -/
def followUps (m : ResourceModel) (key : String) (target : Action) :
    List Verb → Drawing (List Action)
  | [] => return []
  | v :: rest => do
    let a ← m.followUp key target v
    let more ← m.followUps key target rest
    return a :: more

/-- Whether a second `PATCH` is appended to a call of `length` actions. A word is drawn only where
everything else admits it. -/
def wantsExtraPatch (options : SamplingOptions) (t : Template) (length : Nat) : Draw Bool :=
  if !t.independent && t.lists .patch && length < options.budget && 0.0 < options.extraPatch then
    chance (Number.smaller options.extraPatch 1.0)
  else return false

/-- Realizes a template on a resource. -/
def build (m : ResourceModel) (key name : String) (options : SamplingOptions) : Drawing Call := do
  let t ← m.template key name
  let verbs ← match t.verbs? with
    | some verbs => pure verbs
    | none => throw (.unknownTemplate key name)
  let entry ← m.targetOf key verbs
  let drawn ← entry.randomize
  let (creators, status) :=
    if options.create && verbs.head? = some .post then creationPlan m.sites options drawn 1
    else ([], .notExisting)
  let posts ← drawCreators drawn creators
  let created := linkCreation drawn posts
  let target := (created.getLast?).getD drawn
  let rest ← m.followUps key target ((verbs.dropWhile (· = .post)).drop 1)
  let extra ← wantsExtraPatch options t (created.length + rest.length)
  let last ← if extra then m.followUps key target [.patch] else pure []
  return .unseeded t (.ofAction key target) (created ++ rest ++ last) status

end ResourceModel

/-! ## Sampling with counts -/

/-- A resource model whose templates count their realizations, and the random words to come. -/
structure Sampler where
  model : ResourceModel
  source : Source

/-- A computation that samples calls. -/
abbrev Sampled := ExceptT Error (StateM Sampler)

namespace Sampler

/-- A draw that may fail; the words it took stay used up. -/
def draw {α : Type} (d : Drawing α) : Sampled α := fun s =>
  let (r, source) := d.run s.source
  (r, { s with source })

/-- A draw that cannot fail. -/
def drawAlways {α : Type} (d : Draw α) : Sampled α := draw (ExceptT.lift d)

/-- The resource of a key. -/
def resource (key : String) : Sampled Resource := do
  (← getThe Sampler).model.resource key

/-- Counts a template once more. -/
def visit (key name : String) : Sampled Unit :=
  modifyThe Sampler fun s => { s with model := s.model.visit key name }

/-- Realizes a template on a resource. -/
def generate (key name : String) (options : SamplingOptions) : Sampled Call := do
  let s ← getThe Sampler
  let call ← draw (s.model.build key name options)
  visit key name
  return call

/-- Realizes one of several templates, if there is any. -/
def generateOneOf (key : String) (names : List String) (options : SamplingOptions) :
    Sampled (Option Call) := do
  match ← drawAlways (choose names) with
  | some name => some <$> generate key name options
  | none => return none

/-- The action of a resource with a verb, alone, under the template named after the verb. -/
def sampleVerb (key : String) (v : Verb) : Sampled Call := do
  let r ← resource key
  match r.action? v with
  | none => throw (.noActionForVerb key v)
  | some entry =>
    let t := (r.templates.get? v.name).getD (.unvisited v.name (v ≠ .post) 1)
    let a ← drawAlways entry.randomize
    visit key v.name
    return .unseeded t (.ofAction key a) [a] .notExisting

/-- One action of a resource, alone. -/
def sampleOneAction (key : String) : Sampled Call := do
  let r ← resource key
  match ← drawAlways (choose r.actions) with
  | some a => sampleVerb key a.verb
  | none => throw (.unknownResource key)

/-- The least number of realizations among templates. -/
def fewestTimes? (ts : List Template) : Option Nat := (ts.map (·.times)).min?

/-- One of the least realized templates that fit the budget. -/
def sampleAny (key : String) (options : SamplingOptions) : Sampled (Option Call) := do
  let r ← resource key
  let fitting := r.templates.values.filter fun t => t.size ≤ options.budget
  match fewestTimes? fitting with
  | none => return none
  | some fewest =>
    generateOneOf key ((fitting.filter fun t => t.times = fewest).map (·.name)) options

/-- A template that fits the budget and needs no creation, else any that fits. -/
def sampleIndependent (key : String) (options : SamplingOptions) : Sampled (Option Call) := do
  let r ← resource key
  match (r.independentTemplates.filter fun t => t.size ≤ options.budget).map (·.name) with
  | [] => sampleAny key options
  | names => generateOneOf key names options

/-- The whole creation chain of a resource with its own `POST`, if it takes more than one. -/
def generatePostChain (key : String) (options : SamplingOptions) : Sampled (Option Call) := do
  let r ← resource key
  if !r.hasAction .post || r.creation.length ≤ 1 then return none
  else some <$> generate key Verb.post.name options

/-- The resource of a call under another template that fits the budget. -/
def generateAnother (c : Call) (options : SamplingOptions) : Sampled (Option Call) := do
  let r ← resource c.resource
  let others := r.templates.values.filter fun t =>
    t.name ≠ c.template.name && t.size ≤ options.budget
  generateOneOf c.resource (others.map (·.name)) options

end Sampler

end RestScenario
