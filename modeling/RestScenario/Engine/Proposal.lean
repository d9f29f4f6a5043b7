import RestScenario.Engine.Seeding

/-!
# Calls for a scenario

What an engine proposes as a further call: one on a given resource, one on a resource that the
scenario does not use, or one on a resource that some call of the scenario depends on.
-/

namespace RestScenario.Composing

/-- A call on a resource within a budget, seeded. With `create` the templates that create are
preferred; where none fits, fresh rows take the place of the creation. A call that has others in
front follows them. -/
def sampleCall (key : String) (create : Bool) (budget : Nat) (forced : Bool)
    (front : Option (List Call)) : Composing (Option Call) := do
  ensureInitialized
  let options := (← getThe Engine).options budget
  let creating ←
    if create then do
      let r ← sample (Sampler.resource key)
      let fitting := r.creatingTemplates.filter fun t => t.size ≤ budget
      sample (Sampler.generateOneOf key (fitting.map (·.name)) options)
    else pure none
  let sampled ← match creating with
    | some c => pure (some c)
    | none => sample (Sampler.sampleIndependent key options)
  match sampled with
  | none => return none
  | some c =>
    let seeded ← seedCall c (forced || (create && creating.isNone))
    match front with
    | some calls => return some (seeded.bindAfter calls [])
    | none => return some seeded

/-- A call on a resource under one of its least realized templates, seeded. -/
def sampleAnyCall (key : String) (budget : Nat) : Composing (Option Call) := do
  let options := (← getThe Engine).options budget
  match ← sample (Sampler.sampleAny key options) with
  | some c => some <$> seedCall c false
  | none => return none

/-- A call on a resource that a scenario does not use. -/
def proposeUnused (s : Scenario) : Composing (Option Call) := do
  let e ← getThe Engine
  match ← draw (Random.choose (e.unusedKeys s)) with
  | some key => sampleAnyCall key (e.remainingBudget s)
  | none => return none

/-! ## Following dependencies -/

/-- A dependency that a further call may follow. -/
structure Lead where
  source : String
  target : String
  chance : Float

/-- The leads that the relations of a source give: to targets that are not included, and for a
relation of a resource to itself also to one that is. -/
def leadsOf (e : Engine) (included : SortedSet String) (source : String) : List Lead :=
  (e.knowledge.relationsOf source).flatMap fun r =>
    (r.targets.toList.filter fun t => r.isOnSelf || t ∉ included).map fun t =>
      ⟨source, t, if r.isOnSelf then e.settings.selfRelation else r.probability⟩

/-- The leads that the calls of a scenario give. -/
def leads (e : Engine) (s : Scenario) : List Lead :=
  s.resourceKeys.toList.flatMap (leadsOf e s.resourceKeys)

/-- The leads whose chance comes true. Each is drawn for. -/
def drawLeads : List Lead → Composing (List Lead)
  | [] => return []
  | lead :: rest => do
    let passes ← draw (Random.chance (Number.clampUnit lead.chance))
    let more ← drawLeads rest
    return if passes then lead :: more else more

/-- A call on a resource that some call of a scenario depends on, with the key of the dependent
resource. If no chance comes true, all leads are considered. -/
def proposeDependency (s : Scenario) : Composing (Option (Call × String)) := do
  let e ← getThe Engine
  let all := leads e s
  let passed ← drawLeads all
  match ← draw (Random.choose (if passed.isEmpty then all else passed)) with
  | none => return none
  | some lead =>
    match ← sampleCall lead.target true (e.remainingBudget s) false none with
    | some c => return some (c, lead.source)
    | none => return none

end RestScenario.Composing
