import RestScenario.Engine.Proposal

/-!
# Composing scenarios

An engine composes scenarios in two ways. `adHocScenarios` makes one scenario for each way to start
on a resource: each action alone, the whole creation chain, and each template of several verbs; the
deepest resources come first. `relatedScenario` starts from a resource with known dependencies and
puts calls on what it depends on in front.
-/

namespace RestScenario.Composing

/-! ## Ways to start -/

/-- A way to start on a resource. -/
inductive Start where
  /-- One action alone. -/
  | action (verb : Verb)
  /-- The creation chain. -/
  | creation
  /-- A template of several verbs. -/
  | template (name : String)

/-- The ways to start on a resource, in order. -/
def startsOn (r : Resource) : List Start :=
  let reading := r.ownVerbs.filter fun v => v ≠ .post && v ≠ .put
  reading.map .action ++ (r.ownVerbs.filter (· = .post)).map .action ++ [.creation]
    ++ (r.ownVerbs.filter (· = .put)).map .action
    ++ ((r.templates.values.filter (·.isMultiVerb)).map (·.name)).map .template

/-- The call of a start, if it has one of its own. The creation chain is not limited by the
budget. -/
def sampleStart (key : String) (options : SamplingOptions) : Start → Sampled (Option Call)
  | .action v => some <$> Sampler.sampleVerb key v
  | .creation => do
    let chain ← Sampler.generatePostChain key { options with checkSize := false }
    return chain.filter fun c => 1 < c.length
  | .template name => some <$> Sampler.generate key name options

/-- The calls of several starts, in order. -/
def sampleStarts (options : SamplingOptions) : List (String × Start) → Sampled (List Call)
  | [] => return []
  | (key, start) :: rest => do
    let c ← sampleStart key options start
    let more ← sampleStarts options rest
    return c.toList ++ more

/-- The ways to start on the resources that can be sampled, longest paths first. -/
def allStarts (m : ResourceModel) : List (String × Start) :=
  let ready := m.resources.values.filter (·.isSampleable)
  let keys := ((ready.map fun r => (r.key, r.path)).mergeSort Sites.longerFirst).map (·.1)
  (keys.filterMap m.get?).flatMap fun r => (startsOn r).map (r.key, ·)

/-! ## Scenarios of one call -/

/-- The scenario of one call, with the given authentication in every action. -/
def scenarioOf (auth : Option Auth) (c : Call) : Composing Scenario := do
  let c ← seedCall { c with actions := c.actions.map fun a => { a with auth } } false
  return (Scenario.ofCalls [c] .smartWithoutDependencies).repair

/-- The scenarios of several calls, one each. -/
def scenariosOf (auth : Option Auth) : List Call → Composing (List Scenario)
  | [] => return []
  | c :: rest => do
    let s ← scenarioOf auth c
    let more ← scenariosOf auth rest
    return s :: more

/-- A scenario for each way to start. All calls are sampled before the first is seeded. -/
def adHocScenarios (auth : Option Auth) : Composing (List Scenario) := do
  ensureInitialized
  let e ← getThe Engine
  let calls ← sample (sampleStarts (e.options e.settings.maxTestSize) (allStarts e.model))
  scenariosOf auth calls

/-! ## Scenarios from dependencies -/

/-- Calls on the given resources, as far as the budget goes. -/
def sampleTargets : List String → Nat → Composing (List Call)
  | [], _ => return []
  | target :: rest, budget =>
    if budget = 0 then return []
    else do
      match ← sampleCall target true budget false none with
      | some c =>
        let more ← sampleTargets rest (budget - c.length)
        return c :: more
      | none => sampleTargets rest budget

/-- Adds a call at the end of a scenario, where it follows all others. -/
def append (s : Scenario) (c : Call) : Scenario :=
  { s with calls := s.calls ++ [c.bindAt s s.length] }

/-- The resources, other than the one of a key, that it depends on and that can be sampled. -/
def sampleableTargets (e : Engine) (key : String) : SortedSet String :=
  .ofList ((e.knowledge.relationsOf key).flatMap fun r =>
    r.targets.toList.filter fun t => t ≠ key && e.canSample t)

/-- A scenario on a resource with known dependencies, after calls on what it depends on. -/
def relatedScenario : Composing (Option Scenario) := do
  ensureInitialized
  let e ← getThe Engine
  let keys := e.knowledge.keysWithDependencies.filter e.canSample
  match ← draw (Random.choose keys) with
  | none => return none
  | some key =>
    let budget := e.settings.maxTestSize
    match ← sampleCall key true budget false none with
    | none => return none
    | some main =>
      let front ← sampleTargets (sampleableTargets e key).toList (budget - main.length)
      let start := Scenario.ofCalls [] .smartWithDependencies
      return some ((front ++ [main]).foldl append start).repair

end RestScenario.Composing
