import RestScenario.Database.Insertion
import RestScenario.Engine.Settings
import RestScenario.Learning.Derivation
import RestScenario.Sampling
import RestScenario.Scenario

/-!
# Engines

An engine holds everything that the making of scenarios draws on: settings, a resource model with
its sampling counts, random words, what was learned of dependencies, and the next row number. A
computation of an engine that fails keeps what it has used up.
-/

namespace RestScenario

/-- An engine that makes and edits scenarios. -/
structure Engine where
  settings : Settings
  sampler : Sampler
  knowledge : Knowledge
  /-- The number of the next row action. -/
  nextId : Nat
  /-- A resource model has been taken up. -/
  initialized : Bool

/-- A computation of an engine. -/
abbrev Composing := ExceptT Error (StateM Engine)

namespace Engine

/-- The engine of some settings, before it knows any resource. -/
def ofSettings (s : Settings) : Except Error Engine := do
  s.validate
  return {
    settings := s
    sampler := ⟨.empty, .ofSeed (UInt64.ofNat s.seed)⟩
    knowledge := .empty s.similarityThreshold s.tokenParser
    nextId := Supply.firstId
    initialized := false }

/-- Takes up a catalogue and a database; without one there are no tables. -/
def load (e : Engine) (c : Catalogue) (database : Option Database) : Except Error Engine := do
  let model ← ResourceModel.ofCatalogue c
  let database := database.getD .empty
  return { e with
    sampler := { e.sampler with model }
    knowledge := e.knowledge.init model database.schema database.snapshot
    initialized := true }

/-- The resource model of an engine. -/
def model (e : Engine) : ResourceModel := e.sampler.model

/-- A request within a budget. -/
def options (e : Engine) (budget : Nat) : SamplingOptions :=
  { SamplingOptions.ofBudget budget with extraPatch := e.settings.extraPatch }

/-- The number of actions that a scenario may still take. -/
def remainingBudget (e : Engine) (s : Scenario) : Nat := e.settings.maxTestSize - s.size

/-- The resources that can be sampled and that a scenario does not use. -/
def unusedKeys (e : Engine) (s : Scenario) : List String :=
  e.model.sampleableKeys.filter (· ∉ s.resourceKeys)

/-- Whether a key belongs to a resource that can be sampled. -/
def canSample (e : Engine) (key : String) : Bool := (e.model.get? key).any (·.isSampleable)

end Engine

namespace Composing

/-- Refuses to go on before a resource model is there. -/
def ensureInitialized : Composing Unit := do
  if !(← getThe Engine).initialized then throw .notInitialized

/-- Samples from the resource model. -/
def sample {α : Type} (x : Sampled α) : Composing α := fun e =>
  let (r, sampler) := x.run e.sampler
  (r, { e with sampler })

/-- A draw from the random words. -/
def draw {α : Type} (d : Random.Draw α) : Composing α := sample (Sampler.drawAlways d)

/-- Builds row actions; what comes of it is the result, a failure too. -/
def build {α : Type} (x : Building α) : Composing (Except Error α) := fun e =>
  let (r, supply) := x.run ⟨e.sampler.source, e.nextId⟩
  (.ok r, { e with sampler := { e.sampler with source := supply.source }, nextId := supply.nextId })

end Composing

end RestScenario
