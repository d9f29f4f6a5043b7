import RestScenario.Engine.Composition
import RestScenario.Engine.Mutation

/-!
# The report of a run

A run lists the resources with their creation chains, templates and relations, then the seed
scenarios with the mutations that are made of each. Lines are written as the work goes on, so those
before a failure stand.
-/

namespace RestScenario.Program

/-- A title underlined. -/
def heading (title : String) : List String := [title, "========="]

/-- Words with blanks between them. -/
def spaced (words : List String) : String := String.intercalate " " words

/-! ## Resources -/

/-- How far a creation chain is resolved. -/
def chainState : ChainStatus → String
  | .complete => "complete"
  | .incomplete unresolved => "incomplete at " ++ unresolved

/-- The lines on a resource. -/
def resourceLines (k : Knowledge) (r : Resource) : List String :=
  let chain := String.intercalate ", " (r.creation.actions.map Action.name)
  [r.key,
    "  chain:     [" ++ chain ++ "] (" ++ chainState r.creation.status ++ ")",
    "  templates: " ++ spaced r.templates.keys]
    ++ (k.relationsOf r.key).map fun relation => "  relation:  " ++ relation.display

/-- The part of the report on resources. -/
def resourcePart (e : Engine) : List String :=
  heading "Resources" ++ e.model.resources.values.flatMap (resourceLines e.knowledge) ++ [""]

/-! ## Mutations -/

/-- Positions in brackets. -/
def positionList (positions : List Nat) : String :=
  "[" ++ String.intercalate ", " (positions.map toString) ++ "]"

/-- The line on a mutation and the scenario that it left. -/
def outcomeLine (s : Scenario) : Outcome → String
  | .applied edit positions =>
    "  " ++ edit.name ++ " at " ++ positionList positions ++ " -> " ++ spaced s.actionNames
  | .notApplicable reason => "  skipped: " ++ reason.message

/-- Lines with what they came to. -/
structure Report (α : Type) where
  lines : List String
  result : Except Error α

/-- Goes on after a report that did not fail. -/
def Report.andThen {α β : Type} (r : Report α) (next : α → Report β) : Report β :=
  match r.result with
  | .ok a =>
    let rest := next a
    { rest with lines := r.lines ++ rest.lines }
  | .error e => ⟨r.lines, .error e⟩

/-- Mutates a scenario a number of times. -/
def mutations (m : Mutator) : Nat → Editor → Report Engine
  | 0, ed => ⟨[], .ok ed.engine⟩
  | rounds + 1, ed =>
    match m.mutate.run ed with
    | (.ok outcome, ed) =>
      let rest := mutations m rounds ed
      { rest with lines := outcomeLine ed.scenario outcome :: rest.lines }
    | (.error e, _) => ⟨[], .error e⟩

/-- The lines on numbered seed scenarios and their mutations. -/
def seedLines (m : Mutator) (rounds : Nat) : List (Scenario × Nat) → Engine → Report Unit
  | [], _ => ⟨[], .ok ()⟩
  | (s, n) :: rest, e =>
    let title := "#" ++ toString n ++ " " ++ spaced s.actionNames
    (Report.mk [title] (.ok ())).andThen fun _ =>
      (mutations m rounds ⟨e, s⟩).andThen fun e => seedLines m rounds rest e

/-- The part of the report on seed scenarios. -/
def seedPart (e : Engine) (rounds : Nat) : Report Unit :=
  match (Composing.adHocScenarios none).run e with
  | (.error error, _) => ⟨[], .error error⟩
  | (.ok seeds, e) =>
    let title := heading ("Seeds (" ++ toString seeds.length ++ ")")
    (Report.mk title (.ok ())).andThen fun _ =>
      seedLines (.ofSettings e.settings) rounds seeds.zipIdx e

/-- The whole report of an engine. -/
def report (e : Engine) (rounds : Nat) : Report Unit :=
  (Report.mk (resourcePart e) (.ok ())).andThen fun _ => seedPart e rounds

end RestScenario.Program
