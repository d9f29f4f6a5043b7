import RestScenario.Engine.Proposal

/-!
# Mutating scenarios

An editor is an engine at work on one scenario. A mutator chooses one of the edits that apply to the
scenario, makes it and repairs the scenario. An edit that fails, or finds nothing to do, leaves the
scenario as it was; what the engine has used up stays used up.

A call that comes in anew follows the calls before its position.
-/

namespace RestScenario

/-- An engine at work on a scenario. -/
structure Editor where
  engine : Engine
  scenario : Scenario

/-- A computation of an editor. -/
abbrev Editing := ExceptT Error (StateM Editor)

namespace Editing

/-- Lets the engine work. -/
def compose {α : Type} (x : Composing α) : Editing α := fun ed =>
  let (r, engine) := x.run ed.engine
  (r, { ed with engine })

/-- The scenario in hand. -/
def scenario : Editing Scenario := return (← getThe Editor).scenario

/-- Changes the scenario. -/
def revise (change : Scenario → Except Error Scenario) : Editing Unit := fun ed =>
  match change ed.scenario with
  | .ok scenario => (.ok (), { ed with scenario })
  | .error e => (.error e, ed)

/-! ## The edits -/

/-- Removes a call that may be removed; gives its position. -/
def delete : Editing (Option Nat) := do
  let s ← scenario
  if s.length < Edit.delete.minCalls then return none
  else
    match ← compose (.draw (Random.choose s.deletablePositions)) with
    | none => return none
    | some position =>
      revise (·.removeCall position)
      return some position

/-- Exchanges two calls; gives their positions, the smaller first. -/
def swap : Editing (Option (Nat × Nat)) := do
  let s ← scenario
  if s.length < Edit.swap.minCalls then return none
  else
    let (a, b) ← compose (.draw (Random.chooseTwo s.length))
    revise (·.swapCalls (min a b) (max a b))
    return some (min a b, max a b)

/-- The position of any call; none in a scenario without calls. -/
def choosePosition (s : Scenario) : Composing (Option Nat) :=
  if s.calls.isEmpty then return none else some <$> .draw (Random.below64 s.length)

/-- Puts a call on a resource that is not used in the place of another; gives the position. -/
def replace : Editing (Option Nat) := do
  let s ← scenario
  match ← compose (choosePosition s) with
  | none => return none
  | some position =>
    let old ← s.call position
    let e := (← getThe Editor).engine
    match ← compose (.draw (Random.choose (e.unusedKeys s))) with
    | none => return none
    | some key =>
      match ← compose (.sampleAnyCall key (e.remainingBudget s + old.length)) with
      | none => return none
      | some c =>
        revise (·.replaceCall position (c.bindAt s position))
        return some position

/-- Another realization of the resource of a call: under another template that fits, else one action
alone. -/
def resample (c : Call) (budget : Nat) : Composing Call := do
  let options := (← getThe Engine).options budget
  match ← .sample (Sampler.generateAnother c options) with
  | some other => return other
  | none => .sample (Sampler.sampleOneAction c.resource)

/-- Samples a call anew on its resource; gives the position. -/
def modify : Editing (Option Nat) := do
  let s ← scenario
  match ← compose (choosePosition s) with
  | none => return none
  | some position =>
    let old ← s.call position
    let e := (← getThe Editor).engine
    let c ← compose (resample old (e.remainingBudget s + old.length))
    let seeded ← compose (.seedCall c false)
    revise (·.replaceCall position (seeded.bindAt s position))
    return some position

/-- A call to add: with the given chance one that some call depends on, else, or if there is none,
one on a resource that is not used. -/
def proposeCall (s : Scenario) (heuristics : Float) : Composing (Option Call) := do
  let guided ← if 0.0 < heuristics then .draw (Random.chance heuristics) else pure false
  let proposed ← if guided then .proposeDependency s else pure none
  match proposed with
  | some (c, _) => return some c
  | none => .proposeUnused s

/-- Adds a call, in front when no call needs a creation and at the end otherwise; gives its
position. -/
def add (heuristics : Float) : Editing (Option Nat) := do
  let s ← scenario
  match ← compose (proposeCall s heuristics) with
  | none => return none
  | some c =>
    let position := if s.allIndependent then 0 else s.length
    revise (·.addCall position (c.bindAt s position))
    return some position

end Editing

/-! ## Mutators -/

/-- Why no edit was made. -/
inductive Refusal where
  /-- No kind of edit applies to a scenario of so many calls. -/
  | noKind (calls : Nat) (origin : Origin)
  /-- The kind asked for does not apply. -/
  | kind (edit : Edit) (calls : Nat)
  /-- The kind applies, but nothing was found to edit. -/
  | noCandidate (edit : Edit)
deriving DecidableEq

/-- The wording of a refusal. -/
def Refusal.message : Refusal → String
  | noKind calls origin =>
    "no structural mutation applies to " ++ toString calls ++ " calls of " ++ origin.name
  | kind edit calls => edit.name ++ " does not apply to " ++ toString calls ++ " calls"
  | noCandidate edit => edit.name ++ " found no candidate"

/-- What came of a mutation. -/
inductive Outcome where
  /-- An edit was made at these positions of the mutated scenario. -/
  | applied (edit : Edit) (positions : List Nat)
  | notApplicable (reason : Refusal)
deriving DecidableEq

/-- The kind of the edit that was made. -/
def Outcome.edit? : Outcome → Option Edit
  | applied edit _ => some edit
  | notApplicable _ => none

/-- Whether an edit was made. -/
def Outcome.isApplied (o : Outcome) : Bool := o.edit?.isSome

/-- Chooses and makes edits. -/
structure Mutator where
  /-- Calls are added only to scenarios with fewer actions. -/
  maxTestSize : Nat
  /-- The chance that an added call follows a recorded dependency. -/
  dependencyHeuristics : Float

namespace Mutator

/-- The mutator of some settings. -/
def ofSettings (s : Settings) : Mutator := ⟨s.maxTestSize, s.dependencyHeuristics⟩

/-- Whether an edit applies to a scenario. -/
def applies (m : Mutator) (e : Engine) (s : Scenario) (edit : Edit) : Bool :=
  s.origin.isEditable && edit.minCalls ≤ s.length &&
    match edit with
    | .add => s.size < m.maxTestSize && !(e.unusedKeys s).isEmpty
    | .replace => !(e.unusedKeys s).isEmpty
    | .delete | .swap | .modify => true

/-- The kinds of edits that apply to a scenario. -/
def applicableKinds (m : Mutator) (e : Engine) (s : Scenario) : List Edit :=
  Edit.all.filter (m.applies e s)

/-- Makes an edit without looking whether it applies; gives the positions. -/
def perform (m : Mutator) : Edit → Editing (Option (List Nat))
  | .add => return (← Editing.add m.dependencyHeuristics).map ([·])
  | .delete => return (← Editing.delete).map ([·])
  | .swap => return (← Editing.swap).map fun p => [p.1, p.2]
  | .replace => return (← Editing.replace).map ([·])
  | .modify => return (← Editing.modify).map ([·])

/-- Makes an edit of a given kind, if it applies, and repairs the scenario. -/
def apply (m : Mutator) (edit : Edit) : Editing Outcome := do
  let ed ← getThe Editor
  if m.applies ed.engine ed.scenario edit then
    match ← m.perform edit with
    | some positions =>
      Editing.revise fun s => .ok s.repair
      return .applied edit positions
    | none => return .notApplicable (.noCandidate edit)
  else return .notApplicable (.kind edit ed.scenario.length)

/-- Makes an edit of a kind drawn from those that apply, and repairs the scenario. -/
def mutate (m : Mutator) : Editing Outcome := do
  let ed ← getThe Editor
  match ← Editing.compose (.draw (Random.choose (m.applicableKinds ed.engine ed.scenario))) with
  | some edit => m.apply edit
  | none => return .notApplicable (.noKind ed.scenario.length ed.scenario.origin)

end Mutator

end RestScenario
