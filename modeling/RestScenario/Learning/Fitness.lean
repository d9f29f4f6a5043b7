import RestScenario.Number.Compare
import RestScenario.Ordered.Map

/-!
# Fitness

The fitness of an evaluated scenario gives, for each testing target that it came near, the best
value reached, from 0 to 1, and the position of the action that reached it.

Actions of two scenarios are compared by the targets that they reach. More targets win; of equally
many, those that hold a target the others miss; of the same targets, the higher value on the first
target with different values.
-/

namespace RestScenario

/-- The best value on a target, and the action that reached it. -/
structure Reached where
  value : Float
  action : Nat
deriving DecidableEq

/-- The targets that a scenario came near. -/
structure Fitness where
  targets : SortedMap Nat Reached
deriving DecidableEq

/-- The judgement of a mutated scenario against the one it came from. -/
inductive Verdict where
  | better
  | equal
  | worse
deriving DecidableEq

namespace Verdict

/-- All verdicts. -/
def all : List Verdict := [better, equal, worse]

/-- The name of a verdict. -/
def name : Verdict → String
  | better => "Better"
  | equal => "Equal"
  | worse => "Worse"

/-- The verdict on what compares so. -/
def ofOrdering : Ordering → Verdict
  | .gt => better
  | .eq => equal
  | .lt => worse

end Verdict

namespace Fitness

/-- The fitness without targets. -/
def empty : Fitness := ⟨∅⟩

/-- Takes a value on a target into account, within 0 and 1; an older value that is as good stays. -/
def record (f : Fitness) (target : Nat) (value : Float) (action : Nat) : Fitness :=
  let new : Reached := ⟨Number.clampUnit value, action⟩
  ⟨f.targets.upsert target fun
    | some old => if new.value ≤ old.value then old else new
    | none => new⟩

/-- The targets that the actions at given positions reached, with the values. -/
def targetsAt (f : Fitness) (positions : List Nat) : List (Nat × Float) :=
  (f.targets.entries.filter fun e => positions.contains e.2.action).map fun e => (e.1, e.2.value)

/-- The first difference between values on the same targets. -/
def compareValues : List (Nat × Float) → List (Nat × Float) → Ordering
  | [], _ => .eq
  | (target, x) :: rest, others =>
    let y := (others.lookup target).getD 0.0
    if y < x then .gt else if x < y then .lt else compareValues rest others

/-- Whether some target is reached on the left and missed on the right. -/
def reachesMore (a b : List (Nat × Float)) : Bool :=
  a.any fun e => !(b.map (·.1)).contains e.1

/-- Compares reached targets; `gt` when the left ones are better. -/
def compareTargets (a b : List (Nat × Float)) : Ordering :=
  match compare a.length b.length with
  | .eq => if reachesMore a b then .gt else if reachesMore b a then .lt else compareValues a b
  | other => other

/-- Compares the actions at some positions of one scenario with those at some positions of
another. -/
def compareAt (a : Fitness) (positions : List Nat) (b : Fitness) (others : List Nat) : Ordering :=
  compareTargets (a.targetsAt positions) (b.targetsAt others)

/-- The positions of a name in a list. -/
def positionsOf (name : String) (names : List String) : List Nat :=
  (names.zipIdx.filter fun e => e.1 = name).map (·.2)

/-- Compares all actions of one name in two scenarios, whose action names are given in order. -/
def compareNamed (name : String) (a : Fitness) (names : List String) (b : Fitness)
    (others : List String) : Ordering :=
  a.compareAt (positionsOf name names) b (positionsOf name others)

end Fitness

end RestScenario
