import RestScenario.Error
import RestScenario.Learning.Fitness
import RestScenario.Learning.Knowledge

/-!
# What structural edits tell

A scenario is compared with the one from which an edit made it. Every call after the edit is
compared with itself before: an action with the name of an edited one by that name, any other at the
position that it had. A call that reaches other targets than before depends on the edited call, or
on one of two; a call that does not is independent of it.

The kind of the edit is read off the numbers and resources of the calls (`classify`), its place off
the first call that differs.
-/

namespace RestScenario

/-- The calls of a scenario with the fitness that they reached. -/
structure Evaluated where
  calls : List Call
  fitness : Fitness

namespace Evaluated

/-- The names of all actions in order. -/
def actionNames (e : Evaluated) : List String := e.calls.flatMap Call.actionNames

/-- The position of the first action of a call. -/
def startOf (e : Evaluated) (index : Nat) : Nat :=
  ((e.calls.take index).flatMap (·.actions)).length

/-- The positions of the actions of a call. -/
def positionsOf (e : Evaluated) (index : Nat) : List Nat :=
  match e.calls[index]? with
  | some c => (List.range c.length).map (e.startOf index + ·)
  | none => []

end Evaluated

namespace Inference

/-! ## The edit -/

/-- Whether two calls realize the same template on the same instance. -/
def sameCall (a b : Call) : Bool :=
  a.resource = b.resource && a.template.name = b.template.name && a.instanceKey = b.instanceKey

/-- The positions at which two lists of calls differ, as far as both go. -/
def mismatches (previous current : List Call) : List Nat :=
  ((previous.zip current).zipIdx.filter fun ((p, c), _) => !sameCall p c).map (·.2)

/-- The first position at which two lists of calls differ. -/
def firstMismatch (previous current : List Call) : Nat :=
  ((mismatches previous current).head?).getD (min previous.length current.length)

/-- The kind of the edit that turns one list of calls into another. -/
def classify (previous current : List Call) : Except Error Edit :=
  let before := previous.map Call.resource
  let after := current.map Call.resource
  if current.length = previous.length then
    if before = after then .ok .modify
    else if 1 < before.length && before.isPerm after then .ok .swap
    else .ok .replace
  else if current.length = previous.length + 1 then .ok .add
  else if current.length + 1 = previous.length then .ok .delete
  else .error (.undefinedMutation previous.length current.length)

/-! ## Comparing calls -/

/-- How an action at a position compares with itself before the edit; `none` when it was not there.
`distance` says how far the edit moved it. -/
def compareAction (previous current : Evaluated) (distance : Int) (edited : List String)
    (position : Nat) : Option Ordering :=
  match current.actionNames[position]? with
  | none => none
  | some name =>
    if edited.contains name then
      some (Fitness.compareNamed name current.fitness current.actionNames previous.fitness
        previous.actionNames)
    else
      let old := (position : Int) - distance
      if old < 0 then none
      else some (current.fitness.compareAt [position] previous.fitness [old.toNat])

/-- The comparisons of all actions of a call. -/
def compareCall (previous current : Evaluated) (distance : Int) (edited : List String)
    (index : Nat) : List Ordering :=
  (current.positionsOf index).filterMap (compareAction previous current distance edited)

/-- Whether some action of a call compares better or worse, and how many more better than worse. -/
def changeOf (comparisons : List Ordering) : Bool × Int :=
  (comparisons.any (· ≠ .eq), (comparisons.count .gt : Int) - comparisons.count .lt)

/-- Whether a call of the current scenario as a whole reaches other targets than one of the
previous. -/
def callChanged (previous : Evaluated) (old : Nat) (current : Evaluated) (new : Nat) : Bool :=
  current.fitness.compareAt (current.positionsOf new) previous.fitness (previous.positionsOf old)
    ≠ .eq

/-! ## Giving credit -/

/-- The probability of a dependency that alone explains a change. -/
def certain : Float := 1.0

/-- The probability of each of two dependencies that explain a change equally. -/
def halved : Float := 0.5

/-- A call after the edit depends on the edited one when its actions changed, and is independent of
it otherwise. -/
def creditOne (previous current : Evaluated) (distance : Int) (target : Call) (verdict : Verdict)
    (tag : String) (k : Knowledge) (index : Nat) : Knowledge :=
  match current.calls[index]? with
  | none => k
  | some c =>
    let comparisons := compareCall previous current distance target.actionNames index
    if verdict ≠ .equal && (changeOf comparisons).1 then
      k.updateDependency c.resource (.singleton target.resource) tag certain
    else k.recordNonDependency c.resource target.resource

/-- A call after the edit depends on `gained` when its actions got better, on `lost` when they got
worse, on both when they balance, and on neither when nothing changed. -/
def creditPair (previous current : Evaluated) (distance : Int) (gained lost : Call)
    (verdict : Verdict) (tag : String) (k : Knowledge) (index : Nat) : Knowledge :=
  match current.calls[index]? with
  | none => k
  | some c =>
    let edited := gained.actionNames ++ lost.actionNames
    let change := changeOf (compareCall previous current distance edited index)
    if verdict ≠ .equal && change.1 then
      if 0 < change.2 then
        k.updateDependency c.resource (.singleton gained.resource) tag certain
      else if change.2 < 0 then
        k.updateDependency c.resource (.singleton lost.resource) tag certain
      else
        (k.updateDependency c.resource (.singleton gained.resource) tag halved).updateDependency
          c.resource (.singleton lost.resource) tag halved
    else
      (k.recordNonDependency c.resource gained.resource).recordNonDependency c.resource
        lost.resource

/-- A moved call depends on all the calls that it moved past when it changed, and is independent of
them otherwise. -/
def creditMoved (changed : Bool) (moved : Call) (passed : List Call) (k : Knowledge) : Knowledge :=
  if changed then
    let probability := 1.0 / Float.ofNat passed.length
    passed.foldl (fun k other =>
      k.updateDependency moved.resource (.singleton other.resource) Edit.swap.name probability) k
  else passed.foldl (fun k other => k.recordNonDependency moved.resource other.resource) k

/-- The numbers from `first` up to `last`, without `last`. -/
def between (first last : Nat) : List Nat := (List.range (last - first)).map (first + ·)

/-- The calls at the positions from `first` up to `last`, without `last`. -/
def callsBetween (calls : List Call) (first last : Nat) : List Call :=
  (calls.take last).drop first

/-! ## By kind of edit -/

/-- A call was added: the calls behind it moved back by its length. -/
def afterAdd (previous current : Evaluated) (verdict : Verdict) (k : Knowledge) : Knowledge :=
  let location := firstMismatch previous.calls current.calls
  match current.calls[location]? with
  | none => k
  | some added =>
    (between (location + 1) current.calls.length).foldl
      (creditOne previous current added.length added verdict Edit.add.name) k

/-- A call was deleted: the calls behind it moved to the front by its length. -/
def afterDelete (previous current : Evaluated) (verdict : Verdict) (k : Knowledge) : Knowledge :=
  let location := firstMismatch previous.calls current.calls
  match previous.calls[location]? with
  | none => k
  | some deleted =>
    (between location current.calls.length).foldl
      (creditOne previous current (-(deleted.length : Int)) deleted verdict Edit.delete.name) k

/-- A call was sampled anew on its resource: the calls behind it moved by the difference of the
lengths. -/
def afterModify (previous current : Evaluated) (verdict : Verdict) (k : Knowledge) : Knowledge :=
  match (mismatches previous.calls current.calls).head? with
  | none => k
  | some location =>
    match current.calls[location]?, previous.calls[location]? with
    | some new, some old =>
      (between (location + 1) current.calls.length).foldl
        (creditOne previous current ((new.length : Int) - old.length) new verdict Edit.modify.name)
        k
    | _, _ => k

/-- A call was replaced by one on another resource. -/
def afterReplace (previous current : Evaluated) (verdict : Verdict) (k : Knowledge) :
    Except Error Knowledge :=
  match mismatches previous.calls current.calls with
  | [location] =>
    match current.calls[location]?, previous.calls[location]? with
    | some new, some old =>
      .ok ((between (location + 1) current.calls.length).foldl
        (creditPair previous current ((new.length : Int) - old.length) new old verdict
          Edit.replace.name) k)
    | _, _ => .ok k
  | changed => .error (.ambiguousEdit .replace changed.length)

/-- Two calls were exchanged. The one now in front was moved past the calls behind it up to the
other, and the other way round; the calls strictly between moved by the difference of the
lengths. -/
def afterSwap (previous current : Evaluated) (verdict : Verdict) (k : Knowledge) :
    Except Error Knowledge :=
  match mismatches previous.calls current.calls with
  | [p, q] =>
    match current.calls[p]?, current.calls[q]? with
    | some front, some back =>
      let judged := verdict ≠ .equal
      let k := creditMoved (judged && callChanged previous q current p) front
        (callsBetween current.calls (p + 1) (q + 1)) k
      let k := creditMoved (judged && callChanged previous p current q) back
        (callsBetween current.calls p q) k
      .ok ((between (p + 1) q).foldl
        (creditPair previous current ((front.length : Int) - back.length) front back verdict
          Edit.swap.name) k)
    | _, _ => .ok k
  | changed => .error (.ambiguousEdit .swap changed.length)

end Inference

/-- Learns from the evaluation of a scenario that an edit made from another one, with the verdict on
it; gives also the kind of the edit. -/
def Knowledge.learnFrom (k : Knowledge) (previous current : Evaluated) (verdict : Verdict) :
    Except Error (Edit × Knowledge) := do
  let kind ← Inference.classify previous.calls current.calls
  let learned ← match kind with
    | .add => pure (Inference.afterAdd previous current verdict k)
    | .delete => pure (Inference.afterDelete previous current verdict k)
    | .modify => pure (Inference.afterModify previous current verdict k)
    | .replace => Inference.afterReplace previous current verdict k
    | .swap => Inference.afterSwap previous current verdict k
  return (kind, learned)

end RestScenario
