import RestScenario.Proofs.Computation
import RestScenario.Proofs.Learning.Attribution

/-!
# Reading within range

The inference from an edit reads calls and actions by position, cuts windows out of the calls, shares
a probability among the calls of a window, and reckons where an action stood before the edit. It passes
over a place where there is nothing to read. `Inference.Strict` is the same inference without this way
out: there a place with nothing to read is a fault, and no result is given.

The kind of an edit is read off numbers and resources alone, so any two lists of calls may come here,
also such as no edit relates. Three facts keep the reads in range all the same. The first difference is
at a call of both lists, or at the end of the shorter one (`firstMismatch_le`). All differences are at
calls of both lists, in order (`lt_of_mismatches_eq_pair`). And an edit moves actions to the back by no
more than the length of the edited call, which stands in front of them afterwards (`length_le_startOf`).

Main statement: `inference_stays_in_range`.
-/

namespace RestScenario

namespace Inference

namespace Strict

/-! ## Reads -/

/-- Why a read gives nothing. -/
inductive Fault where
  /-- A list does not reach to the position. -/
  | outOfRange (position length : Nat)
  /-- A window ends before it begins, or beyond the calls. -/
  | noWindow (first last length : Nat)
  /-- A probability is shared among no calls. -/
  | emptyWindow
  /-- An action would have stood in front of the first one. -/
  | beforeFirst (position : Int)
deriving DecidableEq

/-- The member of a list at a position. -/
def readAt {α : Type} (xs : List α) (position : Nat) : Except Fault α :=
  match xs[position]? with
  | some x => .ok x
  | none => .error (.outOfRange position xs.length)

/-- The calls at the positions from `first` up to `last`, without `last`. -/
def window (calls : List Call) (first last : Nat) : Except Fault (List Call) :=
  if first ≤ last ∧ last ≤ calls.length then .ok (callsBetween calls first last)
  else .error (.noWindow first last calls.length)

/-- The probability of each of the calls of a window, which explain a change together. -/
def share (calls : List Call) : Except Fault Float :=
  if calls = [] then .error .emptyWindow else .ok (1.0 / Float.ofNat calls.length)

/-- Where an action at a position stood before the edit moved it by a distance. -/
def positionBefore (distance : Int) (position : Nat) : Except Fault Nat :=
  let old := (position : Int) - distance
  if old < 0 then .error (.beforeFirst old) else .ok old.toNat

/-- The positions of the actions of a call. -/
def positionsOf (e : Evaluated) (index : Nat) : Except Fault (List Nat) := do
  let c ← readAt e.calls index
  return (List.range c.length).map (e.startOf index + ·)

section Reads

variable {calls : List Call} {first last position old index : Nat} {distance : Int}

theorem readAt_eq_ok_iff {α : Type} {xs : List α} {x : α} :
    readAt xs position = .ok x ↔ xs[position]? = some x := by
  unfold readAt
  split <;> simp_all

theorem window_eq_ok_iff {found : List Call} :
    window calls first last = .ok found ↔
      first ≤ last ∧ last ≤ calls.length ∧ callsBetween calls first last = found := by
  unfold window
  split <;> simp_all

theorem share_eq_ok_iff {probability : Float} :
    share calls = .ok probability ↔
      calls ≠ [] ∧ 1.0 / Float.ofNat calls.length = probability := by
  unfold share
  split <;> simp_all

theorem positionBefore_eq_ok_iff :
    positionBefore distance position = .ok old ↔ (old : Int) + distance = position := by
  unfold positionBefore
  dsimp only
  split <;> simp <;> omega

example : positionBefore 3 2 = .error (.beforeFirst (-1)) := rfl

theorem positionsOf_eq_ok {e : Evaluated} {c : Call} (hc : e.calls[index]? = some c) :
    positionsOf e index = .ok (e.positionsOf index) := by
  refine bind_eq_ok.2 ⟨c, readAt_eq_ok_iff.2 hc, ?_⟩
  unfold Evaluated.positionsOf
  rw [hc]
  rfl

end Reads

/-! ## The inference

Each of these is what `Inference` has under the same name, with strict reads for all that it looks up.
Even what an equal verdict makes superfluous is read. -/

/-- How an action compares with itself before the edit. -/
def compareAction (previous current : Evaluated) (distance : Int) (edited : List String)
    (position : Nat) : Except Fault Ordering := do
  let name ← readAt current.actionNames position
  if edited.contains name then
    return Fitness.compareNamed name current.fitness current.actionNames previous.fitness
      previous.actionNames
  else
    let old ← positionBefore distance position
    return current.fitness.compareAt [position] previous.fitness [old]

/-- The comparisons of all actions of a call. -/
def compareCall (previous current : Evaluated) (distance : Int) (edited : List String)
    (index : Nat) : Except Fault (List Ordering) := do
  let positions ← positionsOf current index
  positions.mapM (compareAction previous current distance edited)

/-- Whether a call as a whole reaches other targets than one before the edit. -/
def callChanged (previous : Evaluated) (old : Nat) (current : Evaluated) (new : Nat) :
    Except Fault Bool := do
  let after ← positionsOf current new
  let before ← positionsOf previous old
  return current.fitness.compareAt after previous.fitness before ≠ .eq

/-- What the actions of a call tell of one edited call. -/
def creditOne (previous current : Evaluated) (distance : Int) (target : Call) (verdict : Verdict)
    (tag : String) (k : Knowledge) (index : Nat) : Except Fault Knowledge := do
  let c ← readAt current.calls index
  let comparisons ← compareCall previous current distance target.actionNames index
  return if verdict ≠ .equal && (changeOf comparisons).1 then
      k.updateDependency c.resource (.singleton target.resource) tag certain
    else k.recordNonDependency c.resource target.resource

/-- What the actions of a call tell of two edited calls. -/
def creditPair (previous current : Evaluated) (distance : Int) (gained lost : Call)
    (verdict : Verdict) (tag : String) (k : Knowledge) (index : Nat) : Except Fault Knowledge := do
  let c ← readAt current.calls index
  let comparisons ← compareCall previous current distance (gained.actionNames ++ lost.actionNames)
    index
  let change := changeOf comparisons
  return if verdict ≠ .equal && change.1 then
      if 0 < change.2 then
        k.updateDependency c.resource (.singleton gained.resource) tag certain
      else if change.2 < 0 then
        k.updateDependency c.resource (.singleton lost.resource) tag certain
      else
        (k.updateDependency c.resource (.singleton gained.resource) tag halved).updateDependency
          c.resource (.singleton lost.resource) tag halved
    else
      (k.recordNonDependency c.resource gained.resource).recordNonDependency c.resource
        lost.resource

/-- What a moved call tells of the calls that it moved past. -/
def creditMoved (changed : Bool) (moved : Call) (passed : List Call) (k : Knowledge) :
    Except Fault Knowledge :=
  if changed then do
    let probability ← share passed
    return passed.foldl (fun k other =>
      k.updateDependency moved.resource (.singleton other.resource) Edit.swap.name probability) k
  else
    return passed.foldl (fun k other => k.recordNonDependency moved.resource other.resource) k

/-- A call was added. -/
def afterAdd (previous current : Evaluated) (verdict : Verdict) (k : Knowledge) :
    Except Fault Knowledge := do
  let location := firstMismatch previous.calls current.calls
  let added ← readAt current.calls location
  (between (location + 1) current.calls.length).foldlM
    (creditOne previous current added.length added verdict Edit.add.name) k

/-- A call was deleted. -/
def afterDelete (previous current : Evaluated) (verdict : Verdict) (k : Knowledge) :
    Except Fault Knowledge := do
  let location := firstMismatch previous.calls current.calls
  let deleted ← readAt previous.calls location
  (between location current.calls.length).foldlM
    (creditOne previous current (-(deleted.length : Int)) deleted verdict Edit.delete.name) k

/-- A call was sampled anew on its resource. -/
def afterModify (previous current : Evaluated) (verdict : Verdict) (k : Knowledge) :
    Except Fault Knowledge :=
  match (mismatches previous.calls current.calls).head? with
  | none => return k
  | some location => do
    let new ← readAt current.calls location
    let old ← readAt previous.calls location
    (between (location + 1) current.calls.length).foldlM
      (creditOne previous current ((new.length : Int) - old.length) new verdict Edit.modify.name) k

/-- A call was replaced by one on another resource. -/
def afterReplace (previous current : Evaluated) (verdict : Verdict) (k : Knowledge) :
    Except Fault (Except Error Knowledge) :=
  match mismatches previous.calls current.calls with
  | [location] => do
    let new ← readAt current.calls location
    let old ← readAt previous.calls location
    let learned ← (between (location + 1) current.calls.length).foldlM
      (creditPair previous current ((new.length : Int) - old.length) new old verdict
        Edit.replace.name) k
    return .ok learned
  | changed => return .error (.ambiguousEdit .replace changed.length)

/-- Two calls were exchanged. -/
def afterSwap (previous current : Evaluated) (verdict : Verdict) (k : Knowledge) :
    Except Fault (Except Error Knowledge) :=
  match mismatches previous.calls current.calls with
  | [p, q] => do
    let front ← readAt current.calls p
    let back ← readAt current.calls q
    let judged := verdict ≠ .equal
    let passed ← window current.calls (p + 1) (q + 1)
    let frontChanged ← callChanged previous q current p
    let k ← creditMoved (judged && frontChanged) front passed k
    let preceding ← window current.calls p q
    let backChanged ← callChanged previous p current q
    let k ← creditMoved (judged && backChanged) back preceding k
    let learned ← (between (p + 1) q).foldlM
      (creditPair previous current ((front.length : Int) - back.length) front back verdict
        Edit.swap.name) k
    return .ok learned
  | changed => return .error (.ambiguousEdit .swap changed.length)

/-- What is learned from an edit of a kind. -/
def learnEdit (kind : Edit) (previous current : Evaluated) (verdict : Verdict) (k : Knowledge) :
    Except Fault (Except Error Knowledge) :=
  match kind with
  | .add => (afterAdd previous current verdict k).map .ok
  | .delete => (afterDelete previous current verdict k).map .ok
  | .modify => (afterModify previous current verdict k).map .ok
  | .replace => afterReplace previous current verdict k
  | .swap => afterSwap previous current verdict k

/-- Learns from the evaluation of two scenarios. An error says that they differ by more than an edit
explains, and is no fault. -/
def learnFrom (k : Knowledge) (previous current : Evaluated) (verdict : Verdict) :
    Except Fault (Except Error (Edit × Knowledge)) :=
  match classify previous.calls current.calls with
  | .error e => return .error e
  | .ok kind => do
    let learned ← learnEdit kind previous current verdict k
    return learned.map (kind, ·)

/-! ## Comparisons -/

variable {previous current : Evaluated} {distance : Int} {edited : List String} {verdict : Verdict}
  {tag : String} {index place : Nat} {c : Call} {k : Knowledge}

theorem compareAction_eq_ok {position : Nat} {name : String}
    (hname : current.actionNames[position]? = some name) (hbefore : distance ≤ position) :
    ∃ comparison, compareAction previous current distance edited position = .ok comparison ∧
      Inference.compareAction previous current distance edited position = some comparison := by
  unfold compareAction Inference.compareAction
  rw [hname, readAt_eq_ok_iff.2 hname]
  dsimp only
  by_cases hedited : edited.contains name = true
  · rw [if_pos hedited]
    exact ⟨_, if_pos hedited, rfl⟩
  · have hold : positionBefore distance position = .ok ((position : Int) - distance).toNat :=
      positionBefore_eq_ok_iff.2 (by omega)
    rw [if_neg hedited, if_neg (by omega)]
    refine ⟨_, ?_, rfl⟩
    show (if edited.contains name = true then _ else _) = _
    rw [if_neg hedited, hold]
    rfl

/-- The actions of a call are all there, and all were there before an edit that moved the call by no
more than its start. -/
theorem compareCall_eq_ok (hc : current.calls[index]? = some c)
    (hbefore : distance ≤ current.startOf index) :
    compareCall previous current distance edited index =
      .ok (Inference.compareCall previous current distance edited index) := by
  refine bind_eq_ok.2 ⟨_, positionsOf_eq_ok hc, mapM_eq_ok_filterMap fun position hposition => ?_⟩
  unfold Evaluated.positionsOf at hposition
  rw [hc] at hposition
  obtain ⟨i, hi, rfl⟩ := List.mem_map.1 hposition
  have hi : i < c.length := List.mem_range.1 hi
  have hlength : i < c.actionNames.length := by simpa [Call.actionNames, Call.length] using hi
  have hname : current.actionNames[current.startOf index + i]? = some c.actionNames[i] := by
    rw [actionNames_getElem? hc hi, List.getElem?_eq_getElem hlength]
  exact compareAction_eq_ok hname (by omega)

theorem callChanged_eq_ok {old new : Nat} (hnew : new < current.calls.length)
    (hold : old < previous.calls.length) :
    callChanged previous old current new = .ok (Inference.callChanged previous old current new) := by
  have hafter := positionsOf_eq_ok (List.getElem?_eq_getElem hnew)
  have hbefore := positionsOf_eq_ok (List.getElem?_eq_getElem hold)
  exact bind_eq_ok.2 ⟨_, hafter, bind_eq_ok.2 ⟨_, hbefore, rfl⟩⟩

/-! ## Credits -/

theorem creditOne_eq_ok {target : Call} (hc : current.calls[index]? = some c)
    (hbefore : distance ≤ current.startOf index) :
    creditOne previous current distance target verdict tag k index =
      .ok (Inference.creditOne previous current distance target verdict tag k index) := by
  refine bind_eq_ok.2 ⟨c, readAt_eq_ok_iff.2 hc, bind_eq_ok.2 ⟨_, compareCall_eq_ok hc hbefore, ?_⟩⟩
  unfold Inference.creditOne
  rw [hc]
  rfl

theorem creditPair_eq_ok {gained lost : Call} (hc : current.calls[index]? = some c)
    (hbefore : distance ≤ current.startOf index) :
    creditPair previous current distance gained lost verdict tag k index =
      .ok (Inference.creditPair previous current distance gained lost verdict tag k index) := by
  refine bind_eq_ok.2 ⟨c, readAt_eq_ok_iff.2 hc, bind_eq_ok.2 ⟨_, compareCall_eq_ok hc hbefore, ?_⟩⟩
  unfold Inference.creditPair
  rw [hc]
  rfl

/-- Where a call moved past others, its change can be shared among them. -/
theorem creditMoved_eq_ok {changed : Bool} {moved : Call} {passed : List Call} (h : passed ≠ []) :
    creditMoved changed moved passed k = .ok (Inference.creditMoved changed moved passed k) := by
  unfold creditMoved Inference.creditMoved
  split
  · exact bind_eq_ok.2 ⟨_, share_eq_ok_iff.2 ⟨h, rfl⟩, rfl⟩
  · rfl

/-- **A walk over calls stays in range**, when the edit moved none of them to the back by more than its
start. -/
theorem walk_eq_ok {strict : Knowledge → Nat → Except Fault Knowledge}
    {step : Knowledge → Nat → Knowledge} {first last : Nat} (hlast : last ≤ current.calls.length)
    (hstart : ∀ index, first ≤ index → distance ≤ current.startOf index)
    (hstep : ∀ k index c, current.calls[index]? = some c → distance ≤ current.startOf index →
      strict k index = .ok (step k index)) :
    (between first last).foldlM strict k = .ok ((between first last).foldl step k) := by
  refine foldlM_eq_ok_foldl (fun k index hindex => ?_) k
  obtain ⟨hfirst, hlt⟩ := mem_between.1 hindex
  have hc := List.getElem?_eq_getElem (Nat.lt_of_lt_of_le hlt hlast)
  exact hstep k index _ hc (hstart index hfirst)

/-! ## By kind of edit -/

theorem afterAdd_eq_ok (hlength : current.calls.length = previous.calls.length + 1) :
    afterAdd previous current verdict k = .ok (Inference.afterAdd previous current verdict k) := by
  have hplace := firstMismatch_le previous.calls current.calls
  have hlt : firstMismatch previous.calls current.calls < current.calls.length := by omega
  have hadded := List.getElem?_eq_getElem hlt
  refine bind_eq_ok.2 ⟨_, readAt_eq_ok_iff.2 hadded, ?_⟩
  unfold Inference.afterAdd
  dsimp only
  rw [hadded]
  refine walk_eq_ok (Nat.le_refl _) (fun index hindex => ?_) fun _ _ _ => creditOne_eq_ok
  exact_mod_cast length_le_startOf hadded hindex

theorem afterDelete_eq_ok (hlength : current.calls.length + 1 = previous.calls.length) :
    afterDelete previous current verdict k =
      .ok (Inference.afterDelete previous current verdict k) := by
  have hplace := firstMismatch_le previous.calls current.calls
  have hlt : firstMismatch previous.calls current.calls < previous.calls.length := by omega
  have hdeleted := List.getElem?_eq_getElem hlt
  refine bind_eq_ok.2 ⟨_, readAt_eq_ok_iff.2 hdeleted, ?_⟩
  unfold Inference.afterDelete
  dsimp only
  rw [hdeleted]
  -- a deletion moves actions to the front alone
  exact walk_eq_ok (Nat.le_refl _) (fun _ _ => by omega) fun _ _ _ => creditOne_eq_ok

/-- A call that takes the place of another moves the actions behind it by no more than its length. -/
theorem difference_le_startOf {new : Call} (old : Call) (hnew : current.calls[place]? = some new)
    (hbehind : place < index) : (new.length : Int) - old.length ≤ current.startOf index := by
  have := length_le_startOf hnew hbehind
  omega

theorem afterModify_eq_ok :
    afterModify previous current verdict k =
      .ok (Inference.afterModify previous current verdict k) := by
  unfold afterModify Inference.afterModify
  cases hfirst : (mismatches previous.calls current.calls).head? with
  | none => rfl
  | some location =>
    obtain ⟨hprevious, hcurrent⟩ := lt_length_of_mem_mismatches (List.mem_of_mem_head? hfirst)
    have hnew := List.getElem?_eq_getElem hcurrent
    have hold := List.getElem?_eq_getElem hprevious
    dsimp only
    rw [hnew, hold]
    refine bind_eq_ok.2 ⟨_, readAt_eq_ok_iff.2 hnew, bind_eq_ok.2 ⟨_, readAt_eq_ok_iff.2 hold, ?_⟩⟩
    exact walk_eq_ok (Nat.le_refl _) (fun _ => difference_le_startOf _ hnew) fun _ _ _ =>
      creditOne_eq_ok

theorem afterReplace_eq_ok :
    afterReplace previous current verdict k =
      .ok (Inference.afterReplace previous current verdict k) := by
  unfold afterReplace Inference.afterReplace
  rcases hplaces : mismatches previous.calls current.calls with _ | ⟨location, _ | ⟨other, rest⟩⟩
  case cons.nil =>
    obtain ⟨hprevious, hcurrent⟩ : location < previous.calls.length ∧ location < current.calls.length :=
      lt_length_of_mem_mismatches (by rw [hplaces]; exact List.mem_singleton_self _)
    have hnew := List.getElem?_eq_getElem hcurrent
    have hold := List.getElem?_eq_getElem hprevious
    dsimp only
    rw [hnew, hold]
    refine bind_eq_ok.2 ⟨_, readAt_eq_ok_iff.2 hnew, bind_eq_ok.2 ⟨_, readAt_eq_ok_iff.2 hold, ?_⟩⟩
    refine bind_eq_ok.2 ⟨_, ?_, rfl⟩
    exact walk_eq_ok (Nat.le_refl _) (fun _ => difference_le_startOf _ hnew) fun _ _ _ =>
      creditPair_eq_ok
  -- no place that differs, or more than one, and nothing is read
  all_goals rfl

theorem afterSwap_eq_ok :
    afterSwap previous current verdict k = .ok (Inference.afterSwap previous current verdict k) := by
  unfold afterSwap Inference.afterSwap
  rcases hplaces : mismatches previous.calls current.calls with
    _ | ⟨p, _ | ⟨q, _ | ⟨other, rest⟩⟩⟩
  case cons.cons.nil =>
    obtain ⟨hpq, hprevious, hcurrent⟩ := lt_of_mismatches_eq_pair hplaces
    have hfront := List.getElem?_eq_getElem (Nat.lt_trans hpq hcurrent)
    have hback := List.getElem?_eq_getElem hcurrent
    -- one of the exchanged calls is in each window
    have hpassed : callsBetween current.calls (p + 1) (q + 1) ≠ [] :=
      List.ne_nil_of_mem (mem_callsBetween.2 ⟨q, mem_between.2 ⟨hpq, Nat.lt_succ_self q⟩, hback⟩)
    have hpreceding : callsBetween current.calls p q ≠ [] :=
      List.ne_nil_of_mem (mem_callsBetween.2 ⟨p, mem_between.2 ⟨Nat.le_refl p, hpq⟩, hfront⟩)
    dsimp only
    rw [hfront, hback]
    refine bind_eq_ok.2 ⟨_, readAt_eq_ok_iff.2 hfront, bind_eq_ok.2 ⟨_, readAt_eq_ok_iff.2 hback, ?_⟩⟩
    refine bind_eq_ok.2 ⟨_, window_eq_ok_iff.2 ⟨by omega, hcurrent, rfl⟩, ?_⟩
    refine bind_eq_ok.2 ⟨_, callChanged_eq_ok (Nat.lt_trans hpq hcurrent) hprevious, ?_⟩
    refine bind_eq_ok.2 ⟨_, creditMoved_eq_ok hpassed, ?_⟩
    refine bind_eq_ok.2 ⟨_, window_eq_ok_iff.2 ⟨Nat.le_of_lt hpq, Nat.le_of_lt hcurrent, rfl⟩, ?_⟩
    refine bind_eq_ok.2 ⟨_, callChanged_eq_ok hcurrent (Nat.lt_trans hpq hprevious), ?_⟩
    refine bind_eq_ok.2 ⟨_, creditMoved_eq_ok hpreceding, ?_⟩
    refine bind_eq_ok.2 ⟨_, ?_, rfl⟩
    exact walk_eq_ok (Nat.le_of_lt hcurrent) (fun _ => difference_le_startOf _ hfront) fun _ _ _ =>
      creditPair_eq_ok
  all_goals rfl

theorem learnEdit_eq_ok {kind : Edit}
    (hkind : classify previous.calls current.calls = .ok kind) :
    learnEdit kind previous current verdict k =
      .ok (Inference.learnEdit kind previous current verdict k) := by
  unfold classify at hkind
  dsimp only at hkind
  unfold learnEdit
  cases kind with
  | add =>
    rw [afterAdd_eq_ok (by grind)]
    rfl
  | delete =>
    rw [afterDelete_eq_ok (by grind)]
    rfl
  | modify =>
    rw [afterModify_eq_ok]
    rfl
  | replace => exact afterReplace_eq_ok
  | swap => exact afterSwap_eq_ok

end Strict

end Inference

/-- **The inference stays in range.** Whatever the two lists of calls are, empty ones and such as no
edit relates included, whatever the scores, the verdict and what was known: no read is a fault. Calls,
actions and windows are there where they are looked for, no probability is shared among no calls, and
no action would have stood in front of the first one. What is given, a result or an error, is what the
inference gives that would have passed over faults. -/
theorem inference_stays_in_range (k : Knowledge) (previous current : Evaluated) (verdict : Verdict) :
    Inference.Strict.learnFrom k previous current verdict =
      .ok (k.learnFrom previous current verdict) := by
  rw [Inference.learnFrom_eq]
  unfold Inference.Strict.learnFrom
  cases hkind : Inference.classify previous.calls current.calls with
  | error e => rfl
  | ok kind => exact bind_eq_ok.2 ⟨_, Inference.Strict.learnEdit_eq_ok hkind, rfl⟩

end RestScenario
