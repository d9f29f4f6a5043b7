import Mathlib.Data.List.Nodup
import RestScenario.Proofs.Learning.Edited

/-!
# Calls that an edit shifts

An edit changes one or two calls and leaves the others as they are. A call behind it, or between
two that were exchanged, is at one place before the edit and at another after it (`Shift`).

The calls before and after tell all of the edit: its kind (`Shift.classify_eq`), its place, which is
where the two lists differ (`firstMismatch_append`, `mismatches_replaced`, `mismatches_exchanged`),
and how far it shifts the actions behind it (`Shift.startOf_eq`).
-/

namespace RestScenario

namespace Inference

/-- `Shift kind edited old new previous current`: an edit of some calls turns `previous` into
`current`, and shifts one call that is not among them from place `old` to place `new`. -/
inductive Shift : Edit → List Call → Nat → Nat → List Call → List Call → Prop where
  | add {front back : List Call} {added : Call} {n : Nat}
      (fresh : ∀ c ∈ front ++ back, c.resource ≠ added.resource) (behind : n < back.length) :
      Shift .add [added] (front.length + n) (front.length + 1 + n) (front ++ back)
        (front ++ added :: back)
  | delete {front back : List Call} {deleted : Call} {n : Nat} (behind : n < back.length) :
      Shift .delete [deleted] (front.length + 1 + n) (front.length + n)
        (front ++ deleted :: back) (front ++ back)
  | modify {front back : List Call} {old new : Call} {n : Nat}
      (resource : new.resource = old.resource) (differs : sameCall old new = false)
      (behind : n < back.length) :
      Shift .modify [old, new] (front.length + 1 + n) (front.length + 1 + n)
        (front ++ old :: back) (front ++ new :: back)
  | replace {front back : List Call} {old new : Call} {n : Nat}
      (fresh : ∀ c ∈ front ++ old :: back, c.resource ≠ new.resource)
      (behind : n < back.length) :
      Shift .replace [old, new] (front.length + 1 + n) (front.length + 1 + n)
        (front ++ old :: back) (front ++ new :: back)
  | swap {front middle back : List Call} {a b : Call} {n : Nat} (inner : n < middle.length) :
      Shift .swap [a, b] (front.length + 1 + n) (front.length + 1 + n)
        (front ++ a :: (middle ++ b :: back)) (front ++ b :: (middle ++ a :: back))

/-! ## Resources before and after -/

variable {kind : Edit} {edited previous current : List Call} {old new : Nat} {c : Call}

theorem Shift.lt_length (h : Shift kind edited old new previous current) :
    new < current.length := by
  cases h <;> simp <;> omega

/-- Resources that were distinct before an edit are distinct after it. -/
theorem Shift.nodup_resources (h : Shift kind edited old new previous current)
    (hdistinct : (previous.map Call.resource).Nodup) : (current.map Call.resource).Nodup := by
  cases h with
  | @add front back added n fresh =>
    have perm : (front ++ added :: back).Perm (added :: (front ++ back)) := List.perm_middle
    refine (perm.map Call.resource).nodup_iff.2 (List.nodup_cons.2 ⟨fun hmem => ?_, hdistinct⟩)
    obtain ⟨c, hc, heq⟩ := List.mem_map.1 hmem
    exact fresh c hc heq
  | @delete front back deleted n =>
    exact hdistinct.sublist ((List.sublist_cons_self deleted back).append_left front |>.map _)
  | @modify front back old new n resource =>
    simpa [resource] using hdistinct
  | @replace front back old new n fresh =>
    have perm : (front ++ new :: back).Perm (new :: (front ++ back)) := List.perm_middle
    have kept : (front ++ back).Sublist (front ++ old :: back) :=
      (List.sublist_cons_self old back).append_left front
    refine (perm.map Call.resource).nodup_iff.2
      (List.nodup_cons.2 ⟨fun hmem => ?_, hdistinct.sublist (kept.map _)⟩)
    obtain ⟨c, hc, heq⟩ := List.mem_map.1 hmem
    exact fresh c (kept.subset hc) heq
  | @swap front middle back a b n =>
    exact (exchanged_perm.map Call.resource).nodup_iff.1 hdistinct

theorem resource_ne_of_nodup {front middle back : List Call} {a b : Call}
    (h : ((front ++ a :: (middle ++ b :: back)).map Call.resource).Nodup) :
    a.resource ≠ b.resource := by
  rw [List.map_append] at h
  have behind := (List.nodup_cons.1 (List.nodup_append.1 h).2.1).1
  intro heq
  rw [heq] at behind
  exact behind (List.mem_map_of_mem (by simp))

/-- The kind of an edit shows in the calls. -/
theorem Shift.classify_eq (h : Shift kind edited old new previous current)
    (hdistinct : (previous.map Call.resource).Nodup) : classify previous current = .ok kind := by
  cases h with
  | add => exact classify_added
  | delete => exact classify_deleted
  | modify resource => exact classify_of_resources (by simp [resource])
  | replace fresh => exact classify_replaced fresh
  | swap => exact classify_exchanged (resource_ne_of_nodup hdistinct)

/-! ## Where actions stand -/

/-- The number of actions of several calls. -/
def actionCount (calls : List Call) : Nat := (calls.flatMap (·.actions)).length

theorem actionCount_cons (c : Call) (rest : List Call) :
    actionCount (c :: rest) = c.length + actionCount rest := by
  simp [actionCount, Call.length]

theorem startOf_append {e : Evaluated} {front rest : List Call} (h : e.calls = front ++ rest)
    (n : Nat) : e.startOf (front.length + n) = actionCount front + actionCount (rest.take n) := by
  unfold Evaluated.startOf actionCount
  rw [h, List.take_length_add_append, List.flatMap_append, List.length_append]

theorem startOf_behind {e : Evaluated} {front back : List Call} {c : Call}
    (h : e.calls = front ++ c :: back) (n : Nat) :
    e.startOf (front.length + 1 + n) =
      actionCount front + (c.length + actionCount (back.take n)) := by
  rw [Nat.add_assoc, startOf_append h, Nat.add_comm 1, List.take_succ_cons, actionCount_cons]

/-- A call stands with all its actions in front of the calls behind it. -/
theorem length_le_startOf {e : Evaluated} {place index : Nat} {c : Call}
    (hc : e.calls[place]? = some c) (hbehind : place < index) : c.length ≤ e.startOf index := by
  obtain ⟨hplace, rfl⟩ := List.getElem?_eq_some_iff.1 hc
  have parts : e.calls = e.calls.take place ++ e.calls[place] :: e.calls.drop (place + 1) := by
    rw [← List.drop_eq_getElem_cons hplace, List.take_append_drop]
  have front : (e.calls.take place).length = place := List.length_take_of_le (Nat.le_of_lt hplace)
  obtain ⟨n, rfl⟩ := Nat.exists_eq_add_of_lt hbehind
  have start := startOf_behind parts n
  rw [front, Nat.add_right_comm] at start
  omega

/-- How far an edit of some calls shifts the actions behind it. -/
def displacement : Edit → List Call → Int
  | .add, [added] => added.length
  | .delete, [deleted] => -(deleted.length : Int)
  | _, [before, after] => (after.length : Int) - before.length
  | _, _ => 0

/-- **An edit shifts the actions of a call by its displacement**, for every kind. -/
theorem Shift.startOf_eq {previous current : Evaluated}
    (h : Shift kind edited old new previous.calls current.calls) :
    (current.startOf new : Int) = previous.startOf old + displacement kind edited := by
  generalize hp : previous.calls = previousCalls at h
  generalize hq : current.calls = currentCalls at h
  cases h with
  | add =>
    rw [startOf_behind hq, startOf_append hp, displacement]
    push_cast
    omega
  | delete =>
    rw [startOf_append hq, startOf_behind hp, displacement]
    push_cast
    omega
  | modify | replace =>
    rw [startOf_behind hq, startOf_behind hp]
    simp only [displacement]
    push_cast
    omega
  | swap inner =>
    rw [startOf_behind hq, startOf_behind hp, List.take_append_of_le_length (Nat.le_of_lt inner),
      List.take_append_of_le_length (Nat.le_of_lt inner)]
    simp only [displacement]
    push_cast
    omega

/-- The name of an action of a call stands where the call starts. -/
theorem actionNames_getElem? {e : Evaluated} {index i : Nat} {c : Call}
    (hc : e.calls[index]? = some c) (hi : i < c.length) :
    e.actionNames[e.startOf index + i]? = c.actionNames[i]? := by
  obtain ⟨hindex, rfl⟩ := List.getElem?_eq_some_iff.1 hc
  have start : e.startOf index = ((e.calls.take index).flatMap Call.actionNames).length := by
    simp [Evaluated.startOf, Call.actionNames, List.length_flatMap]
  have parts : e.actionNames = (e.calls.take index).flatMap Call.actionNames ++
      (e.calls[index].actionNames ++ (e.calls.drop (index + 1)).flatMap Call.actionNames) := by
    unfold Evaluated.actionNames
    conv_lhs => rw [← List.take_append_drop index e.calls, List.drop_eq_getElem_cons hindex]
    rw [List.flatMap_append, List.flatMap_cons]
  rw [parts, start, List.getElem?_append_right (by omega), Nat.add_sub_cancel_left,
    List.getElem?_append_left (by simpa [Call.actionNames, Call.length] using hi)]

end Inference

end RestScenario
