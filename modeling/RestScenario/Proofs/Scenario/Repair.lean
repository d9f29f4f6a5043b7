import RestScenario.Proofs.Action.Sharing
import RestScenario.Proofs.Outline
import RestScenario.Proofs.Scenario.References

/-!
# Repeated repairs

A repair gives the actions of a call the path values of its target as they are when the repair
begins, while it lets the target share its values among equal names like any other action. If a
query parameter leads under the name of a path parameter of the target, the target ends up with
another path value than the one it handed on, and the next repair hands on the new one. So a repair
need not be settled; the second one is, and the first one is exactly where the paths of all targets
are settled to begin with (`second_repair_is_settled`).

References play no part in this: those that are in order are left alone.
-/

namespace RestScenario

/-! ## References -/

theorem repair_of_inOrder {seen : SeenRows} {r : Reference} (h : r.inOrder seen = true) :
    r.repair seen = r := by
  unfold Reference.repair
  rw [if_pos h]

theorem repairAfter_of_inOrderAfter {seen : SeenRows} {rows : List RowAction}
    (h : inOrderAfter seen rows = true) : repairAfter seen rows = rows := by
  induction rows generalizing seen with
  | nil => rfl
  | cons a rest ih =>
    rw [inOrderAfter, Bool.and_eq_true, List.all_eq_true] at h
    obtain ⟨hrefs, hrest⟩ := h
    have kept : a.references.map (·.repair seen) = a.references :=
      map_eq_self_iff.2 fun r hr => repair_of_inOrder (hrefs r hr)
    rw [repairAfter, kept, ih hrest]

theorem repairReferences_of_referencesInOrder {preceding rows : List RowAction}
    (h : referencesInOrder preceding rows = true) : repairReferences preceding rows = rows :=
  repairAfter_of_inOrderAfter h

namespace Scenario

theorem repairCalls_of_callsInOrder {preceding : List RowAction} {calls : List Call}
    (h : callsInOrder preceding calls = true) : repairCalls preceding calls = calls := by
  induction calls generalizing preceding with
  | nil => rfl
  | cons c rest ih =>
    rw [callsInOrder, Bool.and_eq_true] at h
    obtain ⟨hrows, hrest⟩ := h
    rw [repairCalls, repairReferences_of_referencesInOrder hrows, ih hrest]

theorem repairReferences_of_referencesInOrder {s : Scenario} (h : s.referencesInOrder = true) :
    s.repairReferences = s := by
  unfold referencesInOrder at h
  rw [Bool.and_eq_true] at h
  obtain ⟨hsetup, hcalls⟩ := h
  unfold repairReferences
  rw [RestScenario.repairReferences_of_referencesInOrder hsetup]
  dsimp only
  rw [repairCalls_of_callsInOrder hcalls]

end Scenario

/-! ## Targets -/

namespace Call

variable {c : Call} {target : Action} {i : Nat}

/-- The action that the others take their path values from. -/
def target? (c : Call) : Option Action := c.targetIndex?.bind (c.actions[·]?)

theorem targetIndex?_eq : c.targetIndex? =
    let levels := (c.actions.map (·.path)).map PathTemplate.levels
    levels.findIdx? (· = levels.foldl max 0) := by
  dsimp only
  rw [List.map_map, List.findIdx?_map]
  rfl

theorem paths_realign : c.realign.actions.map (·.path) = c.actions.map (·.path) := by
  have houtline := congrArg (List.map (·.path)) (outline_of_frame (frame_realign (c := c)))
  unfold outline at houtline
  rwa [List.map_map, List.map_map] at houtline

/-- A realignment moves no target. -/
theorem targetIndex?_realign : c.realign.targetIndex? = c.targetIndex? := by
  rw [targetIndex?_eq, targetIndex?_eq, paths_realign]

theorem realign_of_target?_none (h : c.target? = none) : c.realign = c := by
  unfold realign
  cases hi : c.targetIndex? with
  | none => rfl
  | some i =>
    have hnone : c.actions[i]? = none := by simpa [target?, hi] using h
    dsimp only
    rw [hnone]

theorem realign_eq (hi : c.targetIndex? = some i) (ht : c.actions[i]? = some target) :
    c.realign = { c with
      actions := c.actions.mapIdx fun j a =>
        (if j = i then a else a.followPath target).shareValues
      subject := .ofAction c.resource target } := by
  unfold realign
  rw [hi]
  dsimp only
  rw [ht]

/-- The target itself only shares its values. -/
theorem getElem?_realign (hi : c.targetIndex? = some i) (ht : c.actions[i]? = some target) :
    c.realign.actions[i]? = some target.shareValues := by
  rw [realign_eq hi ht]
  simp [ht]

theorem target?_realign : c.realign.target? = c.target?.map Action.shareValues := by
  cases h : c.target? with
  | none =>
    rw [realign_of_target?_none h, h]
    rfl
  | some target =>
    obtain ⟨i, hi, ht⟩ := Option.bind_eq_some_iff.1 h
    exact Option.bind_eq_some_iff.2 ⟨i, targetIndex?_realign.trans hi, getElem?_realign hi ht⟩

theorem params_subject_realign (hi : c.targetIndex? = some i) (ht : c.actions[i]? = some target) :
    c.realign.subject.params = target.params.filter Param.isPath := by
  rw [realign_eq hi ht]
  rfl

/-- A second realignment leaves the actions alone if the target hands on what it handed on before. -/
theorem actions_realign_realign (hi : c.targetIndex? = some i) (ht : c.actions[i]? = some target)
    (hvalue : ∀ name, pathValue? target.shareValues.params name = pathValue? target.params name) :
    c.realign.realign.actions = c.realign.actions := by
  have hfollow : ∀ a : Action, a.followPath target.shareValues = a.followPath target :=
    fun a => Action.followPath_congr rfl hvalue
  rw [realign_eq (targetIndex?_realign.trans hi) (getElem?_realign hi ht), realign_eq hi ht]
  refine List.ext_getElem? fun j => ?_
  simp only [List.getElem?_mapIdx, Option.map_map]
  congr 1
  funext a
  by_cases hj : j = i
  · simp [hj, Action.shareValues_shareValues]
  · simp [hj, hfollow, Action.shareValues_followPath_again]

/-- **A realignment settles a call exactly when the path of its target is settled.** -/
theorem realign_realign_iff :
    c.realign.realign = c.realign ↔ ∀ target ∈ c.target?, target.PathSettled := by
  cases h : c.target? with
  | none =>
    rw [realign_of_target?_none h, realign_of_target?_none h]
    simp
  | some target =>
    obtain ⟨i, hi, ht⟩ := Option.bind_eq_some_iff.1 h
    have hi' := targetIndex?_realign.trans hi
    have ht' := getElem?_realign hi ht
    simp only [Option.mem_some_iff, forall_eq', ← Action.filter_isPath_shareValues_iff]
    constructor
    · intro hsame
      rw [← params_subject_realign hi' ht', hsame, params_subject_realign hi ht]
    · intro hpath
      have hactions := actions_realign_realign hi ht fun _ => Action.pathValue?_congr hpath
      have hsubject : Subject.ofAction c.realign.resource target.shareValues = c.realign.subject := by
        rw [resource_of_frame frame_realign, realign_eq hi ht]
        unfold Subject.ofAction
        rw [hpath]
        rfl
      rw [realign_eq hi' ht'] at hactions ⊢
      dsimp only at hactions
      rw [hactions, hsubject]

end Call

/-! ## Scenarios -/

namespace Scenario

variable {s : Scenario} {c : Call} {rows preceding : List RowAction}

theorem rows_realign : c.realign.rows = c.rows := by
  unfold Call.realign
  split
  · rfl
  · split <;> rfl

/-- Rows play no part in a realignment. -/
theorem realign_with_rows : ({ c with rows } : Call).realign = { c.realign with rows } := by
  cases h : c.target? with
  | none =>
    rw [Call.realign_of_target?_none h]
    exact Call.realign_of_target?_none h
  | some target =>
    obtain ⟨i, hi, ht⟩ := Option.bind_eq_some_iff.1 h
    rw [Call.realign_eq hi ht]
    exact Call.realign_eq (c := { c with rows }) hi ht

theorem realign_with_rows_eq_iff :
    ({ c with rows } : Call).realign = { c with rows } ↔ c.realign = c := by
  rw [realign_with_rows]
  constructor
  · intro h
    have hrows : ({ c.realign with rows := c.realign.rows } : Call) = { c with rows := c.rows } := by
      rw [rows_realign]
      exact congrArg (fun d : Call => { d with rows := c.rows }) h
    exact hrows
  · intro h
    rw [h]

theorem callsInOrder_map_realign {calls : List Call} :
    callsInOrder preceding (calls.map Call.realign) = callsInOrder preceding calls := by
  induction calls generalizing preceding with
  | nil => rfl
  | cons c rest ih => rw [List.map_cons, callsInOrder, callsInOrder, rows_realign, ih]

theorem repair_eq_of_referencesInOrder (h : s.referencesInOrder = true) :
    s.repair = { s with calls := s.calls.map Call.realign } := by
  refine repairReferences_of_referencesInOrder ?_
  unfold referencesInOrder at h ⊢
  dsimp only
  rw [callsInOrder_map_realign]
  exact h

/-- A scenario with references in order is settled when all its calls are. -/
theorem repair_eq_self_iff (h : s.referencesInOrder = true) :
    s.repair = s ↔ ∀ c ∈ s.calls, c.realign = c := by
  rw [repair_eq_of_referencesInOrder h, ← map_eq_self_iff]
  constructor
  · exact congrArg Scenario.calls
  · intro hsame
    rw [hsame]

theorem repair_repair_eq_iff :
    s.repair.repair = s.repair ↔ ∀ c ∈ s.calls, ∀ target ∈ c.target?, target.PathSettled := by
  rw [repair_eq_self_iff s.referencesInOrder_repair]
  -- whether a call is settled does not depend on the rows that the repair gave it
  have hmap : s.repair.calls.map (fun c => c.realign = c) =
      s.calls.map fun c => c.realign.realign = c.realign :=
    map_calls_repair fun _ _ => propext realign_with_rows_eq_iff
  calc (∀ c ∈ s.repair.calls, c.realign = c)
      ↔ ∀ settled ∈ s.repair.calls.map (fun c => c.realign = c), settled :=
        (List.forall_mem_map (P := id)).symm
    _ ↔ ∀ c ∈ s.calls, c.realign.realign = c.realign := by
        rw [hmap]
        exact List.forall_mem_map (P := id)
    _ ↔ ∀ c ∈ s.calls, ∀ target ∈ c.target?, target.PathSettled := by
        simp only [Call.realign_realign_iff]

/-- A repair leaves targets that have shared their values. -/
theorem pathSettled_of_repair (hc : c ∈ s.repair.calls) {target : Action}
    (ht : target ∈ c.target?) : target.PathSettled := by
  have hmap : s.repair.calls.map Call.target? = s.calls.map fun c => c.realign.target? :=
    map_calls_repair fun _ _ => rfl
  have hmem : c.target? ∈ s.calls.map fun c => c.realign.target? :=
    hmap ▸ List.mem_map_of_mem hc
  obtain ⟨before, -, heq⟩ := List.mem_map.1 hmem
  rw [Call.target?_realign, Option.mem_def.1 ht] at heq
  obtain ⟨unshared, -, rfl⟩ := Option.map_eq_some_iff.1 heq
  exact Action.pathSettled_shareValues

end Scenario

/-- **The second repair is settled.** A third one changes nothing in any scenario. The second one
changes nothing exactly where, before the first, every path parameter of a target had the value of
the plain parameter that leads under its name. -/
theorem second_repair_is_settled (s : Scenario) :
    s.repair.repair.repair = s.repair.repair ∧
      (s.repair.repair = s.repair ↔
        ∀ c ∈ s.calls, ∀ target ∈ c.target?, target.PathSettled) := by
  refine ⟨Scenario.repair_repair_eq_iff.2 ?_, Scenario.repair_repair_eq_iff⟩
  intro c hc target ht
  exact Scenario.pathSettled_of_repair hc ht

namespace Sample

/-- A parameter that holds a number. -/
def numbered (place : Place) (n : Int) : Param := ⟨"id", place, .integer, true, none, .int n⟩

/-- The orders of a user; the query asks for another number than the path. -/
def userOrders : Action :=
  ⟨.get, ⟨[.literal "users", .var "id", .literal "orders"]⟩, [numbered .query 1, numbered .path 2],
    false, none, none⟩

/-- Deleting a user. -/
def deleteUser : Action :=
  ⟨.delete, ⟨[.literal "users", .var "id"]⟩, [numbered .path 3], false, none, none⟩

/-- The orders of a user are listed and the user is deleted. -/
def ordersThenDeletion : Scenario :=
  .ofCalls [.unseeded (.unvisited "GET-DELETE" true 1) (.ofAction "/users/\x7bid\x7d" deleteUser)
    [userOrders, deleteUser] .notExisting] .random

end Sample

open Sample in
/-- The first repair lists the orders of user 1 and deletes user 2; the second deletes user 1. -/
theorem deletion_follows_orders_at_second_repair :
    ordersThenDeletion.repair.calls.map (fun c => c.actions.map Action.resolvedPath) =
        [["/users/1/orders", "/users/2"]] ∧
      ordersThenDeletion.repair.repair.calls.map (fun c => c.actions.map Action.resolvedPath) =
        [["/users/1/orders", "/users/1"]] ∧
      ordersThenDeletion.repair.repair ≠ ordersThenDeletion.repair := by
  decide +kernel

end RestScenario
