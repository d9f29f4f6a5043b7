import RestScenario.Proofs.Scenario.Repair

/-!
# Which references a repair rebinds

The checks and repairs of references take along the numbers and tables of the rows seen so far. What
they find there is settled by the earlier row actions themselves, those that went before the list and
those before the place in it.

**One list.** A reference fits its place if it has no target, or if its target is the number of an
earlier row action on the table it names. A repair keeps the targets of the references that fit; any
other reference gets the latest earlier row action on its table, or no target if there is none. Nothing
else changes (`repair_rebinds_misplaced_references`).

**Segments.** A repair changes neither numbers nor tables, so what comes after a repaired segment sees
what it would see after the segment as it was. Hence segments that are repaired one after another are
repaired as one list (`repairReferences_append`). A scenario is cut into segments by its setup and its
calls, and the cuts stay where they are (`segments_repaired_as_one_list`).
-/

namespace RestScenario

variable {preceding earlier rows rows' : List RowAction} {seen : SeenRows} {r : Reference}
  {table : String}

/-! ## One reference -/

namespace Reference

/-- The reference has no target, or its target is the number of an earlier row action on its table. -/
def Fits (earlier : List RowAction) (r : Reference) : Prop :=
  r.target = none ∨ ∃ a ∈ earlier, r.target = some a.id ∧ a.isOn r.targetTable = true

instance : Decidable (r.Fits earlier) :=
  inferInstanceAs (Decidable (r.target = none ∨ ∃ a ∈ earlier, _))

/-- The target that suits the place of a reference: its own if the reference fits, else the latest
earlier row action on its table. -/
def targetAfter (earlier : List RowAction) (r : Reference) : Option Nat :=
  if r.Fits earlier then r.target
  else ((earlier.filter (·.isOn r.targetTable)).getLast?).map (·.id)

theorem inOrder_iff : r.inOrder (seenRows earlier) = true ↔ r.Fits earlier := by
  constructor
  · intro h
    cases htarget : r.target with
    | none => exact .inl htarget
    | some t =>
      obtain ⟨a, ha, hid, hkey⟩ := exists_of_inOrder h htarget
      exact .inr ⟨a, ha, htarget.trans (congrArg some hid.symm), decide_eq_true hkey⟩
  · intro h
    unfold inOrder
    rcases h with hnone | ⟨a, ha, htarget, hon⟩
    · rw [hnone]
    · rw [htarget]
      have hmem : (a.id, a.tableKey) ∈ seenRows earlier :=
        List.mem_reverse.2 (List.mem_map_of_mem ha)
      have hkey : a.tableKey = tableKey r.targetTable := of_decide_eq_true hon
      exact List.any_eq_true.2 ⟨_, hmem, by simp [hkey]⟩

end Reference

theorem latestOn?_seenRows : latestOn? (seenRows earlier) table =
    ((earlier.filter (·.isOn table)).getLast?).map (·.id) := by
  have htest : (fun s : Nat × String => decide (s.2 = tableKey table)) ∘
      (fun a : RowAction => (a.id, a.tableKey)) = (·.isOn table) := by
    funext a
    simp [RowAction.isOn]
  have hfound : (seenRows earlier).find? (fun s => s.2 = tableKey table) =
      ((earlier.filter (·.isOn table)).getLast?).map fun a => (a.id, a.tableKey) := by
    rw [seenRows, ← List.map_reverse, List.find?_map, htest, ← List.head?_reverse,
      ← List.filter_reverse, List.head?_filter]
  rw [latestOn?, hfound, Option.map_map]
  rfl

theorem Reference.repair_eq : r.repair (seenRows earlier) =
    { r with target := r.targetAfter earlier } := by
  by_cases hfits : r.Fits earlier
  · have hin := inOrder_iff.2 hfits
    simp [repair, targetAfter, hin, hfits]
  · have hout : ¬ r.inOrder (seenRows earlier) = true := fun hin => hfits (inOrder_iff.1 hin)
    simp [repair, targetAfter, hout, hfits, latestOn?_seenRows]

/-! ## One list -/

/-- **A repair puts the target of each reference right for its place**, and changes nothing else. -/
theorem repairReferences_eq_mapIdx : repairReferences preceding rows =
    rows.mapIdx fun i a =>
      { a with references := a.references.map fun r =>
          { r with target := r.targetAfter (preceding ++ rows.take i) } } := by
  unfold repairReferences
  induction rows generalizing preceding with
  | nil => rfl
  | cons a rest ih =>
    have hseen : (a.id, a.tableKey) :: seenRows preceding = seenRows (preceding ++ [a]) := by
      simp [seenRows]
    rw [repairAfter, hseen, ih, List.mapIdx_cons]
    simp [Reference.repair_eq]

/-- **A repair rebinds the misplaced references of a list.** Whatever numbers and tables the row
actions have, the references are in order afterwards. References that fit their places are kept, the
others get the latest earlier row action on their table, or no target; nothing else changes. So a list
is left as it is exactly where its references were in order. -/
theorem repair_rebinds_misplaced_references (preceding rows : List RowAction) :
    referencesInOrder preceding (repairReferences preceding rows) = true ∧
      repairReferences preceding rows = rows.mapIdx (fun i a =>
        { a with references := a.references.map fun r =>
            { r with target := r.targetAfter (preceding ++ rows.take i) } }) ∧
      (repairReferences preceding rows = rows ↔ referencesInOrder preceding rows = true) := by
  have hinOrder := referencesInOrder_repairReferences preceding rows
  refine ⟨hinOrder, repairReferences_eq_mapIdx, fun hsame => ?_,
    repairReferences_of_referencesInOrder⟩
  rwa [hsame] at hinOrder

-- Two rows have number 1. The order keeps its user and loses itself; the item gets the order.
example :
    let inserted (id : Nat) (table : String) (references : List Reference) : RowAction :=
      ⟨id, table, .insert, ∅, references⟩
    (repairReferences [inserted 1 "USERS" []]
      [inserted 1 "Orders" [⟨["user"], "users", some 1⟩, ⟨["parent"], "orders", some 1⟩],
        inserted 2 "items" [⟨["order"], "ORDERS", some 7⟩]]).map
      (fun a => a.references.map (·.target)) = [[some 1, none], [some 1]] := by
  decide +kernel

/-! ## Segments -/

theorem length_repairReferences : (repairReferences preceding rows).length = rows.length := by
  simp [repairReferences_eq_mapIdx]

theorem repairAfter_append : repairAfter seen (rows ++ rows') =
    repairAfter seen rows ++ repairAfter (seenRows rows ++ seen) rows' := by
  induction rows generalizing seen with
  | nil => rfl
  | cons a rest ih => simp [repairAfter, ih, seenRows]

/-- **Segments are repaired as one list.** -/
theorem repairReferences_append : repairReferences preceding (rows ++ rows') =
    repairReferences preceding rows ++
      repairReferences (preceding ++ repairReferences preceding rows) rows' := by
  have hseen : seenRows (preceding ++ repairReferences preceding rows) =
      seenRows rows ++ seenRows preceding := by rw [seenRows_append, seenRows_repairReferences]
  unfold repairReferences at hseen ⊢
  rw [repairAfter_append, hseen]

namespace Scenario

variable {s : Scenario} {calls : List Call} {position : Nat}

theorem flatMap_rows_repairCalls : (repairCalls preceding calls).flatMap (·.rows) =
    RestScenario.repairReferences preceding (calls.flatMap (·.rows)) := by
  induction calls generalizing preceding with
  | nil => rfl
  | cons c rest ih =>
    rw [repairCalls, List.flatMap_cons, List.flatMap_cons, ih, repairReferences_append]

theorem take_repairCalls :
    (repairCalls preceding calls).take position = repairCalls preceding (calls.take position) := by
  induction calls generalizing preceding position with
  | nil => simp [repairCalls]
  | cons c rest ih =>
    cases position with
    | zero => rfl
    | succ position => simp [repairCalls, ih]

theorem map_length_rows_repairCalls :
    (repairCalls preceding calls).map (·.rows.length) = calls.map (·.rows.length) := by
  induction calls generalizing preceding with
  | nil => rfl
  | cons c rest ih => simp [repairCalls, ih, length_repairReferences]

/-- What runs before a call is repaired as one list. -/
theorem rowsBefore_repairReferences : s.repairReferences.rowsBefore position =
    RestScenario.repairReferences [] (s.rowsBefore position) := by
  unfold rowsBefore
  rw [repairReferences_append, List.nil_append, ← flatMap_rows_repairCalls, ← take_repairCalls]
  rfl

end Scenario

/-- **The segments of a scenario are checked and repaired as one list**, that of all its row actions in
the order in which they run. The setup and the calls keep as many row actions as they had, and up to
each call the repair is the one of the rows before it. -/
theorem segments_repaired_as_one_list (s : Scenario) :
    s.referencesInOrder = referencesInOrder [] s.rows ∧
      s.repairReferences.rows = repairReferences [] s.rows ∧
      s.repairReferences.setup.length = s.setup.length ∧
      s.repairReferences.calls.map (·.rows.length) = s.calls.map (·.rows.length) ∧
      ∀ position, s.repairReferences.rowsBefore position =
        repairReferences [] (s.rowsBefore position) := by
  have hlengths : s.repairReferences.calls.map (·.rows.length) = s.calls.map (·.rows.length) :=
    Scenario.map_length_rows_repairCalls
  have hcalls : s.repairReferences.length = s.length := by
    simpa [Scenario.length] using congrArg List.length hlengths
  refine ⟨Scenario.referencesInOrder_eq, ?_, length_repairReferences, hlengths,
    fun _ => Scenario.rowsBefore_repairReferences⟩
  unfold Scenario.rows
  rw [hcalls, Scenario.rowsBefore_repairReferences]

end RestScenario
