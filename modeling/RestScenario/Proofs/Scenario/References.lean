import RestScenario.Scenario

/-!
# References after a repair

A repair walks over row actions in the order in which they run and takes along the rows seen so far.
The rows that it takes along are the ones that the check of the order takes along, because a repair
changes neither the number nor the table of a row action. So after a repair every reference is in
order, whatever the references were before: in one list, call by call, and in a whole scenario.
-/

namespace RestScenario

/-! ## One reference -/

theorem inOrder_of_latestOn {seen : SeenRows} {r : Reference} :
    ({ r with target := latestOn? seen r.targetTable } : Reference).inOrder seen = true := by
  unfold Reference.inOrder latestOn?
  cases h : seen.find? fun s => s.2 = tableKey r.targetTable with
  | none => rfl
  | some s =>
    have mem := List.mem_of_find?_eq_some h
    have table : s.2 = tableKey r.targetTable := by simpa using List.find?_some h
    simp only [Option.map_some]
    exact List.any_eq_true.2 ⟨s, mem, by simp [table]⟩

/-- A repaired reference is in order. -/
theorem inOrder_repair (seen : SeenRows) (r : Reference) : (r.repair seen).inOrder seen = true := by
  unfold Reference.repair
  split
  · assumption
  · exact inOrder_of_latestOn

/-! ## Lists of row actions -/

theorem inOrderAfter_repairAfter (seen : SeenRows) (rows : List RowAction) :
    inOrderAfter seen (repairAfter seen rows) = true := by
  induction rows generalizing seen with
  | nil => rfl
  | cons a rest ih =>
    rw [repairAfter, inOrderAfter, Bool.and_eq_true]
    refine ⟨?_, ih _⟩
    rw [List.all_map]
    exact List.all_eq_true.2 fun r _ => inOrder_repair seen r

/-- Row actions whose references were repaired are in order. -/
theorem referencesInOrder_repairReferences (preceding rows : List RowAction) :
    referencesInOrder preceding (repairReferences preceding rows) = true :=
  inOrderAfter_repairAfter _ rows

/-- A repair changes nothing of row actions but their references. -/
theorem map_repairReferences {β : Type} {f : RowAction → β} {preceding rows : List RowAction}
    (hf : ∀ (a : RowAction) (references : List Reference), f { a with references } = f a) :
    (repairReferences preceding rows).map f = rows.map f := by
  have hafter : ∀ (seen : SeenRows) (rows : List RowAction),
      (repairAfter seen rows).map f = rows.map f := by
    intro seen rows
    induction rows generalizing seen with
    | nil => rfl
    | cons a rest ih => rw [repairAfter, List.map_cons, List.map_cons, hf, ih]
  exact hafter _ rows

theorem seenRows_repairReferences {preceding rows : List RowAction} :
    seenRows (repairReferences preceding rows) = seenRows rows :=
  congrArg List.reverse (map_repairReferences fun _ _ => rfl)

theorem inOrderAfter_append {seen : SeenRows} {rows rows' : List RowAction} :
    inOrderAfter seen (rows ++ rows') =
      (inOrderAfter seen rows && inOrderAfter (seenRows rows ++ seen) rows') := by
  induction rows generalizing seen with
  | nil => rfl
  | cons a rest ih =>
    rw [List.cons_append, inOrderAfter, inOrderAfter, ih, Bool.and_assoc]
    simp [seenRows]

/-- Lists that come one after another are in order when each is after all that precedes it. -/
theorem referencesInOrder_append {preceding rows rows' : List RowAction} :
    referencesInOrder preceding (rows ++ rows') =
      (referencesInOrder preceding rows && referencesInOrder (preceding ++ rows) rows') := by
  unfold referencesInOrder
  rw [inOrderAfter_append]
  simp [seenRows]

/-! ## Lists put together -/

theorem seenRows_append {rows rows' : List RowAction} :
    seenRows (rows ++ rows') = seenRows rows' ++ seenRows rows := by
  simp [seenRows]

/-- What is in order stays so when more rows are known. -/
theorem inOrder_mono {seen more : SeenRows} {r : Reference} (hsub : seen ⊆ more)
    (h : r.inOrder seen = true) : r.inOrder more = true := by
  unfold Reference.inOrder at h ⊢
  cases htarget : r.target with
  | none => rfl
  | some t =>
    rw [htarget] at h
    obtain ⟨s, hs, hsame⟩ := List.any_eq_true.1 h
    exact List.any_eq_true.2 ⟨s, hsub hs, hsame⟩

theorem inOrderAfter_mono {seen more : SeenRows} {rows : List RowAction} (hsub : seen ⊆ more)
    (h : inOrderAfter seen rows = true) : inOrderAfter more rows = true := by
  induction rows generalizing seen more with
  | nil => rfl
  | cons a rest ih =>
    rw [inOrderAfter, Bool.and_eq_true] at h ⊢
    refine ⟨List.all_eq_true.2 fun r hr => inOrder_mono hsub (List.all_eq_true.1 h.1 r hr), ?_⟩
    exact ih (List.cons_subset_cons _ hsub) h.2

/-- Lists that are in order by themselves are in order together. -/
theorem referencesInOrder_append_of {rows rows' : List RowAction}
    (h : referencesInOrder [] rows = true) (h' : referencesInOrder [] rows' = true) :
    referencesInOrder [] (rows ++ rows') = true := by
  rw [referencesInOrder_append, h, Bool.true_and]
  exact inOrderAfter_mono (List.nil_subset _) h'

/-- Rows in order with one more that refers to some of them are in order. -/
theorem referencesInOrder_concat {rows : List RowAction} {a : RowAction}
    (hrows : referencesInOrder [] rows = true)
    (ha : ∀ r ∈ a.references, r.inOrder (seenRows rows) = true) :
    referencesInOrder [] (rows ++ [a]) = true := by
  rw [referencesInOrder_append, hrows, List.nil_append, Bool.true_and]
  unfold referencesInOrder inOrderAfter
  rw [Bool.and_eq_true]
  exact ⟨List.all_eq_true.2 ha, rfl⟩

/-- The references of a row in a list that is in order are in order after the rows before it. -/
theorem inOrder_of_split {front back : List RowAction} {a : RowAction} {r : Reference}
    (h : referencesInOrder [] (front ++ a :: back) = true) (hr : r ∈ a.references) :
    r.inOrder (seenRows front) = true := by
  rw [referencesInOrder_append, Bool.and_eq_true] at h
  unfold referencesInOrder at h
  rw [inOrderAfter, Bool.and_eq_true] at h
  exact List.all_eq_true.1 h.2.1 r hr

/-- A reference in order that has a target refers to a row action that went before, on its table. -/
theorem exists_of_inOrder {preceding : List RowAction} {r : Reference} {t : Nat}
    (h : r.inOrder (seenRows preceding) = true) (ht : r.target = some t) :
    ∃ a ∈ preceding, a.id = t ∧ a.tableKey = tableKey r.targetTable := by
  unfold Reference.inOrder at h
  rw [ht] at h
  obtain ⟨seen, hseen, hsame⟩ := List.any_eq_true.1 h
  obtain ⟨a, ha, rfl⟩ := List.mem_map.1 (List.mem_reverse.1 hseen)
  exact ⟨a, ha, by simpa using hsame⟩

/-! ## Scenarios -/

namespace Scenario

theorem callsInOrder_repairCalls (preceding : List RowAction) (calls : List Call) :
    callsInOrder preceding (repairCalls preceding calls) = true := by
  induction calls generalizing preceding with
  | nil => rfl
  | cons c rest ih =>
    rw [repairCalls, callsInOrder, Bool.and_eq_true]
    exact ⟨referencesInOrder_repairReferences preceding c.rows, ih _⟩

theorem referencesInOrder_repairReferences (s : Scenario) :
    s.repairReferences.referencesInOrder = true := by
  unfold repairReferences referencesInOrder
  rw [Bool.and_eq_true]
  exact ⟨RestScenario.referencesInOrder_repairReferences [] s.setup, callsInOrder_repairCalls _ _⟩

/-- **A repair puts all references of a scenario in order**, from any state of disorder. -/
theorem referencesInOrder_repair (s : Scenario) : s.repair.referencesInOrder = true :=
  referencesInOrder_repairReferences _

theorem rows_eq {s : Scenario} : s.rows = s.setup ++ s.calls.flatMap (·.rows) := by
  unfold rows rowsBefore length
  rw [List.take_length]

theorem callsInOrder_eq {preceding : List RowAction} {calls : List Call} :
    callsInOrder preceding calls =
      RestScenario.referencesInOrder preceding (calls.flatMap (·.rows)) := by
  induction calls generalizing preceding with
  | nil => rfl
  | cons c rest ih => rw [callsInOrder, ih, List.flatMap_cons, referencesInOrder_append]

/-- The references of a scenario are in order when those of all its row actions are, in the order in
which they run. -/
theorem referencesInOrder_eq {s : Scenario} :
    s.referencesInOrder = RestScenario.referencesInOrder [] s.rows := by
  unfold referencesInOrder
  rw [rows_eq, referencesInOrder_append, callsInOrder_eq, List.nil_append]

/-- Where references are in order, one that has a target refers to an earlier row action of the
scenario, on its table. -/
theorem exists_of_referencesInOrder {s : Scenario} (h : s.referencesInOrder = true)
    {front back : List RowAction} {row : RowAction} (hrows : s.rows = front ++ row :: back)
    {r : Reference} (hr : r ∈ row.references) {t : Nat} (ht : r.target = some t) :
    ∃ a ∈ front, a.id = t ∧ a.tableKey = tableKey r.targetTable := by
  rw [referencesInOrder_eq, hrows] at h
  exact exists_of_inOrder (inOrder_of_split h hr) ht

end Scenario

end RestScenario
