import RestScenario.Proofs.Learning.TableGrowth

/-!
# Which confirmations are reported

Executions are taken into account touch by touch: one action of a resource, one table, the accesses seen
(`Knowledge.refineActions_eq`). A `POST` or `PUT` that writes a table confirms it for its resource, and
reports the table if the verdict was not positive before. A `GET` that queries a table on which there is no
verdict takes the verdict from names, and reports nothing.

**Verdicts do not depend on the order of the touches.** A write makes the verdict positive, whatever comes
before or after it; without a write, a query counts where there was no verdict at the start
(`Knowledge.verdict_foldl_take`). **Reports do.** A table is reported for a resource at the first write, but
if names derive the table and a `GET` queried it before, the verdict is positive by then and the write
reports nothing (`Knowledge.mem_confirmed_foldl_take`).

Main statement: `reported_tables_are_confirmed_without_query`.
-/

namespace RestScenario

/-! ## Touches -/

/-- What an action of a resource did to one table. -/
structure Touch where
  resource : String
  action : Action
  table : String
  seen : SortedSet Access

namespace Touch

/-- The touch confirms the table for the resource. -/
def writes (t : Touch) (key table : String) : Bool :=
  t.resource = key && t.table = table && Knowledge.confirms t.action.verb t.seen

/-- The touch is a `GET` that queries the table. -/
def queries (t : Touch) (key table : String) : Bool :=
  t.resource = key && t.table = table && t.action.verb = .get && Access.select ∈ t.seen

/-- A `GET` queries the table before anything writes it. -/
def QueriedFirst (key table : String) (touches : List Touch) : Prop :=
  ∃ t ∈ touches.takeWhile fun t => !t.writes key table, t.queries key table = true

variable {t : Touch} {key table : String} {touches : List Touch}

instance : Decidable (QueriedFirst key table touches) :=
  inferInstanceAs (Decidable (∃ t ∈ touches.takeWhile fun t => !t.writes key table,
    t.queries key table = true))

theorem queriedFirst_cons : QueriedFirst key table (t :: touches) ↔
    t.writes key table = false ∧ (t.queries key table = true ∨ QueriedFirst key table touches) := by
  unfold QueriedFirst
  rw [List.takeWhile_cons]
  cases t.writes key table <;> simp

/-- Where nothing writes the table, any query comes first. -/
theorem queriedFirst_of_not_writes (h : ∀ t ∈ touches, ¬ t.writes key table = true) :
    QueriedFirst key table touches ↔ ∃ t ∈ touches, t.queries key table = true := by
  have hall : (touches.takeWhile fun t => !t.writes key table) = touches :=
    List.takeWhile_eq_self_iff.2 fun t ht => by simpa using h t ht
  unfold QueriedFirst
  rw [hall]

end Touch

namespace Knowledge

/-- The touches of calls, in the order of the actions and for each action in that of the tables. -/
def touches (calls : List Call) (executions : SortedMap Nat Execution) : List Touch :=
  (actionsInOrder calls).zipIdx.flatMap fun ((resource, a), position) =>
    match executions.get? position with
    | some e => e.accesses.entries.map fun (table, seen) => ⟨resource, a, table, seen⟩
    | none => []

/-- Takes a touch into account. -/
def Refinement.take (state : Refinement) (t : Touch) : Refinement :=
  refineTable t.resource t.action state (t.table, t.seen)

theorem refineActions_eq {k : Knowledge} {calls : List Call} {executions : SortedMap Nat Execution} :
    k.refineActions calls executions = (touches calls executions).foldl Refinement.take ⟨k, ∅⟩ := by
  unfold refineActions touches
  rw [List.foldl_flatMap]
  congr 1
  funext state ((resource, a), position)
  dsimp only
  cases executions.get? position with
  | none => rfl
  | some e =>
    rw [List.foldl_map]
    rfl

/-- The verdict of a resource on a table, if there is one. -/
def verdict? (k : Knowledge) (key table : String) : Option Bool :=
  (k.tablesOf key).confirmed.get? table

/-- Whether a table is derived for a resource. -/
def derives (k : Knowledge) (key table : String) : Bool := (k.tablesOf key).isDerived table

/-! ## One touch -/

section Touch

variable {state : Refinement} {t : Touch} {key table : String}

theorem knows_take : (state.take t).knowledge.snapshot.knows table =
    state.knowledge.snapshot.knows table := by
  unfold Refinement.take refineTable
  dsimp only
  split <;> rfl

/-- A touch tells of its resource alone, and of a table that the snapshot knows. -/
theorem tablesOf_take : (state.take t).knowledge.tablesOf key =
    if t.resource = key ∧ state.knowledge.snapshot.knows t.table = true then
      conclude t.action.verb t.table t.seen
        ((state.knowledge.tablesOf key).recordAccess t.action.name t.table t.seen)
    else state.knowledge.tablesOf key := by
  unfold Refinement.take refineTable
  dsimp only
  by_cases htouched : state.knowledge.snapshot.knows t.table = true
  · rw [if_pos htouched]
    dsimp only
    by_cases hkey : t.resource = key
    · subst hkey
      rw [if_pos ⟨rfl, htouched⟩, tablesOf_mapTables_self]
    · rw [if_neg fun h => hkey h.1, tablesOf_mapTables_of_ne (Ne.symm hkey)]
  · rw [if_neg htouched, if_neg fun h => htouched h.2]

/-- A write makes the verdict positive, and the first query takes it from names. -/
theorem get?_confirmed_conclude {k : TableKnowledge} {v : Verb} {action touched : String}
    {seen : SortedSet Access} :
    (conclude v touched seen (k.recordAccess action touched seen)).confirmed.get? table =
      if (touched = table && confirms v seen) = true then some true
      else if (touched = table && v = .get && Access.select ∈ seen) = true then
        (k.confirmed.get? table).or (some (k.isDerived table))
      else k.confirmed.get? table := by
  have hrecorded : (k.recordAccess action touched seen).confirmed = k.confirmed := rfl
  have hderived : (k.recordAccess action touched seen).isDerived touched = k.isDerived touched := rfl
  cases v with
  | post | put =>
    by_cases hwrite : seen.toList.any Access.isWrite = true <;> by_cases htable : table = touched <;>
      simp [conclude, confirms, hwrite, htable, hrecorded, TableKnowledge.get?_confirmed_confirm,
        eq_comm]
  | get =>
    by_cases hselect : Access.select ∈ seen <;> cases hverdict : k.confirmed.get? touched <;>
      by_cases htable : table = touched <;>
      simp [conclude, confirms, hselect, hverdict, htable, hrecorded, hderived,
        SortedMap.contains, TableKnowledge.get?_confirmed_judge, eq_comm]
  | delete | patch | options | head => simp [conclude, confirms, hrecorded]

/-- A write derives its table. -/
theorem isDerived_conclude {k : TableKnowledge} {v : Verb} {action touched : String}
    {seen : SortedSet Access} :
    (conclude v touched seen (k.recordAccess action touched seen)).isDerived table =
      ((touched = table && confirms v seen) || k.isDerived table) := by
  have hrecorded : (k.recordAccess action touched seen).isDerived table = k.isDerived table := rfl
  cases v with
  | post | put =>
    by_cases hwrite : seen.toList.any Access.isWrite = true <;>
      simp [conclude, confirms, hwrite, hrecorded, TableKnowledge.isDerived_confirm, eq_comm]
  | get =>
    simp only [conclude]
    split <;> simp [confirms, TableKnowledge.isDerived_judge, hrecorded]
  | delete | patch | options | head => simp [conclude, confirms, hrecorded]

/-- A table is written as before, or by an access that writes. -/
theorem writes_conclude {k : TableKnowledge} {v : Verb} {action touched : String}
    {seen : SortedSet Access} :
    (conclude v touched seen (k.recordAccess action touched seen)).writes table = true ↔
      k.writes table = true ∨ table = touched ∧ seen.toList.any Access.isWrite = true := by
  have haccesses : (conclude v touched seen (k.recordAccess action touched seen)).accesses =
      (k.recordAccess action touched seen).accesses := by
    unfold conclude
    cases v with
    | post | put =>
      dsimp only
      split
      · exact TableKnowledge.accesses_confirm
      · rfl
    | get =>
      dsimp only
      split <;> rfl
    | delete | patch | options | head => rfl
  have hrecorded : ∀ other access,
      access ∈ (conclude v touched seen (k.recordAccess action touched seen)).accessesBy other table ↔
        access ∈ k.accessesBy other table ∨ other = action ∧ table = touched ∧ access ∈ seen := by
    intro other access
    rw [TableKnowledge.accessesBy, haccesses]
    exact TableKnowledge.mem_accessesBy_recordAccess
  rw [TableKnowledge.writes_iff, TableKnowledge.writes_iff, List.any_eq_true]
  simp only [hrecorded]
  constructor
  · rintro ⟨other, access, hmem | ⟨-, htable, hmem⟩, hwrite⟩
    · exact .inl ⟨other, access, hmem, hwrite⟩
    · exact .inr ⟨htable, access, hmem, hwrite⟩
  · rintro (⟨other, access, hmem, hwrite⟩ | ⟨htable, access, hmem, hwrite⟩)
    · exact ⟨other, access, .inl hmem, hwrite⟩
    · exact ⟨action, access, .inr ⟨rfl, htable, hmem⟩, hwrite⟩

theorem take_of_unknown (h : ¬ state.knowledge.snapshot.knows t.table = true) : state.take t = state := by
  unfold Refinement.take refineTable
  dsimp only
  rw [if_neg h]

theorem verdict?_take : (state.take t).knowledge.verdict? key table =
    if (state.knowledge.snapshot.knows table && t.writes key table) = true then some true
    else if (state.knowledge.snapshot.knows table && t.queries key table) = true then
      (state.knowledge.verdict? key table).or (some (state.knowledge.derives key table))
    else state.knowledge.verdict? key table := by
  unfold verdict? derives Touch.writes Touch.queries
  rw [tablesOf_take]
  by_cases htable : t.table = table
  · subst htable
    by_cases htold : t.resource = key ∧ state.knowledge.snapshot.knows t.table = true
    · simp [htold, get?_confirmed_conclude]
    · rw [if_neg htold]
      grind
  · split <;> simp [htable, get?_confirmed_conclude]

theorem derives_take : (state.take t).knowledge.derives key table =
    ((state.knowledge.snapshot.knows table && t.writes key table) ||
      state.knowledge.derives key table) := by
  unfold derives Touch.writes
  rw [tablesOf_take]
  by_cases htable : t.table = table
  · subst htable
    by_cases htold : t.resource = key ∧ state.knowledge.snapshot.knows t.table = true
    · simp [htold, isDerived_conclude]
    · rw [if_neg htold]
      grind
  · split <;> simp [htable, isDerived_conclude]

/-- What has written a table, or does so now, has written it. -/
theorem writes_take (h : (state.knowledge.tablesOf key).writes table = true ∨
    state.knowledge.snapshot.knows table = true ∧ t.writes key table = true) :
    ((state.take t).knowledge.tablesOf key).writes table = true := by
  rw [tablesOf_take]
  split
  · refine writes_conclude.2 (h.imp_right fun hwrites => ?_)
    simp only [Touch.writes, confirms, Bool.and_eq_true, decide_eq_true_eq] at hwrites
    exact ⟨hwrites.2.1.2.symm, hwrites.2.2.2⟩
  · rename_i hother
    refine h.resolve_right fun hwrites => hother ?_
    simp only [Touch.writes, Bool.and_eq_true, decide_eq_true_eq] at hwrites
    exact ⟨hwrites.2.1.1, hwrites.2.1.2 ▸ hwrites.1⟩

/-- A touch reports its table when it writes it and the verdict was not positive. -/
theorem mem_confirmed_take : table ∈ (state.take t).confirmed ↔ table ∈ state.confirmed ∨
    ∃ key, (state.knowledge.snapshot.knows table && t.writes key table) = true ∧
      state.knowledge.verdict? key table ≠ some true := by
  have hreports : (∃ key, (state.knowledge.snapshot.knows table && t.writes key table) = true ∧
      state.knowledge.verdict? key table ≠ some true) ↔
      state.knowledge.snapshot.knows t.table = true ∧ table = t.table ∧
        (confirms t.action.verb t.seen &&
          !(state.knowledge.tablesOf t.resource).isConfirmed t.table) = true := by
    unfold Touch.writes verdict?
    simp only [Bool.and_eq_true, decide_eq_true_eq, Bool.not_eq_true', ← Bool.not_eq_true,
      TableKnowledge.isConfirmed_iff]
    constructor
    · rintro ⟨key, ⟨hknown, ⟨rfl, rfl⟩, hconfirms⟩, hverdict⟩
      exact ⟨hknown, rfl, hconfirms, hverdict⟩
    · rintro ⟨hknown, rfl, hconfirms, hverdict⟩
      exact ⟨t.resource, ⟨hknown, ⟨rfl, rfl⟩, hconfirms⟩, hverdict⟩
  rw [hreports]
  by_cases htouched : state.knowledge.snapshot.knows t.table = true
  · rw [and_iff_right htouched]
    unfold Refinement.take refineTable
    dsimp only
    rw [if_pos htouched]
    dsimp only
    split
    · rename_i hnew
      rw [SortedSet.mem_insert, and_iff_left hnew, or_comm]
    · rename_i hold
      exact (or_iff_left fun hnew => hold hnew.2).symm
  · rw [take_of_unknown htouched, or_iff_left fun hnew => htouched hnew.1]

end Touch

/-! ## Runs -/

/-- Names derive the table, there is no verdict on it, and a `GET` queries it before anything writes
it. -/
def DecidedByQuery (k : Knowledge) (key table : String) (touches : List Touch) : Prop :=
  k.verdict? key table = none ∧ k.derives key table = true ∧ Touch.QueriedFirst key table touches

/-- The first write of the table finds no positive verdict. -/
def Announces (k : Knowledge) (key table : String) (touches : List Touch) : Prop :=
  (∃ t ∈ touches, t.writes key table = true) ∧ k.verdict? key table ≠ some true ∧
    ¬ k.DecidedByQuery key table touches

section Run

variable {state : Refinement} {touches : List Touch} {key table : String}

/-- Touches of a table that the snapshot does not know tell nothing. -/
theorem foldl_take_of_unknown (hunknown : state.knowledge.snapshot.knows table = false) :
    (touches.foldl Refinement.take state).knowledge.verdict? key table =
        state.knowledge.verdict? key table ∧
      (table ∈ (touches.foldl Refinement.take state).confirmed ↔ table ∈ state.confirmed) := by
  induction touches generalizing state with
  | nil => exact ⟨rfl, Iff.rfl⟩
  | cons t rest ih =>
    have hunknown' : (state.take t).knowledge.snapshot.knows table = false := knows_take.trans hunknown
    obtain ⟨hverdict, hreported⟩ := ih hunknown'
    rw [List.foldl_cons, hverdict, hreported, verdict?_take, mem_confirmed_take, hunknown]
    simp

variable (hknown : state.knowledge.snapshot.knows table = true)
include hknown

/-- **The verdict after a run.** -/
theorem verdict?_foldl_take : (touches.foldl Refinement.take state).knowledge.verdict? key table =
    if (touches.any fun t => t.writes key table) = true then some true
    else (state.knowledge.verdict? key table).or
      (if (touches.any fun t => t.queries key table) = true then
        some (state.knowledge.derives key table) else none) := by
  induction touches generalizing state with
  | nil => simp
  | cons t rest ih =>
    have hknown' : (state.take t).knowledge.snapshot.knows table = true := knows_take.trans hknown
    rw [List.foldl_cons, ih hknown', verdict?_take, derives_take, List.any_cons, List.any_cons, hknown]
    cases hwrites : t.writes key table with
    | true => simp
    | false => cases t.queries key table <;> cases state.knowledge.verdict? key table <;> simp

/-- **What a run reports**: the tables that a resource writes while the verdict is not positive. -/
theorem mem_confirmed_foldl_take : table ∈ (touches.foldl Refinement.take state).confirmed ↔
    table ∈ state.confirmed ∨ ∃ key, state.knowledge.Announces key table touches := by
  induction touches generalizing state with
  | nil => simp [Announces]
  | cons t rest ih =>
    have hknown' : (state.take t).knowledge.snapshot.knows table = true := knows_take.trans hknown
    rw [List.foldl_cons, ih hknown', mem_confirmed_take, or_assoc, ← exists_or]
    refine or_congr_right (exists_congr fun key => ?_)
    unfold Announces DecidedByQuery
    rw [verdict?_take, derives_take, Touch.queriedFirst_cons, hknown]
    cases hwrites : t.writes key table with
    | true => simp [hwrites]
    | false =>
      cases t.queries key table <;> cases state.knowledge.verdict? key table <;> simp [hwrites]

/-- A verdict that is positive after a run was so before, or comes from a write, or from a query where
there was none. -/
theorem verdict?_foldl_take_iff :
    (touches.foldl Refinement.take state).knowledge.verdict? key table = some true ↔
      state.knowledge.verdict? key table = some true ∨
      (∃ t ∈ touches, t.writes key table = true) ∨
      state.knowledge.verdict? key table = none ∧ state.knowledge.derives key table = true ∧
        ∃ t ∈ touches, t.queries key table = true := by
  rw [verdict?_foldl_take hknown, ← List.any_eq_true, ← List.any_eq_true]
  cases touches.any fun t => t.writes key table with
  | true => simp
  | false =>
    cases touches.any fun t => t.queries key table <;>
      cases state.knowledge.verdict? key table <;> simp

/-- What has written a table, or does so in the run, has written it. -/
theorem writes_foldl_take (h : (state.knowledge.tablesOf key).writes table = true ∨
    ∃ t ∈ touches, t.writes key table = true) :
    ((touches.foldl Refinement.take state).knowledge.tablesOf key).writes table = true := by
  induction touches generalizing state with
  | nil => simpa using h
  | cons t rest ih =>
    have hknown' : (state.take t).knowledge.snapshot.knows table = true := knows_take.trans hknown
    rw [List.foldl_cons]
    refine ih hknown' ?_
    rw [List.exists_mem_cons_iff, ← or_assoc] at h
    exact h.imp_left fun h => writes_take (h.imp_right fun hwrites => ⟨hknown, hwrites⟩)

omit hknown in
theorem not_decidedByQuery_nil {k : Knowledge} : ¬ k.DecidedByQuery key table [] :=
  fun h => by simpa [Touch.QueriedFirst] using h.2.2

/-- A first touch decides by a query that finds no verdict, or leaves it to the touches after it. -/
theorem decidedByQuery_cons {t : Touch} : state.knowledge.DecidedByQuery key table (t :: touches) ↔
    (t.writes key table = false ∧ t.queries key table = true ∧
      state.knowledge.verdict? key table = none ∧ state.knowledge.derives key table = true) ∨
      (state.take t).knowledge.DecidedByQuery key table touches := by
  unfold DecidedByQuery
  rw [verdict?_take, derives_take, Touch.queriedFirst_cons, hknown]
  cases t.writes key table <;> cases t.queries key table <;>
    cases state.knowledge.verdict? key table <;> simp

/-- A query decides in two runs in turn when it does in the first, or in the second after it. -/
theorem decidedByQuery_append {more : List Touch} :
    state.knowledge.DecidedByQuery key table (touches ++ more) ↔
      state.knowledge.DecidedByQuery key table touches ∨
        (touches.foldl Refinement.take state).knowledge.DecidedByQuery key table more := by
  induction touches generalizing state with
  | nil => exact (or_iff_right not_decidedByQuery_nil).symm
  | cons t rest ih =>
    have hknown' : (state.take t).knowledge.snapshot.knows table = true := knows_take.trans hknown
    rw [List.cons_append, List.foldl_cons, decidedByQuery_cons hknown, decidedByQuery_cons hknown,
      ih hknown', or_assoc]

/-- What is announced is what becomes positive, other than by a query. -/
theorem announces_iff : state.knowledge.Announces key table touches ↔
    state.knowledge.verdict? key table ≠ some true ∧
      (touches.foldl Refinement.take state).knowledge.verdict? key table = some true ∧
      ¬ state.knowledge.DecidedByQuery key table touches := by
  rw [verdict?_foldl_take_iff hknown]
  unfold Announces
  constructor
  · rintro ⟨hwritten, hnew, hwrite⟩
    exact ⟨hnew, .inr (.inl hwritten), hwrite⟩
  · rintro ⟨hnew, hpositive, hwrite⟩
    refine ⟨?_, hnew, hwrite⟩
    by_contra hunwritten
    have hunwritten : ∀ t ∈ touches, ¬ t.writes key table = true := fun t ht hwrites =>
      hunwritten ⟨t, ht, hwrites⟩
    obtain hold | ⟨t, ht, hwrites⟩ | ⟨hnone, hderived, hqueried⟩ := hpositive
    · exact hnew hold
    · exact hunwritten t ht hwrites
    · exact hwrite ⟨hnone, hderived, (Touch.queriedFirst_of_not_writes hunwritten).2 hqueried⟩

end Run

/-! ## Executions -/

section Refine

variable {k : Knowledge} {calls : List Call} {executions : SortedMap Nat Execution} {key table : String}

theorem mem_refine_iff : table ∈ (k.refine calls executions).2 ↔
    table ∈ ((touches calls executions).foldl Refinement.take ⟨k, ∅⟩).confirmed := by
  rw [← refineActions_eq]
  rfl

theorem verdict?_refine : (k.refine calls executions).1.verdict? key table =
    ((touches calls executions).foldl Refinement.take ⟨k, ∅⟩).knowledge.verdict? key table := by
  unfold verdict?
  rw [tablesOf_refine, refineActions_eq]

theorem isConfirmed_refine_iff : ((k.refine calls executions).1.tablesOf key).isConfirmed table = true ↔
    ((touches calls executions).foldl Refinement.take ⟨k, ∅⟩).knowledge.verdict? key table =
      some true :=
  TableKnowledge.isConfirmed_iff.trans (iff_of_eq (congrArg (· = some true) verdict?_refine))

theorem announces_refine_iff (hknown : k.snapshot.knows table = true) :
    k.Announces key table (touches calls executions) ↔ k.verdict? key table ≠ some true ∧
      (k.refine calls executions).1.verdict? key table = some true ∧
      ¬ k.DecidedByQuery key table (touches calls executions) := by
  have hrun : (Refinement.mk k ∅).knowledge.Announces key table (touches calls executions) ↔ _ :=
    announces_iff hknown
  rw [verdict?_refine]
  exact hrun

theorem decidedByQuery_refine_append (hknown : k.snapshot.knows table = true) {more : List Touch} :
    k.DecidedByQuery key table (touches calls executions ++ more) ↔
      k.DecidedByQuery key table (touches calls executions) ∨
        (k.refine calls executions).1.DecidedByQuery key table more := by
  have hrun : (Refinement.mk k ∅).knowledge.DecidedByQuery key table
      (touches calls executions ++ more) ↔ _ := decidedByQuery_append hknown
  unfold DecidedByQuery verdict? derives at hrun ⊢
  rw [tablesOf_refine, refineActions_eq]
  exact hrun

end Refine

end Knowledge

/-- **What is reported was confirmed, and what was confirmed other than by a query is reported.** Take any
knowledge, calls and executions. A table is reported exactly when the verdict of some resource on it was
not positive before and is positive after, unless a query decided: names derive the table for the
resource, there was no verdict on it, and a `GET` queried it before anything wrote it. Of a table that the
snapshot knows a resource has a positive verdict after the run exactly when it had one before, or wrote the
table, or queried it where there was no verdict and names derive it. -/
theorem reported_tables_are_confirmed_without_query (k : Knowledge) (calls : List Call)
    (executions : SortedMap Nat Execution) (table : String) :
    let after := (k.refine calls executions).1
    let reported := (k.refine calls executions).2
    let touches := Knowledge.touches calls executions
    (table ∈ reported ↔ ∃ key, (k.tablesOf key).isConfirmed table = false ∧
      (after.tablesOf key).isConfirmed table = true ∧ ¬ k.DecidedByQuery key table touches) ∧
    ∀ key, (after.tablesOf key).isConfirmed table = true ↔
      (k.tablesOf key).isConfirmed table = true ∨ k.snapshot.knows table = true ∧
        ((∃ t ∈ touches, t.writes key table = true) ∨
          k.verdict? key table = none ∧ k.derives key table = true ∧
            ∃ t ∈ touches, t.queries key table = true) := by
  have hbefore : ∀ key, (k.tablesOf key).isConfirmed table = true ↔
      k.verdict? key table = some true := fun key => TableKnowledge.isConfirmed_iff
  have hnone : ¬ table ∈ (∅ : SortedSet String) := List.not_mem_nil
  simp only [← Bool.not_eq_true, hbefore, Knowledge.isConfirmed_refine_iff, Knowledge.mem_refine_iff]
  generalize Knowledge.touches calls executions = touches
  cases hknown : k.snapshot.knows table with
  | true =>
    refine ⟨?_, fun key => ?_⟩
    · rw [Knowledge.mem_confirmed_foldl_take hknown, or_iff_right hnone]
      exact exists_congr fun key => Knowledge.announces_iff hknown
    · rw [Knowledge.verdict?_foldl_take_iff hknown]
      simp
  | false =>
    have hsame : ∀ key,
        (touches.foldl Knowledge.Refinement.take ⟨k, ∅⟩).knowledge.verdict? key table =
            k.verdict? key table ∧
          (table ∈ (touches.foldl Knowledge.Refinement.take ⟨k, ∅⟩).confirmed ↔
            table ∈ (∅ : SortedSet String)) := fun key => Knowledge.foldl_take_of_unknown hknown
    refine ⟨?_, fun key => ?_⟩
    · rw [(hsame "").2]
      refine iff_of_false hnone ?_
      rintro ⟨key, hnew, hpositive, -⟩
      rw [(hsame key).1] at hpositive
      exact hnew hpositive
    · rw [(hsame key).1]
      simp

open Sample in
/-- A `GET` on orders that queries orders confirms the table, and nothing is reported. -/
theorem queried_orders_are_not_reported :
    (opened.tablesOf "/orders").isConfirmed "orders" = false ∧
      ((opened.refine (queries "orders").1 (queries "orders").2).1.tablesOf "/orders").isConfirmed
        "orders" = true ∧
      ¬ "orders" ∈ (opened.refine (queries "orders").1 (queries "orders").2).2 := by
  decide +kernel

end RestScenario
