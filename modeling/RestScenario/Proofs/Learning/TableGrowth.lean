import RestScenario.Proofs.Learning.Certainty
import RestScenario.Proofs.Learning.Lessons

/-!
# What is known of tables only grows

Three kinds of evidence tell of the tables of a resource. A write confirms a table and derives it, a
query settles the verdict on whether the table is derived, and every access is recorded. A verdict
against a table may be overruled by a later write, but that write derives the table as well. So a
verdict is positive exactly when its table is derived (`TableKnowledge.Coherent`), and no table that is
derived or confirmed, and no access, is ever lost (`TableKnowledge.GrowsTo`).

Only executions tell of tables; all other lessons leave that knowledge alone, but for the names of
another resource model, which replace it.
-/

namespace RestScenario

namespace TableKnowledge

variable {t t' t'' : TableKnowledge} {table touched action other : String} {seen : SortedSet Access}
  {access : Access} {verdict : Bool}

/-! ## Look-ups after evidence -/

/-- The accesses of an action to a table. -/
def accessesBy (t : TableKnowledge) (action table : String) : SortedSet Access :=
  (((t.accesses.get? action).getD ∅).get? table).getD ∅

theorem mem_accessesBy_recordAccess :
    access ∈ (t.recordAccess action touched seen).accessesBy other table ↔
      access ∈ t.accessesBy other table ∨ other = action ∧ table = touched ∧ access ∈ seen := by
  unfold accessesBy recordAccess
  by_cases haction : other = action
  · subst haction
    by_cases htable : table = touched
    · subst htable
      simp [SortedSet.mem_union]
    · simp [SortedMap.get?_upsert, htable]
  · simp [SortedMap.get?_upsert, haction]

theorem writes_iff : t.writes table = true ↔
    ∃ action, ∃ access ∈ t.accessesBy action table, access.isWrite = true := by
  unfold writes SortedMap.values accessesBy
  rw [List.any_map, List.any_eq_true]
  constructor
  · rintro ⟨⟨action, tables⟩, hmem, hwrites⟩
    have haction : t.accesses.get? action = some tables := SortedMap.mem_entries_iff.1 hmem
    refine ⟨action, ?_⟩
    rw [haction, Option.getD_some]
    cases hseen : tables.get? table with
    | none => simp [hseen] at hwrites
    | some seen => exact List.any_eq_true.1 (by simpa [hseen] using hwrites)
  · rintro ⟨action, access, hmem, hwrite⟩
    cases haction : t.accesses.get? action with
    | none => exact absurd (haction ▸ hmem) List.not_mem_nil
    | some tables =>
      rw [haction, Option.getD_some] at hmem
      refine ⟨(action, tables), SortedMap.mem_entries_iff.2 haction, ?_⟩
      cases hseen : tables.get? table with
      | none => exact absurd (hseen ▸ hmem) List.not_mem_nil
      | some seen =>
        rw [hseen, Option.getD_some] at hmem
        simpa [hseen] using List.any_eq_true.2 ⟨access, hmem, hwrite⟩

theorem isDerived_derive {found : NameMatch} :
    (t.derive touched found).isDerived table = (decide (table = touched) || t.isDerived table) := by
  unfold isDerived derive SortedMap.contains
  by_cases h : table = touched <;> simp [SortedMap.get?_upsert, h]

theorem isDerived_confirm :
    (t.confirm touched).isDerived table = (decide (table = touched) || t.isDerived table) := by
  unfold confirm
  dsimp only
  by_cases hderived : t.isDerived touched = true
  · rw [if_pos hderived]
    by_cases h : table = touched
    · subst h
      simpa [isDerived] using hderived
    · simp [isDerived, h]
  · rw [if_neg hderived]
    exact isDerived_derive

theorem isDerived_judge : (t.judge touched verdict).isDerived table = t.isDerived table := rfl

theorem get?_confirmed_confirm : (t.confirm touched).confirmed.get? table =
    if table = touched then some true else t.confirmed.get? table := by
  rw [confirmed_confirm, SortedMap.get?_insert]

theorem get?_confirmed_judge : (t.judge touched verdict).confirmed.get? table =
    if table = touched then some verdict else t.confirmed.get? table := SortedMap.get?_insert

theorem accesses_confirm : (t.confirm touched).accesses = t.accesses := by
  unfold confirm
  by_cases h : t.isDerived touched = true <;> simp [h, derive]

theorem isConfirmed_iff : t.isConfirmed table = true ↔ t.confirmed.get? table = some true := by
  unfold isConfirmed
  cases t.confirmed.get? table <;> simp

/-! ## Verdicts and derived tables -/

/-- Every verdict says whether the table is derived. -/
def Coherent (t : TableKnowledge) : Prop :=
  ∀ table verdict, t.confirmed.get? table = some verdict → verdict = t.isDerived table

theorem coherent_of_unjudged (h : t.confirmed = ∅) : t.Coherent := by
  intro table verdict hverdict
  rw [h] at hverdict
  cases hverdict

theorem Coherent.recordAccess (h : t.Coherent) : (t.recordAccess action touched seen).Coherent := h

/-- A write overrules the verdict on its table, and derives it. -/
theorem Coherent.confirm (h : t.Coherent) : (t.confirm touched).Coherent := by
  intro table verdict hverdict
  rw [get?_confirmed_confirm] at hverdict
  rw [isDerived_confirm]
  by_cases hsame : table = touched
  · simpa [hsame] using hverdict.symm
  · simp only [hsame, if_false] at hverdict
    simpa [hsame] using h table verdict hverdict

theorem Coherent.judge (h : t.Coherent) : (t.judge touched (t.isDerived touched)).Coherent := by
  intro table verdict hverdict
  rw [get?_confirmed_judge] at hverdict
  rw [isDerived_judge]
  by_cases hsame : table = touched
  · simpa [hsame] using hverdict.symm
  · simp only [hsame, if_false] at hverdict
    exact h table verdict hverdict

theorem mem_confirmedTables : table ∈ t.confirmedTables ↔ t.isConfirmed table = true := by
  unfold confirmedTables
  rw [isConfirmed_iff]
  simp [SortedSet.mem_ofList, SortedMap.mem_entries_iff]

/-- Where verdicts are coherent, the related tables are the derived ones. -/
theorem Coherent.mem_relatedTables (h : t.Coherent) :
    table ∈ t.relatedTables ↔ t.isDerived table = true := by
  have hkeys : table ∈ t.derived.keys ↔ t.isDerived table = true := by
    unfold SortedMap.keys isDerived SortedMap.contains
    simp [SortedMap.mem_entries_iff, Option.isSome_iff_exists]
  unfold relatedTables
  rw [SortedSet.mem_union, SortedSet.mem_ofList, List.mem_filter, mem_confirmedTables,
    isConfirmed_iff, hkeys]
  constructor
  · rintro (⟨hderived, -⟩ | hconfirmed)
    · exact hderived
    · exact (h table true hconfirmed).symm
  · intro hderived
    refine .inl ⟨hderived, ?_⟩
    cases hverdict : t.confirmed.get? table with
    | none => rfl
    | some verdict => simpa [hderived] using h table verdict hverdict

/-! ## Growth -/

/-- No table that is derived or confirmed, and no access, is lost. -/
structure GrowsTo (t t' : TableKnowledge) : Prop where
  derived : ∀ table, t.isDerived table = true → t'.isDerived table = true
  confirmed : ∀ table, t.isConfirmed table = true → t'.isConfirmed table = true
  accesses : ∀ action table, ∀ access ∈ t.accessesBy action table, access ∈ t'.accessesBy action table

theorem GrowsTo.refl : t.GrowsTo t := ⟨fun _ h => h, fun _ h => h, fun _ _ _ h => h⟩

theorem GrowsTo.trans (h : t.GrowsTo t') (h' : t'.GrowsTo t'') : t.GrowsTo t'' where
  derived := fun table hderived => h'.derived table (h.derived table hderived)
  confirmed := fun table hconfirmed => h'.confirmed table (h.confirmed table hconfirmed)
  accesses := fun action table access hseen =>
    h'.accesses action table access (h.accesses action table access hseen)

theorem growsTo_recordAccess : t.GrowsTo (t.recordAccess action touched seen) where
  derived := fun _ h => h
  confirmed := fun _ h => h
  accesses := fun _ _ _ h => mem_accessesBy_recordAccess.2 (.inl h)

theorem growsTo_confirm : t.GrowsTo (t.confirm touched) where
  derived := fun table h => by simp [isDerived_confirm, h]
  confirmed := by
    intro table h
    rw [isConfirmed_iff] at h ⊢
    by_cases hsame : table = touched <;> simp [get?_confirmed_confirm, hsame, h]
  accesses := fun action table access h => by
    unfold accessesBy at h ⊢
    rwa [accesses_confirm]

/-- A first verdict takes none back. -/
theorem growsTo_judge (hnew : t.confirmed.get? touched = none) :
    t.GrowsTo (t.judge touched verdict) where
  derived := fun _ h => h
  confirmed := by
    intro table h
    rw [isConfirmed_iff] at h ⊢
    have hne : table ≠ touched := by
      rintro rfl
      simp [hnew] at h
    simp [get?_confirmed_judge, hne, h]
  accesses := fun _ _ _ h => h

open Knowledge (conclude)

/-- **What one access tells keeps verdicts coherent, and nothing is lost by it.** -/
theorem Coherent.conclude (h : t.Coherent) (v : Verb) (action touched : String)
    (seen : SortedSet Access) :
    (conclude v touched seen (t.recordAccess action touched seen)).Coherent ∧
      t.GrowsTo (Knowledge.conclude v touched seen (t.recordAccess action touched seen)) := by
  have hrecorded : (t.recordAccess action touched seen).Coherent := h.recordAccess
  have hgrown : t.GrowsTo (t.recordAccess action touched seen) := growsTo_recordAccess
  cases v with
  | post | put =>
    by_cases hwrite : seen.toList.any Access.isWrite = true
    · simp only [Knowledge.conclude, hwrite, if_true]
      exact ⟨hrecorded.confirm, hgrown.trans growsTo_confirm⟩
    · simp only [Knowledge.conclude, hwrite]
      exact ⟨hrecorded, hgrown⟩
  | get =>
    by_cases hnew : (Access.select ∈ seen &&
        !(t.recordAccess action touched seen).confirmed.contains touched) = true
    · simp only [Knowledge.conclude, hnew, if_true]
      refine ⟨hrecorded.judge, hgrown.trans (growsTo_judge ?_)⟩
      simpa [SortedMap.contains] using (Bool.and_eq_true_iff.1 hnew).2
    · simp only [Knowledge.conclude, hnew]
      exact ⟨hrecorded, hgrown⟩
  | delete | patch | options | head => exact ⟨hrecorded, hgrown⟩

end TableKnowledge

namespace Knowledge

variable {k k' k'' : Knowledge} {key table : String}

/-! ## Lessons -/

/-- Where verdicts are coherent they stay so, and what is known of tables grows. -/
def GrowsTables (k k' : Knowledge) : Prop :=
  ∀ key, (k.tablesOf key).Coherent →
    (k'.tablesOf key).Coherent ∧ (k.tablesOf key).GrowsTo (k'.tablesOf key)

theorem growsTables_of_eq (h : k'.tables = k.tables) : k.GrowsTables k' := by
  intro key hk
  have hsame : k'.tablesOf key = k.tablesOf key := by
    unfold tablesOf
    rw [h]
  rw [hsame]
  exact ⟨hk, .refl⟩

theorem GrowsTables.trans (h : k.GrowsTables k') (h' : k'.GrowsTables k'') : k.GrowsTables k'' := by
  intro key hk
  obtain ⟨hcoherent, hgrown⟩ := h key hk
  obtain ⟨hcoherent', hgrown'⟩ := h' key hcoherent
  exact ⟨hcoherent', hgrown.trans hgrown'⟩

theorem growsTables_refineTable {resource : String} {a : Action} {state : Refinement}
    {touched : String × SortedSet Access} :
    state.knowledge.GrowsTables (refineTable resource a state touched).knowledge := by
  unfold refineTable
  dsimp only
  by_cases hknown : state.knowledge.snapshot.knows touched.1 = true
  · rw [if_pos hknown]
    intro key hk
    by_cases hkey : key = resource
    · subst hkey
      rw [tablesOf_mapTables_self]
      exact hk.conclude a.verb a.name touched.1 touched.2
    · rw [tablesOf_mapTables_of_ne hkey]
      exact ⟨hk, .refl⟩
  · rw [if_neg hknown]
    exact growsTables_of_eq rfl

theorem growsTables_refineActions {calls : List Call} {executions : SortedMap Nat Execution} :
    k.GrowsTables (k.refineActions calls executions).knowledge := by
  refine List.foldlRecOn _ _ (motive := fun state : Refinement => k.GrowsTables state.knowledge)
    (growsTables_of_eq rfl) fun state hstate ((resource, a), position) _ => ?_
  dsimp only
  split
  · exact List.foldlRecOn _ _ (motive := fun state : Refinement => k.GrowsTables state.knowledge)
      hstate fun state hstate touched _ => hstate.trans growsTables_refineTable
  · exact hstate

theorem tables_learnFrom {previous current : Evaluated} {verdict : Verdict} {kind : Edit}
    (h : k.learnFrom previous current verdict = .ok (kind, k')) : k'.tables = k.tables := by
  have credits : Inference.OutlastsCredits (fun _ => True)
      fun k' : Knowledge => k'.tables = k.tables :=
    ⟨fun _ _ _ hk => tables_updateDependency.trans hk, fun _ _ hk => hk⟩
  exact credits.learnFrom (fun _ _ => trivial) (fun _ _ => trivial) rfl h

end Knowledge

/-- The lesson does not take up a resource model. -/
def Lesson.KeepsModel : Lesson → Prop
  | .names .. => False
  | _ => True

instance (lesson : Lesson) : Decidable lesson.KeepsModel :=
  match lesson with
  | .names .. => .isFalse id
  | .dependency .. | .nonDependency .. | .shared .. | .executions .. | .snapshot .. | .edit .. =>
    .isTrue trivial

namespace Knowledge

variable {k : Knowledge} {lessons : List Lesson}

theorem growsTables_learn {lesson : Lesson} (h : lesson.KeepsModel) : k.GrowsTables (k.learn lesson) := by
  cases lesson with
  | names m schema snapshot => exact h.elim
  | executions calls executions =>
    exact growsTables_refineActions.trans (growsTables_of_eq tables_refine)
  | dependency source targets tag probability => exact growsTables_of_eq tables_updateDependency
  | shared members table probability confirmed tag => exact growsTables_of_eq tables_updateShared
  | nonDependency source target => exact growsTables_of_eq rfl
  | snapshot snapshot => exact growsTables_of_eq rfl
  | edit previous current verdict =>
    unfold learn
    dsimp only
    split
    · rename_i hlearned
      exact growsTables_of_eq (tables_learnFrom hlearned)
    · exact growsTables_of_eq rfl

theorem growsTables_learnAll (h : ∀ lesson ∈ lessons, lesson.KeepsModel) :
    k.GrowsTables (k.learnAll lessons) :=
  List.foldlRecOn (motive := fun k' : Knowledge => k.GrowsTables k') lessons learn
    (growsTables_of_eq rfl) fun _ hk lesson hmem => hk.trans (growsTables_learn (h lesson hmem))

theorem relatedTables_eq {key : String} : k.relatedTables key = (k.tablesOf key).relatedTables := by
  unfold relatedTables tablesOf
  cases k.tables.get? key <;> rfl

end Knowledge

/-- **Knowledge of tables only grows.** Take any knowledge that takes up a resource model, and any two
moments of a run of lessons that take up no other. At the first, a verdict on a table is positive
exactly when the table is derived, so that the related tables are exactly the derived ones. At the
second, every table that was related or confirmed at the first is still, and every access of an action
that was seen is still known. -/
theorem table_knowledge_only_grows (k : Knowledge) (m : ResourceModel) (schema : Schema)
    (snapshot : Snapshot) {first later : List Lesson}
    (hmodel : ∀ lesson ∈ first ++ later, lesson.KeepsModel) :
    let k₁ := (k.init m schema snapshot).learnAll first
    let k₂ := k₁.learnAll later
    ∀ key,
      (∀ table verdict, (k₁.tablesOf key).confirmed.get? table = some verdict →
        (verdict = true ↔ (k₁.tablesOf key).isDerived table = true)) ∧
      (∀ table, table ∈ k₁.relatedTables key ↔ (k₁.tablesOf key).isDerived table = true) ∧
      (∀ table ∈ k₁.relatedTables key, table ∈ k₂.relatedTables key) ∧
      (∀ table ∈ (k₁.tablesOf key).confirmedTables, table ∈ (k₂.tablesOf key).confirmedTables) ∧
      ∀ action table, ∀ access ∈ (k₁.tablesOf key).accessesBy action table,
        access ∈ (k₂.tablesOf key).accessesBy action table := by
  intro k₁ k₂ key
  have hstart : ((k.init m schema snapshot).tablesOf key).Coherent :=
    TableKnowledge.coherent_of_unjudged Knowledge.confirmed_tablesOf_init
  have first_run : (k.init m schema snapshot).GrowsTables k₁ :=
    Knowledge.growsTables_learnAll fun lesson h => hmodel lesson (List.mem_append_left _ h)
  have later_run : k₁.GrowsTables k₂ :=
    Knowledge.growsTables_learnAll fun lesson h => hmodel lesson (List.mem_append_right _ h)
  obtain ⟨hcoherent, -⟩ := first_run key hstart
  obtain ⟨hcoherent', hgrown⟩ := later_run key hcoherent
  refine ⟨fun table verdict hverdict => ?_, fun table => ?_, fun table hrelated => ?_,
    fun table hconfirmed => ?_, hgrown.accesses⟩
  · rw [hcoherent table verdict hverdict]
  · rw [Knowledge.relatedTables_eq]
    exact hcoherent.mem_relatedTables
  · rw [Knowledge.relatedTables_eq, TableKnowledge.Coherent.mem_relatedTables ‹_›] at hrelated ⊢
    exact hgrown.derived table hrelated
  · rw [TableKnowledge.mem_confirmedTables] at hconfirmed ⊢
    exact hgrown.confirmed table hconfirmed

namespace Sample

/-- A `GET` on bills queries orders, which no name derives for bills. -/
def billsQueryOrders : Lesson := .executions (queries "bills").1 (queries "bills").2

/-- A `POST` on bills inserts an order. -/
def billsInsertOrder : Lesson := .executions (inserts "bills").1 (inserts "bills").2

end Sample

open Sample in
/-- A query settles that bills are not related to orders. A write relates them, and the query is still
known. -/
theorem bills_related_to_orders_by_write :
    let k₁ := opened.learnAll [billsQueryOrders]
    let k₂ := k₁.learnAll [billsInsertOrder]
    (∀ lesson ∈ [billsQueryOrders] ++ [billsInsertOrder], lesson.KeepsModel) ∧
      (k₁.tablesOf "/bills").confirmed.get? "orders" = some false ∧
      ¬ "orders" ∈ k₁.relatedTables "/bills" ∧ "orders" ∈ k₂.relatedTables "/bills" ∧
      Access.select ∈ (k₂.tablesOf "/bills").accessesBy "GET:/bills" "orders" := by
  intro k₁ k₂
  have hmodel : ∀ lesson ∈ [billsQueryOrders] ++ [billsInsertOrder], lesson.KeepsModel := by decide
  obtain ⟨hverdicts, hrelated, -, -, haccesses⟩ :=
    table_knowledge_only_grows (.empty 0.6 true) office _ _ hmodel "/bills"
  have hrefuted : (k₁.tablesOf "/bills").confirmed.get? "orders" = some false := by decide +kernel
  refine ⟨hmodel, hrefuted, ?_, by decide +kernel, ?_⟩
  · intro hmem
    exact absurd ((hverdicts _ _ hrefuted).2 ((hrelated _).1 hmem)) (by simp)
  · exact haccesses _ _ _ (by decide +kernel)

end RestScenario
