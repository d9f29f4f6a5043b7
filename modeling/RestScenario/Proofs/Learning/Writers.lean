import RestScenario.Proofs.Learning.Reported

/-!
# Writers of a table are related

Resources that have confirmed and written a table should be mutually related with certainty, in
whatever order the evidence arrives. Relations are made at the end of executions that report the table.

**Step.** A resource that has no positive verdict, and is given none by a query, becomes a writer of the
table only where executions report the table. So two resources that are both writers after executions
were so before, and are still certainly related, or become so now (`Knowledge.due_refine`).

**Run.** What is due is kept over all executions, while the touches that are still to come become fewer
(`Knowledge.due_refineAll`).

Where a `GET` draws the verdict from names before the first write, that write is not reported, and the
order of evidence matters (`get_before_write_leaves_writers_unrelated`).

Main statement: `writers_are_related_unless_queried_first`.
-/

namespace RestScenario

namespace Knowledge

variable {k : Knowledge} {key target table : String} {calls : List Call}
  {executions : SortedMap Nat Execution} {more : List Touch}

/-! ## Executions -/

theorem snapshot_updateShared {members : SortedSet String} {probability : Float} {confirmed : Bool}
    {tag : String} :
    (k.updateShared members table probability confirmed tag).snapshot = k.snapshot :=
  List.foldlRecOn (motive := fun k' : Knowledge => k'.snapshot = k.snapshot) _ _ rfl fun _ h _ _ => h

theorem snapshot_relateWriters : (k.relateWriters table).snapshot = k.snapshot := by
  unfold relateWriters
  dsimp only
  split
  · exact snapshot_updateShared
  · rfl

theorem snapshot_refine : (k.refine calls executions).1.snapshot =
    (k.refineActions calls executions).knowledge.snapshot :=
  List.foldlRecOn (motive := fun k' : Knowledge => k'.snapshot = _) _ _ rfl
    fun _ h _ _ => snapshot_relateWriters.trans h

theorem writers_refine : (k.refine calls executions).1.writers table =
    (k.refineActions calls executions).knowledge.writers table := by
  unfold writers
  rw [tables_refine]

theorem knows_foldl_take {state : Refinement} {touches : List Touch} :
    (touches.foldl Refinement.take state).knowledge.snapshot.knows table =
      state.knowledge.snapshot.knows table :=
  List.foldlRecOn (motive := fun s : Refinement => s.knowledge.snapshot.knows table = _) _ _ rfl
    fun _ h _ _ => knows_take.trans h

theorem knows_refine :
    (k.refine calls executions).1.snapshot.knows table = k.snapshot.knows table := by
  rw [snapshot_refine, refineActions_eq]
  exact knows_foldl_take

/-! ## What is due -/

/-- Each of two resources has written the table, or has no positive verdict and is given none by a query
in touches to come. If both have written it, they are certainly related. -/
structure Due (key target table : String) (touches : List Touch) (k : Knowledge) : Prop where
  regular : k.RegularStore
  known : k.snapshot.knows table = true
  writes : ∀ r ∈ [key, target], r ∈ k.writers table ∨
    k.verdict? r table ≠ some true ∧ ¬ k.DecidedByQuery r table touches
  certain : (∀ r ∈ [key, target], r ∈ k.writers table) → k.Certain key target

section Step

variable (hknown : k.snapshot.knows table = true)
include hknown

/-- A writer is still one after executions, and who announces the table becomes one. -/
theorem mem_writers_refine
    (h : key ∈ k.writers table ∨ k.Announces key table (touches calls executions)) :
    key ∈ (k.refine calls executions).1.writers table := by
  have hwritten : (k.verdict? key table = some true ∧ (k.tablesOf key).writes table = true) ∨
      ∃ t ∈ touches calls executions, t.writes key table = true := by
    refine h.imp (fun hwriter => ?_) fun hannounces => hannounces.1
    exact (mem_writers_iff_tablesOf.1 hwriter).imp_left TableKnowledge.isConfirmed_iff.1
  rw [writers_refine, refineActions_eq, mem_writers_iff_tablesOf, TableKnowledge.isConfirmed_iff]
  constructor
  · exact (verdict?_foldl_take_iff hknown).2 (hwritten.imp And.left .inl)
  · exact writes_foldl_take hknown (hwritten.imp_left And.right)

/-- Who has no positive verdict, and is given none by a query, announces the table in executions, or
goes on so after them. -/
theorem announces_or_of_undecided (hverdict : k.verdict? key table ≠ some true)
    (hundecided : ¬ k.DecidedByQuery key table (touches calls executions ++ more)) :
    k.Announces key table (touches calls executions) ∨
      (k.refine calls executions).1.verdict? key table ≠ some true ∧
        ¬ (k.refine calls executions).1.DecidedByQuery key table more := by
  obtain ⟨hhere, hlater⟩ := not_or.1 ((decidedByQuery_refine_append hknown).not.1 hundecided)
  by_cases hpositive : (k.refine calls executions).1.verdict? key table = some true
  · exact .inl ((announces_refine_iff hknown).2 ⟨hverdict, hpositive, hhere⟩)
  · exact .inr ⟨hpositive, hlater⟩

end Step

/-- **Step.** Executions keep what is due, with the touches that they leave to come. -/
theorem due_refine (hne : target ≠ key)
    (h : k.Due key target table (touches calls executions ++ more)) :
    (k.refine calls executions).1.Due key target table more where
  regular := outlasts_regularStore.refine h.regular
  known := knows_refine.trans h.known
  writes := by
    intro r hr
    rcases h.writes r hr with hwriter | ⟨hverdict, hundecided⟩
    · exact .inl (mem_writers_refine h.known (.inl hwriter))
    · exact (announces_or_of_undecided h.known hverdict hundecided).imp_left fun hannounces =>
        mem_writers_refine h.known (.inr hannounces)
  certain := by
    intro hwriters
    by_cases hbefore : ∀ r ∈ [key, target], r ∈ k.writers table
    · exact ((outlasts_certain hne).refine ⟨h.regular, h.certain hbefore⟩).2
    · -- one of the two becomes a writer here, so that the table is reported
      push Not at hbefore
      obtain ⟨r, hr, hnew⟩ := hbefore
      obtain ⟨hverdict, hundecided⟩ := (h.writes r hr).resolve_left hnew
      have hpositive : (k.refine calls executions).1.verdict? r table = some true :=
        TableKnowledge.isConfirmed_iff.1 (mem_writers_iff_tablesOf.1 (hwriters r hr)).1
      have hannounces : k.Announces r table (touches calls executions) :=
        (announces_or_of_undecided h.known hverdict hundecided).resolve_right
          fun hopen => hopen.1 hpositive
      have hreported : table ∈ (k.refine calls executions).2 :=
        mem_refine_iff.2 ((mem_confirmed_foldl_take h.known).2
          (.inr ⟨r, hannounces⟩))
      rw [writers_refine] at hwriters
      exact certain_foldl_relateWriters hreported (outlasts_regularStore.refineActions h.regular)
        (hwriters key (by simp)) (hwriters target (by simp)) hne

/-! ## Runs -/

/-- What is known after several executions. -/
def refineAll (k : Knowledge) (runs : List (List Call × SortedMap Nat Execution)) : Knowledge :=
  runs.foldl (fun k run => (k.refine run.1 run.2).1) k

/-- The touches of several executions. -/
def allTouches (runs : List (List Call × SortedMap Nat Execution)) : List Touch :=
  runs.flatMap fun run => touches run.1 run.2

variable {runs : List (List Call × SortedMap Nat Execution)}

/-- **Run.** What is due before executions, with all their touches to come, is due after them. -/
theorem due_refineAll (hne : target ≠ key) (h : k.Due key target table (allTouches runs)) :
    (k.refineAll runs).Due key target table [] := by
  induction runs generalizing k with
  | nil => exact h
  | cons run rest ih => exact ih (due_refine hne h)

/-- Executions give no verdict on a table that the snapshot does not know. -/
theorem verdict?_refineAll_of_unknown (hunknown : k.snapshot.knows table = false) :
    (k.refineAll runs).verdict? key table = k.verdict? key table := by
  induction runs generalizing k with
  | nil => rfl
  | cons run rest ih =>
    exact (ih (knows_refine.trans hunknown)).trans
      (verdict?_refine.trans (foldl_take_of_unknown hunknown).1)

end Knowledge

/-- **Resources that confirm a table by writing it are certainly related**, in whatever order and number
of executions they do so. Only, where names derive the table for one of the two, no `GET` on it may query
the table before it is first written: such a `GET` confirms the table, and then the write is not new. -/
theorem writers_are_related_unless_queried_first {threshold : Float} {tokenParser : Bool}
    {m : ResourceModel} {schema : Schema} {snapshot : Snapshot} {key target : String} (table : String)
    (runs : List (List Call × SortedMap Nat Execution)) (hne : target ≠ key) :
    let start := (Knowledge.empty threshold tokenParser).init m schema snapshot
    let k := start.refineAll runs
    (∀ r ∈ [key, target], start.derives r table = false ∨
      ¬ Touch.QueriedFirst r table (Knowledge.allTouches runs)) →
    (k.tablesOf key).isConfirmed table = true → (k.tablesOf target).isConfirmed table = true →
    ∃ r ∈ k.relationsOf key, target ∈ r.targets ∧ (r.probability == 1.0) = true ∧
      ∃ tables, r.kind = .shared tables true := by
  intro start k hqueries hsource htarget
  have hconfirmed : ∀ r ∈ [key, target], k.verdict? r table = some true := by
    simp only [List.forall_mem_cons, List.not_mem_nil, false_implies, implies_true, and_true]
    exact ⟨TableKnowledge.isConfirmed_iff.1 hsource, TableKnowledge.isConfirmed_iff.1 htarget⟩
  have hunjudged : ∀ r, start.verdict? r table = none := by
    intro r
    unfold Knowledge.verdict?
    rw [Knowledge.confirmed_tablesOf_init]
    rfl
  have hknown : start.snapshot.knows table = true := by
    by_contra hunknown
    have hsame : k.verdict? key table = start.verdict? key table :=
      Knowledge.verdict?_refineAll_of_unknown (Bool.not_eq_true _ ▸ hunknown)
    rw [hconfirmed key (by simp), hunjudged] at hsame
    cases hsame
  have hstart : start.Due key target table (Knowledge.allTouches runs) := by
    refine ⟨Knowledge.outlasts_regularStore.init (Knowledge.regularStore_empty _ _), hknown,
      fun r hr => .inr ⟨by simp [hunjudged], ?_⟩, fun hwriters => ?_⟩
    · rintro ⟨-, hderived, hqueried⟩
      rcases hqueries r hr with hunderived | hunqueried
      · simp [hderived] at hunderived
      · exact hunqueried hqueried
    · have hverdict := TableKnowledge.isConfirmed_iff.1
        (Knowledge.mem_writers_iff_tablesOf.1 (hwriters key (by simp))).1
      exact absurd (hverdict.symm.trans (hunjudged key)) (by simp)
  have hdue : k.Due key target table [] := Knowledge.due_refineAll hne hstart
  obtain ⟨r, hr, hcertain⟩ := hdue.certain fun r hr =>
    (hdue.writes r hr).resolve_right fun hopen => hopen.1 (hconfirmed r hr)
  have hbound := ((hdue.regular key).regular r hr).atMostOne
  refine ⟨r, hr, hcertain.target, ?_, hcertain.confirmed⟩
  exact Number.beq_of_le (Number.le_of_not_lt hcertain.isNaN rfl hbound) hcertain.probability

open Sample in
/-- Names derive the table of orders for orders, and orders are queried, after they were written. -/
theorem orders_and_bills_certainly_related :
    opened.derives "/orders" "orders" = true ∧
      ∃ r ∈ (opened.refineAll [inserts "orders", queries "orders", inserts "bills"]).relationsOf
          "/orders",
        "/bills" ∈ r.targets ∧ (r.probability == 1.0) = true ∧
          ∃ tables, r.kind = .shared tables true :=
  ⟨by decide +kernel,
    writers_are_related_unless_queried_first "orders"
      [inserts "orders", queries "orders", inserts "bills"] (by decide) (by decide +kernel)
      (by decide +kernel) (by decide +kernel)⟩

open Sample in
/-- **The order of evidence matters where names derive a table.** Invoices and orders have both
confirmed and written the table of orders, and no relation tells so: orders were queried before they
were written, and the verdict that this gave was not new at the write. -/
theorem get_before_write_leaves_writers_unrelated :
    let k := opened.refineAll [inserts "invoices", queries "orders", inserts "orders"]
    (∀ key ∈ ["/invoices", "/orders"],
      (k.tablesOf key).isConfirmed "orders" = true ∧ (k.tablesOf key).writes "orders" = true) ∧
    k.relationsOf "/orders" = [] := by
  decide +kernel

end RestScenario
