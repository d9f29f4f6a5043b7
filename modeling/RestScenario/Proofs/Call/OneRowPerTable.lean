import RestScenario.Proofs.Call.Seeded
import RestScenario.Proofs.Database.ForeignKeys
import RestScenario.Proofs.Engine.Composed

/-!
# One row action for each related table

A call is seeded table by table, so a table may be seeded more than once: for itself, and as one that
others refer to. The first row action on each table is kept. What a reference pointed to may be dropped
by that, but then an earlier row action on the same table was kept, and that one comes before the
referring row as well. So the reference turns to it (`Reference.rebound_repair`,
`rebound_onePerTable`).

Seeding itself never fails. Where a row is selected, or the schema has all that an insertion needs, each
related table has exactly one row action in the end (`seeded_call_has_one_row_per_table`).
-/

namespace RestScenario

/-! ## The first row action on each table -/

section First

variable {seen : List String} {rows front back : List RowAction} {a : RowAction} {key : String}

/-- Of the tables that are not passed over none is lost. -/
theorem mem_keys_firstPerTable : key ∈ (firstPerTable seen rows).map RowAction.tableKey ↔
    key ∈ rows.map RowAction.tableKey ∧ key ∉ seen := by
  induction rows generalizing seen with
  | nil => simp [firstPerTable]
  | cons b rest ih =>
    rw [firstPerTable]
    by_cases hb : b.tableKey ∈ seen
    · rw [if_pos hb, ih, List.map_cons, List.mem_cons]
      refine and_congr_left fun hfresh => (or_iff_right ?_).symm
      rintro rfl
      exact hfresh hb
    · rw [if_neg hb, List.map_cons, List.mem_cons, ih, List.map_cons, List.mem_cons, List.mem_cons]
      by_cases hkey : key = b.tableKey
      · simp [hkey, hb]
      · simp [hkey]

/-- A row action is kept if none before it is on its table. What is kept before it are the first ones
among those. -/
theorem split_of_firstPerTable (h : firstPerTable seen rows = front ++ a :: back) :
    ∃ before after, rows = before ++ a :: after ∧ front = firstPerTable seen before ∧
      ∀ b ∈ before, b.tableKey ≠ a.tableKey := by
  induction rows generalizing seen front with
  | nil => simp [firstPerTable] at h
  | cons b rest ih =>
    rw [firstPerTable] at h
    by_cases hb : b.tableKey ∈ seen
    · rw [if_pos hb] at h
      have hmem : a ∈ firstPerTable seen rest := by simp [h]
      have hfresh : a.tableKey ∉ seen := not_mem_seen_of_mem_firstPerTable hmem
      obtain ⟨before, after, rfl, hfront, hother⟩ := ih h
      refine ⟨b :: before, after, rfl, ?_, List.forall_mem_cons.2 ⟨?_, hother⟩⟩
      · rw [firstPerTable, if_pos hb, hfront]
      · exact fun hsame => hfresh (hsame ▸ hb)
    · rw [if_neg hb] at h
      cases front with
      | nil =>
        obtain ⟨rfl, -⟩ := List.cons.inj h
        exact ⟨[], rest, rfl, rfl, by simp⟩
      | cons c front =>
        obtain ⟨rfl, hrest⟩ := List.cons.inj h
        have hmem : a ∈ firstPerTable (b.tableKey :: seen) rest := by simp [hrest]
        have hfresh : a.tableKey ∉ b.tableKey :: seen := not_mem_seen_of_mem_firstPerTable hmem
        obtain ⟨before, after, rfl, hfront, hother⟩ := ih hrest
        refine ⟨b :: before, after, rfl, ?_, List.forall_mem_cons.2 ⟨?_, hother⟩⟩
        · rw [firstPerTable, if_neg hb, hfront]
        · exact fun hsame => hfresh (List.mem_cons.2 (.inl hsame.symm))

end First

/-! ## Repaired references -/

/-- The reference goes on among the rows that were kept. It refers to one of them on its table if it
referred to any, and to none if it did not. -/
structure Reference.Rebound (kept : List RowAction) (r r' : Reference) : Prop where
  columns : r'.columns = r.columns
  targetTable : r'.targetTable = r.targetTable
  unbound : r.target = none → r'.target = none
  bound : r.target.isSome = true →
    ∃ b ∈ kept, r'.target = some b.id ∧ b.tableKey = tableKey r.targetTable

section Repair

variable {before kept rows front back : List RowAction} {seen : SeenRows} {r : Reference}
  {a a' : RowAction} {table : String}

theorem exists_latestOn (h : ∃ b ∈ kept, b.tableKey = tableKey table) :
    ∃ b ∈ kept, latestOn? (seenRows kept) table = some b.id ∧ b.tableKey = tableKey table := by
  unfold latestOn?
  cases hfind : (seenRows kept).find? fun s => s.2 = tableKey table with
  | none =>
    obtain ⟨b, hb, hkey⟩ := h
    have hmem : (b.id, b.tableKey) ∈ seenRows kept :=
      List.mem_reverse.2 (List.mem_map_of_mem hb)
    simpa [hkey] using List.find?_eq_none.1 hfind _ hmem
  | some s =>
    obtain ⟨b, hb, rfl⟩ := List.mem_map.1 (List.mem_reverse.1 (List.mem_of_find?_eq_some hfind))
    exact ⟨b, hb, rfl, by simpa using List.find?_some hfind⟩

/-- A reference in order finds a row again among others that are on the same tables. -/
theorem Reference.rebound_repair (h : r.inOrder (seenRows before) = true)
    (hkept : ∀ b ∈ before, b.tableKey ∈ kept.map RowAction.tableKey) :
    r.Rebound kept (r.repair (seenRows kept)) := by
  by_cases hin : r.inOrder (seenRows kept) = true
  · rw [repair_of_inOrder hin]
    refine ⟨rfl, rfl, id, fun hbound => ?_⟩
    obtain ⟨t, ht⟩ := Option.isSome_iff_exists.1 hbound
    obtain ⟨b, hb, rfl, hkey⟩ := exists_of_inOrder hin ht
    exact ⟨b, hb, ht, hkey⟩
  · have hrepair : r.repair (seenRows kept) =
        { r with target := latestOn? (seenRows kept) r.targetTable } := if_neg hin
    rw [hrepair]
    refine ⟨rfl, rfl, fun hnone => ?_, fun hbound => ?_⟩
    · simp [Reference.inOrder, hnone] at hin
    · obtain ⟨t, ht⟩ := Option.isSome_iff_exists.1 hbound
      obtain ⟨b, hb, -, hkey⟩ := exists_of_inOrder h ht
      obtain ⟨b', hb', hsame⟩ := List.mem_map.1 (hkept b hb)
      exact exists_latestOn ⟨b', hb', hsame.trans hkey⟩

/-- A repaired row action is one whose references were repaired after those before it. -/
theorem split_of_repairAfter (h : repairAfter seen rows = front ++ a' :: back) :
    ∃ front' a back', rows = front' ++ a :: back' ∧ front = repairAfter seen front' ∧
      a' = { a with references := a.references.map (·.repair (seenRows front' ++ seen)) } := by
  induction rows generalizing seen front with
  | nil => simp [repairAfter] at h
  | cons b rest ih =>
    rw [repairAfter] at h
    cases front with
    | nil =>
      obtain ⟨rfl, -⟩ := List.cons.inj h
      exact ⟨[], b, rest, rfl, rfl, by simp [seenRows]⟩
    | cons c front =>
      obtain ⟨rfl, hrest⟩ := List.cons.inj h
      obtain ⟨front', a, back', rfl, rfl, rfl⟩ := ih hrest
      exact ⟨b :: front', a, back', rfl, rfl, by simp [seenRows]⟩

/-- Where nothing is out of order, a repair of all that is kept changes nothing more. -/
theorem onePerTable_eq (h : referencesInOrder [] rows = true) :
    onePerTable rows = repairReferences [] (firstPerTable [] rows) := by
  unfold onePerTable
  dsimp only
  split
  · rename_i hlength
    rw [firstPerTable_sublist.eq_of_length hlength, repairReferences_of_referencesInOrder h]
  · rfl

theorem mem_keys_onePerTable {key : String} :
    key ∈ (onePerTable rows).map RowAction.tableKey ↔ key ∈ rows.map RowAction.tableKey := by
  have hfirst : key ∈ (firstPerTable [] rows).map RowAction.tableKey ↔
      key ∈ rows.map RowAction.tableKey := by simp [mem_keys_firstPerTable]
  unfold onePerTable
  dsimp only
  split
  · exact hfirst
  · rw [map_repairReferences fun _ _ => rfl, hfirst]

theorem referencesInOrder_onePerTable (h : referencesInOrder [] rows = true) :
    referencesInOrder [] (onePerTable rows) = true := by
  rw [onePerTable_eq h]
  exact referencesInOrder_repairReferences _ _

/-- **What is kept is the first on its table, and its references go on among what is kept before.** -/
theorem rebound_onePerTable (hrows : referencesInOrder [] rows = true)
    (h : onePerTable rows = front ++ a' :: back) : ∃ before a after, rows = before ++ a :: after ∧
      (∀ b ∈ before, b.tableKey ≠ a.tableKey) ∧ a' = { a with references := a'.references } ∧
      List.Forall₂ (Reference.Rebound front) a.references a'.references := by
  rw [onePerTable_eq hrows] at h
  obtain ⟨front', a, back', hkept, rfl, rfl⟩ := split_of_repairAfter h
  obtain ⟨before, after, rfl, rfl, hother⟩ := split_of_firstPerTable hkept
  refine ⟨before, a, after, rfl, hother, rfl, ?_⟩
  have hkeys : (repairReferences [] (firstPerTable [] before)).map RowAction.tableKey =
      (firstPerTable [] before).map RowAction.tableKey := map_repairReferences fun _ _ => rfl
  refine List.forall₂_map_right_iff.2 (List.forall₂_same.2 fun r hr => ?_)
  show r.Rebound (repairReferences [] (firstPerTable [] before)) _
  -- a repair changes neither numbers nor tables, so what is repaired in front is seen as before
  rw [show seenRows (firstPerTable [] before) ++ seenRows [] = seenRows (firstPerTable [] before) from
    List.append_nil _, ← @seenRows_repairReferences [] (firstPerTable [] before)]
  refine Reference.rebound_repair (inOrder_of_split hrows hr) fun b hb => ?_
  rw [hkeys, mem_keys_firstPerTable]
  exact ⟨List.mem_map_of_mem hb, by simp⟩

theorem length_filter_isOn (hrows : TablesOnce rows) (ha : tableKey table ∈ rows.map RowAction.tableKey) :
    (rows.filter (·.isOn table)).length = 1 := by
  obtain ⟨a, ha, hkey⟩ := List.mem_map.1 ha
  have hone : rows.filter (fun b => b.tableKey = a.tableKey) = [a] :=
    filter_eq_singleton_of_nodup_map hrows ha
  rw [hkey] at hone
  unfold RowAction.isOn
  rw [hone, List.length_singleton]

end Repair

/-! ## Gathering rows -/

/-- The rows are in order by themselves, and one of them is on each of the tables from which the schema
is closed. -/
structure Seeds (schema : Schema) (tables : List String) (rows : List RowAction) : Prop where
  inOrder : referencesInOrder [] rows = true
  covers : ∀ table ∈ tables, schema.ClosedFrom table → tableKey table ∈ rows.map RowAction.tableKey

namespace Composing

variable {k : Knowledge} {table : String} {forced : Bool}

/-- The engine knows what is given. -/
def Knows (k : Knowledge) (e : Engine) : Prop := e.knowledge = k

theorem knows_draw {α : Type} {d : Random.Draw α} : Succeeds (Knows k) (draw d) fun _ => True :=
  fun _ he => ⟨fun _ _ => ⟨he, trivial⟩, fun _ hfailure => nomatch hfailure⟩

/-- What is built is what the building gives from some supply. -/
theorem knows_build {α : Type} {x : Building α} :
    Succeeds (Knows k) (build x) fun result => ∃ s, (x.run s).1 = result :=
  fun _ he => ⟨fun _ ha => ⟨he, _, Except.ok.inj ha⟩, fun _ hfailure => nomatch hfailure⟩

open Building in
/-- An insertion seeds its table, unless it fails for want of a table. -/
theorem seeds_insertWithReferences {schema : Schema} (s : Supply) :
    Seeds schema [table] (((insertWithReferences schema table).run s).1.toOption.getD []) := by
  cases hrun : ((insertWithReferences schema table).run s).1 with
  | error e =>
    refine ⟨rfl, List.forall_mem_singleton.2 fun hclosed => ?_⟩
    exact (((succeeds_insertWithReferences hclosed) s trivial).2 e hrun).elim
  | ok rows =>
    obtain ⟨-, hinOrder, ⟨front, row, hrows, -, hon⟩, -⟩ :=
      (always_insertWithReferences s trivial).1 rows hrun
    refine ⟨hinOrder, List.forall_mem_singleton.2 fun _ => ?_⟩
    refine List.mem_map.2 ⟨row, ?_, by simpa [RowAction.isOn] using hon⟩
    show row ∈ rows
    simp [hrows]

theorem seeds_selectExisting {schema : Schema} {row : Row} (s : Supply) :
    Seeds schema [table] ((Building.selectExisting table row).run s).1.toOption.toList :=
  ⟨rfl, List.forall_mem_singleton.2 fun _ => List.mem_singleton.2 rfl⟩

theorem seeds_seedTable :
    Succeeds (Knows k) (seedTable table forced) (Seeds k.schema [table]) := by
  refine succeeds_bind (succeeds_chooseRow_of fun _ _ => knows_draw.ensures) fun row _ => ?_
  cases row with
  | some row =>
    refine succeeds_bind knows_build fun result hresult => succeeds_pure ?_
    obtain ⟨s, rfl⟩ := hresult
    exact seeds_selectExisting s
  | none =>
    refine succeeds_bind succeeds_get fun e he => ?_
    obtain rfl : e.knowledge = k := he
    refine succeeds_bind knows_build fun result hresult => succeeds_pure ?_
    obtain ⟨s, rfl⟩ := hresult
    exact seeds_insertWithReferences s

/-- **Rows are gathered without failing**, table by table. -/
theorem seeds_seedTables {tables : List String} :
    Succeeds (Knows k) (seedTables forced tables) (Seeds k.schema tables) := by
  induction tables with
  | nil => exact succeeds_pure ⟨rfl, by simp⟩
  | cons table rest ih =>
    refine succeeds_bind seeds_seedTable fun rows hrows => succeeds_bind ih fun more hmore => ?_
    refine succeeds_pure ⟨referencesInOrder_append_of hrows.inOrder hmore.inOrder, ?_⟩
    rw [List.map_append]
    refine List.forall_mem_cons.2 ⟨fun hclosed => ?_, fun other hother hclosed => ?_⟩
    · exact List.mem_append_left _ (hrows.covers table List.mem_cons_self hclosed)
    · exact List.mem_append_right _ (hmore.covers other hother hclosed)

/-- Seeding a call without rows gathers rows and keeps one for each table. -/
theorem gives_seedCall {e : Engine} {c : Call} (forced : Bool) (hdatabase : e.settings.involveDb = true)
    (hrows : c.rows = []) : ∃ gathered c' e', Gives (seedCall c forced) e c' e' ∧
      (e.knowledge.schema.tables = [] ∧ gathered = [] ∨
        Gives (seedTables forced (e.knowledge.relatedTables c.resource).toList) e gathered e') ∧
      Seeds e.knowledge.schema (e.knowledge.relatedTables c.resource).toList gathered ∧
      c'.rows = onePerTable gathered := by
  by_cases hempty : e.knowledge.schema.tables = []
  · refine ⟨[], c, e, gives_seedCall_of_unwanted (.inl (by simp [hempty])), .inl ⟨hempty, rfl⟩,
      ⟨rfl, fun table _ hclosed => ?_⟩, hrows⟩
    have hfound := hclosed table .refl
    simp [Schema.table?, hempty] at hfound
  · have gathers : Succeeds (Knows e.knowledge)
        (seedTables forced (e.knowledge.relatedTables c.resource).toList) _ := seeds_seedTables
    obtain ⟨gathered, e', hgathered, -, hseeds⟩ := gathers.exists_gives rfl
    cases hwanted : (decide (c.status = .created) &&
        (e.knowledge.relatedTables c.resource).isEmpty && !forced) with
    | true =>
      have htables : (e.knowledge.relatedTables c.resource).toList = [] := by
        simp only [Bool.and_eq_true, SortedSet.isEmpty, List.isEmpty_iff] at hwanted
        exact hwanted.1.2
      rw [htables] at hgathered hseeds ⊢
      obtain ⟨rfl, rfl⟩ := gives_pure.1 hgathered
      exact ⟨[], c, e, gives_seedCall_of_unwanted (.inr hwanted), .inr hgathered, hseeds, hrows⟩
    | false =>
      exact ⟨gathered, _, e', gives_seedCall_of_seedTables (by simp [hdatabase, hempty]) hwanted
        hgathered, .inr hgathered, hseeds, Engine.rows_attachRows_of_nil hrows⟩

end Composing

/-- **Seeding gives each related table one row action.** Take any engine with a database and a call
without rows. Seeding it gives a call, from rows that were gathered for the related tables of its
resource one after another. No two row actions of the call are on one table, and its references are in
order. A related table has exactly one row action if a row was selected for it, or if the schema has all
tables that foreign keys lead to from it. Each row action is the first one on its table that was
gathered, but for its references. Those go on among the row actions before it in the call: what referred
to a row refers to one of them on the same table. -/
theorem seeded_call_has_one_row_per_table {e : Engine} {c : Call} (forced : Bool)
    (hdatabase : e.settings.involveDb = true) (hrows : c.rows = []) :
    ∃ gathered c' e', Gives (Composing.seedCall c forced) e c' e' ∧
      (e.knowledge.schema.tables = [] ∧ gathered = [] ∨
        Gives (Composing.seedTables forced (e.knowledge.relatedTables c.resource).toList)
          e gathered e') ∧
      TablesOnce c'.rows ∧ referencesInOrder [] c'.rows = true ∧
      (∀ table ∈ e.knowledge.relatedTables c.resource,
        (∃ a ∈ gathered, a.isSelection = true ∧ a.table = table) ∨
          e.knowledge.schema.ClosedFrom table →
        (c'.rows.filter (·.isOn table)).length = 1) ∧
      ∀ front a' back, c'.rows = front ++ a' :: back → ∃ before a after,
        gathered = before ++ a :: after ∧ (∀ b ∈ before, b.tableKey ≠ a.tableKey) ∧
        a' = { a with references := a'.references } ∧
        List.Forall₂ (Reference.Rebound front) a.references a'.references := by
  obtain ⟨gathered, c', e', hgives, hgathered, hseeds, hkept⟩ :=
    Composing.gives_seedCall forced hdatabase hrows
  refine ⟨gathered, c', e', hgives, hgathered, ?_⟩
  rw [hkept]
  refine ⟨tablesOnce_onePerTable, referencesInOrder_onePerTable hseeds.inOrder,
    fun table htable hseeded => ?_, fun front a' back h => rebound_onePerTable hseeds.inOrder h⟩
  refine length_filter_isOn tablesOnce_onePerTable (mem_keys_onePerTable.2 ?_)
  rcases hseeded with ⟨a, ha, -, rfl⟩ | hclosed
  · exact List.mem_map_of_mem ha
  · exact hseeds.covers table htable hclosed

namespace Sample

/-- Listing the employees of a department. -/
def listEmployees : Action :=
  ⟨.get, ⟨[.literal "departments", .var "id", .literal "employees"]⟩, [], false, none, none⟩

/-- The resource model of the listing. -/
def staffModel : ResourceModel :=
  ((ResourceModel.ofCatalogue ⟨[listEmployees]⟩).toOption).getD .empty

/-- An engine that lists employees. Both tables of the company are empty. -/
def personnel : Engine where
  settings := .standard
  sampler := ⟨staffModel, ⟨fun _ => 0, 0, 0⟩⟩
  knowledge := (Knowledge.empty 0.6 true).init staffModel company .empty
  nextId := 1
  initialized := true

/-- The listing, before it is seeded. -/
def unseededListing : Call :=
  .unseeded (.unvisited "GET" true 1) (.ofAction "/departments/\x7bid\x7d/employees" listEmployees)
    [listEmployees] .notExisting

end Sample

open Sample in
/-- Departments and employees need one another, and the listing is related to both. -/
theorem listing_seeded_with_one_of_each :
    personnel.settings.involveDb = true ∧ unseededListing.rows = [] ∧
      ∃ c' e', Gives (Composing.seedCall unseededListing false) personnel c' e' ∧
        (c'.rows.filter (·.isOn "departments")).length = 1 ∧
        (c'.rows.filter (·.isOn "employees")).length = 1 ∧ referencesInOrder [] c'.rows = true := by
  have hdatabase : personnel.settings.involveDb = true := rfl
  have hrows : unseededListing.rows = [] := rfl
  obtain ⟨gathered, c', e', hgives, -, -, hinOrder, hone, -⟩ :=
    seeded_call_has_one_row_per_table false hdatabase hrows
  have departmentsRelated : "departments" ∈
      personnel.knowledge.relatedTables unseededListing.resource := by decide +kernel
  have employeesRelated : "employees" ∈
      personnel.knowledge.relatedTables unseededListing.resource := by decide +kernel
  have hschema : personnel.knowledge.schema = company := by decide +kernel
  have hclosed : ∀ table, (company.table? table).isSome = true →
      personnel.knowledge.schema.ClosedFrom table := by
    intro table htable
    rw [hschema]
    exact Schema.closedFrom_of_targets (by decide +kernel) htable
  refine ⟨hdatabase, hrows, c', e', hgives, ?_, ?_, hinOrder⟩
  · exact hone "departments" departmentsRelated (.inr (hclosed _ (by decide +kernel)))
  · exact hone "employees" employeesRelated (.inr (hclosed _ (by decide +kernel)))

end RestScenario
