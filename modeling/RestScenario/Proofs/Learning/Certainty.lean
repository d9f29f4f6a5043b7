import RestScenario.Proofs.Learning.Regular
import RestScenario.Proofs.Learning.Verdict

/-!
# Certain relations of writers

When a resource confirms a table anew, all resources that have confirmed and written the table come
to be mutually related with certainty (`certain_relateWriters`), and they stay so, because certainty
outlasts all evidence (`outlasts_certain`).
-/

namespace RestScenario

theorem SortedSet.one_lt_size {α : Type} [Ord α] {s : SortedSet α} {x y : α} (hx : x ∈ s)
    (hy : y ∈ s) (hne : x ≠ y) : 1 < s.size := by
  obtain ⟨members, increasing⟩ := s
  match members with
  | [] => exact absurd hx List.not_mem_nil
  | [a] => exact absurd ((List.mem_singleton.1 hx).trans (List.mem_singleton.1 hy).symm) hne
  | _ :: _ :: rest => exact Nat.lt_add_left rest.length Nat.one_lt_two

namespace Relation

variable {key target table tag : String} {r other : Relation} {probability : Float}
  {confirmed conflicting : Bool}

/-- The relation is mutual with `target`, confirmed, and of no probability below one. -/
structure Certain (target : String) (r : Relation) : Prop where
  target : target ∈ r.targets
  probability : 1.0 ≤ r.probability
  confirmed : ∃ tables, r.kind = .shared tables true

theorem Certain.isNaN (h : r.Certain target) : r.probability.isNaN = false :=
  (Number.le_iff.1 h.probability).2.1

theorem certain_reinforce (h : r.Certain target) :
    (r.reinforce probability tag conflicting).Certain target where
  target := h.target
  probability :=
    Number.le_smaller (Number.le_trans h.probability (Number.le_larger_left h.isNaN))
      (Number.le_refl rfl)
  confirmed := h.confirmed

theorem certain_addTable (h : r.Certain target) : (r.addTable table confirmed).Certain target := by
  obtain ⟨tables, hkind⟩ := h.confirmed
  unfold addTable
  rw [hkind]
  exact ⟨h.target, h.probability, _, rfl⟩

theorem certain_absorb_self (h : r.Certain target) : (r.absorb other).Certain target where
  target := mem_targets_absorb.2 (.inl h.target)
  probability := Number.le_trans h.probability (Number.le_larger_left h.isNaN)
  confirmed := by
    obtain ⟨tables, hkind⟩ := h.confirmed
    show ∃ tables, RelationKind.merge r.kind other.kind = .shared tables true
    rw [hkind]
    cases other.kind <;> exact ⟨_, rfl⟩

/-- A mutual relation that takes in a certain one becomes certain. -/
theorem certain_absorb (hmutual : r.isMutual = true) (hne : target ≠ r.source)
    (h : other.Certain target) : (r.absorb other).Certain target where
  target := mem_targets_absorb.2 (.inr ⟨.inr h.target, hne⟩)
  probability := Number.le_trans h.probability (Number.le_larger_right h.isNaN)
  confirmed := by
    obtain ⟨tables, was, hkind⟩ := isMutual_iff.1 hmutual
    obtain ⟨tables', hkind'⟩ := h.confirmed
    show ∃ tables, RelationKind.merge r.kind other.kind = .shared tables true
    rw [hkind, hkind']
    exact ⟨tables.union tables', by rw [RelationKind.merge, Bool.or_true]⟩

theorem certain_foldl_absorb {others : List Relation} (hmutual : r.isMutual = true)
    (hne : target ≠ r.source) (h : r.Certain target ∨ ∃ other ∈ others, other.Certain target) :
    (others.foldl absorb r).Certain target := by
  induction others generalizing r with
  | nil => simpa using h
  | cons first rest ih =>
    refine ih (isMutual_absorb hmutual) hne ?_
    rcases h with h | ⟨other, hmem, h⟩
    · exact .inl (certain_absorb_self h)
    · rcases List.mem_cons.1 hmem with rfl | hmem
      · exact .inl (certain_absorb hmutual hne h)
      · exact .inr ⟨other, hmem, h⟩

end Relation

namespace Knowledge

open RestScenario.Relation

variable {k : Knowledge} {key target table tag : String} {targets members : SortedSet String}
  {probability : Float} {confirmed conflicting : Bool} {base : Relation}
  {rs others : List Relation}

/-! ## Lists of relations -/

theorem exists_certain_reinforceOrAdd (h : ∃ r ∈ rs, r.Certain target) :
    ∃ r ∈ reinforceOrAdd key targets tag probability conflicting rs, r.Certain target := by
  obtain ⟨r, hmem, h⟩ := h
  induction rs with
  | nil => exact absurd hmem List.not_mem_nil
  | cons first rest ih =>
    unfold reinforceOrAdd
    split
    · rcases List.mem_cons.1 hmem with rfl | hmem
      · exact ⟨_, List.mem_cons_self, certain_reinforce h⟩
      · exact ⟨r, List.mem_cons_of_mem _ hmem, h⟩
    · rcases List.mem_cons.1 hmem with rfl | hmem
      · exact ⟨r, List.mem_cons_self, h⟩
      · obtain ⟨r', hmem', h'⟩ := ih hmem
        exact ⟨r', List.mem_cons_of_mem _ hmem', h'⟩

theorem exists_certain_takeIn (hmutual : base.isMutual = true) (hne : target ≠ base.source)
    (h : base.Certain target ∨ ∃ r ∈ others, r.Certain target) :
    ∃ r ∈ takeIn base others, r.Certain target := by
  have merged : (base.Certain target ∨
      ∃ r ∈ others.filter (isNarrower base.members), r.Certain target) →
      ∃ r ∈ takeIn base others, r.Certain target := fun h =>
    ⟨_, List.mem_append_right _ (List.mem_singleton_self _), certain_foldl_absorb hmutual hne h⟩
  rcases h with h | ⟨r, hmem, h⟩
  · exact merged (.inl h)
  · by_cases hinside : isNarrower base.members r = true
    · exact merged (.inr ⟨r, List.mem_filter.2 ⟨hmem, hinside⟩, h⟩)
    · exact ⟨r, List.mem_append_left _ (List.mem_filter.2 ⟨hmem, by simpa using hinside⟩), h⟩

/-- Certainty outlasts evidence for a shared table, which may itself be evidence of it. -/
theorem exists_certain_mergeShared (hrs : RegularList key rs) (hne : target ≠ key)
    (h : (∃ r ∈ rs, r.Certain target) ∨ target ∈ members ∧ probability = 1.0 ∧ confirmed = true) :
    ∃ r ∈ mergeShared key members table probability confirmed tag rs, r.Certain target := by
  obtain hmerged | ⟨front, r, back, rfl, hcovers, hmerged⟩ :=
    mergeShared_cases key members table probability confirmed tag rs
  · rw [hmerged]
    refine exists_certain_takeIn rfl hne ?_
    rcases h with h | ⟨hmem, rfl, rfl⟩
    · exact .inr h
    · refine .inl ⟨SortedSet.mem_filter.2 ⟨hmem, decide_eq_true hne⟩, ?_, _, rfl⟩
      show 1.0 ≤ Number.clampUnit 1.0
      decide
  · rw [hmerged]
    obtain ⟨hmutual, hmembers⟩ := Bool.and_eq_true_iff.1 hcovers
    have hsource : r.source = key := (hrs.regular r (by simp)).source
    have hreinforced : (r.reinforce probability tag false).isMutual = true := hmutual
    have hbase : ((r.reinforce probability tag false).addTable table confirmed).source = key := by
      unfold addTable
      split <;> exact hsource
    refine exists_certain_takeIn (isMutual_addTable hreinforced) (hbase ▸ hne) ?_
    rcases h with ⟨q, hmem, h⟩ | ⟨hmem, rfl, rfl⟩
    · have hmem : q = r ∨ q ∈ front ++ back := by simp at hmem ⊢; tauto
      rcases hmem with rfl | hmem
      · exact .inl (certain_addTable (certain_reinforce h))
      · exact .inr ⟨q, hmem, h⟩
    · have htarget : target ∈ r.targets := by
        rcases mem_members.1 (SortedSet.isSubset_iff.1 hmembers target hmem) with rfl | hmem
        · exact absurd hsource hne
        · exact hmem
      obtain ⟨tables, was, hkind⟩ := isMutual_iff.1 hreinforced
      left
      unfold addTable
      rw [hkind]
      refine ⟨htarget, ?_, tables.insert table, by simp⟩
      exact Number.le_smaller (Number.le_larger_right rfl) (Number.le_refl rfl)

/-! ## The store -/

/-- Some relation of `key` is certain with `target`. -/
def Certain (k : Knowledge) (key target : String) : Prop :=
  ∃ r ∈ k.relationsOf key, r.Certain target

theorem certain_fileShared (hk : k.RegularStore) (hne : target ≠ key)
    (h : k.Certain key target ∨ target ∈ members ∧ probability = 1.0 ∧ confirmed = true) :
    (k.fileShared key members table probability confirmed tag).Certain key target := by
  unfold Certain fileShared
  rw [relationsOf_upsert_self]
  exact exists_certain_mergeShared (hk key) hne h

/-- Certainty outlasts all evidence. -/
theorem outlasts_certain (hne : target ≠ key) :
    Outlasts (fun _ => True) fun k => k.RegularStore ∧ k.Certain key target where
  defined := fun _ => trivial
  threshold := fun _ => trivial
  frame := by
    rintro k k' ⟨hk, r, hr, h⟩ hthreshold hdependencies
    refine ⟨outlasts_regularStore.frame hk hthreshold hdependencies, r, ?_, h⟩
    unfold relationsOf at hr ⊢
    rwa [hdependencies]
  dependency := by
    rintro k source targets tag p hp ⟨hk, h⟩
    refine ⟨outlasts_regularStore.dependency hp hk, ?_⟩
    by_cases hkey : key = source
    · subst hkey
      unfold updateDependency
      split
      · exact h
      · unfold Certain
        rw [relationsOf_upsert_self]
        exact exists_certain_reinforceOrAdd h
    · unfold Certain
      rwa [relationsOf_updateDependency_of_ne hkey]
  shared := by
    rintro k member members table p confirmed tag hp hmem ⟨hk, h⟩
    refine ⟨outlasts_regularStore.shared hp hmem hk, ?_⟩
    by_cases hkey : key = member
    · subst hkey
      exact certain_fileShared hk hne (.inl h)
    · unfold Certain fileShared
      rwa [relationsOf_upsert_of_ne hkey]

/-- Members that share a table for certain are certainly related. -/
theorem certain_updateShared (hk : k.RegularStore) (hkey : key ∈ members) (htarget : target ∈ members)
    (hne : target ≠ key) : (k.updateShared members table 1.0 true tag).Certain key target := by
  obtain ⟨before, after, hmembers⟩ := List.append_of_mem hkey
  have member : ∀ m ∈ before ++ key :: after, m ∈ members := by
    rw [← hmembers]
    exact fun m hm => hm
  let file (k : Knowledge) (m : String) : Knowledge := k.fileShared m members table 1.0 true tag
  show (members.toList.foldl file k).Certain key target
  rw [hmembers, List.foldl_append, List.foldl_cons]
  have hbefore : (before.foldl file k).RegularStore :=
    List.foldlRecOn before file hk fun k hk m hm =>
      outlasts_regularStore.shared trivial (member m (by simp [hm])) hk
  have hat : (file (before.foldl file k) key).RegularStore ∧
      (file (before.foldl file k) key).Certain key target :=
    ⟨outlasts_regularStore.shared trivial hkey hbefore,
      certain_fileShared hbefore hne (.inr ⟨htarget, rfl, rfl⟩)⟩
  have hafter : (after.foldl file (file (before.foldl file k) key)).RegularStore ∧
      (after.foldl file (file (before.foldl file k) key)).Certain key target :=
    List.foldlRecOn (motive := fun k : Knowledge => k.RegularStore ∧ k.Certain key target)
      after file hat fun k hk m hm =>
        (outlasts_certain hne).shared trivial (member m (by simp [hm])) hk
  exact hafter.2

/-! ## Executions -/

theorem mem_writers :
    key ∈ k.writers table ↔
      ∃ t, k.tables.get? key = some t ∧ t.isConfirmed table = true ∧ t.writes table = true := by
  unfold writers
  rw [SortedSet.mem_ofList]
  simp only [List.mem_map, List.mem_filter, Prod.exists, Bool.and_eq_true]
  constructor
  · rintro ⟨key', t, ⟨hmem, hwriter⟩, rfl⟩
    exact ⟨t, SortedMap.mem_entries_iff.1 hmem, hwriter⟩
  · rintro ⟨t, hget, hwriter⟩
    exact ⟨key, t, ⟨SortedMap.mem_entries_iff.2 hget, hwriter⟩, rfl⟩

theorem mem_writers_iff_tablesOf : key ∈ k.writers table ↔
    (k.tablesOf key).isConfirmed table = true ∧ (k.tablesOf key).writes table = true := by
  rw [mem_writers]
  unfold tablesOf
  cases k.tables.get? key with
  | none => exact iff_of_false (by simp) fun hwriter => absurd hwriter.1 Bool.false_ne_true
  | some t => simp

/-- **The writers of a table become certainly related** when one of them confirms it anew. -/
theorem certain_relateWriters (hk : k.RegularStore) (hkey : key ∈ k.writers table)
    (htarget : target ∈ k.writers table) (hne : target ≠ key) :
    (k.relateWriters table).Certain key target := by
  have several : 1 < (k.writers table).size := SortedSet.one_lt_size htarget hkey hne
  unfold relateWriters
  dsimp only
  rw [if_pos several]
  exact certain_updateShared hk hkey htarget hne

/-- So they do when tables are taken up one after another. -/
theorem certain_foldl_relateWriters {tables : List String} (hmem : table ∈ tables)
    (hk : k.RegularStore) (hkey : key ∈ k.writers table) (htarget : target ∈ k.writers table)
    (hne : target ≠ key) : (tables.foldl relateWriters k).Certain key target := by
  obtain ⟨before, after, rfl⟩ := List.append_of_mem hmem
  rw [List.foldl_append, List.foldl_cons]
  obtain ⟨hbefore, htables⟩ : (before.foldl relateWriters k).RegularStore ∧
      (before.foldl relateWriters k).tables = k.tables :=
    List.foldlRecOn (motive := fun k' : Knowledge => k'.RegularStore ∧ k'.tables = k.tables)
      before relateWriters ⟨hk, rfl⟩ fun k' h _ _ =>
        ⟨outlasts_regularStore.relateWriters h.1, tables_relateWriters.trans h.2⟩
  have hwriters : (before.foldl relateWriters k).writers table = k.writers table := by
    unfold writers
    rw [htables]
  have hat := certain_relateWriters hbefore (hwriters ▸ hkey) (hwriters ▸ htarget) hne
  exact (List.foldlRecOn
    (motive := fun k' : Knowledge => k'.RegularStore ∧ k'.Certain key target) after relateWriters
    ⟨outlasts_regularStore.relateWriters hbefore, hat⟩
    fun _ h _ _ => (outlasts_certain hne).relateWriters h).2

theorem tables_refine {calls : List Call} {executions : SortedMap Nat Execution} :
    (k.refine calls executions).1.tables = (k.refineActions calls executions).knowledge.tables :=
  List.foldlRecOn (motive := fun k' : Knowledge => k'.tables = _) _ _ rfl
    fun _ h _ _ => tables_relateWriters.trans h

theorem tablesOf_refine {calls : List Call} {executions : SortedMap Nat Execution} :
    (k.refine calls executions).1.tablesOf key =
      (k.refineActions calls executions).knowledge.tablesOf key := by
  unfold tablesOf
  rw [tables_refine]

end Knowledge

namespace Sample

/-- An action without parameters. -/
def plain (v : Verb) (name : String) : Action := ⟨v, ⟨[.literal name]⟩, [], false, none, none⟩

/-- Orders that can be read, invoices and bills. -/
def office : ResourceModel :=
  ((ResourceModel.ofCatalogue ⟨[plain .post "orders", plain .get "orders", plain .post "invoices",
    plain .post "bills"]⟩).toOption).getD .empty

/-- The office with a table of orders that has no rows. -/
def opened : Knowledge :=
  (Knowledge.empty 0.6 true).init office ⟨[⟨"ORDERS", [⟨"id", .integer, true⟩], []⟩]⟩
    (Snapshot.empty.addTable "orders")

/-- One action that did something to the database. -/
def run (v : Verb) (name : String) (e : Execution) : List Call × SortedMap Nat Execution :=
  ([.unseeded (.unvisited v.name true 1) (.ofAction ("/" ++ name) (plain v name)) [plain v name]
    .notExisting], .ofList [(0, e)])

/-- A `POST` that inserts an order. -/
def inserts (name : String) : List Call × SortedMap Nat Execution :=
  run .post name (Execution.empty.withInsert "orders")

/-- A `GET` that queries orders. -/
def queries (name : String) : List Call × SortedMap Nat Execution :=
  run .get name (Execution.empty.withQuery "orders")

end Sample

end RestScenario
