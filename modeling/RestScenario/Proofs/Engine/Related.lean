import Mathlib.Data.List.Nodup
import RestScenario.Proofs.Call.Reuse
import RestScenario.Proofs.Ordered.Map
import RestScenario.Proofs.Ordered.Set
import RestScenario.Proofs.Random.Draw

/-!
# Scenarios from dependencies

A scenario from dependencies ends with a call on a resource that has relations, after calls on
different resources that it depends on. A seeded call has one row action for each table at most, and
a call that is put at the end drops its insertions into tables that the calls before it provide. So no
table is inserted into twice in the whole scenario (`related_scenario_follows_relations`).
-/

namespace RestScenario

/-! ## Tables that are inserted into -/

/-- The tables that row actions insert into, in order. -/
def insertedTables (rows : List RowAction) : List String :=
  rows.filterMap fun a => if a.isSelection then none else some a.tableKey

variable {rows rows' preceding frontRows : List RowAction} {front : List Call} {table : String}

theorem insertedTables_append :
    insertedTables (rows ++ rows') = insertedTables rows ++ insertedTables rows' :=
  List.filterMap_append

theorem mem_insertedTables : table ∈ insertedTables rows ↔
    ∃ a ∈ rows, a.isSelection = false ∧ a.tableKey = table := by
  unfold insertedTables
  rw [List.mem_filterMap]
  refine exists_congr fun a => and_congr_right fun _ => ?_
  cases a.isSelection <;> simp

/-- References play no part in what is inserted. -/
theorem insertedTables_congr (h : rows.map (fun a => (a.isSelection, a.tableKey)) =
    rows'.map fun a => (a.isSelection, a.tableKey)) : insertedTables rows = insertedTables rows' := by
  have hmap : ∀ rows : List RowAction, insertedTables rows =
      (rows.map fun a => (a.isSelection, a.tableKey)).filterMap fun e =>
        if e.1 then none else some e.2 := by
    intro rows
    rw [List.filterMap_map]
    rfl
  rw [hmap, hmap, h]

theorem insertedTables_sublist : (insertedTables rows).Sublist (rows.map RowAction.tableKey) := by
  induction rows with
  | nil => exact .slnil
  | cons a rest ih =>
    unfold insertedTables at ih ⊢
    rw [List.filterMap_cons, List.map_cons]
    cases a.isSelection with
    | true => exact ih.cons _
    | false => exact ih.cons_cons _

theorem subset_rowsInFront : frontRows ⊆ rowsInFront frontRows front := by
  refine List.foldlRecOn (motive := fun known => frontRows ⊆ known) (front.flatMap (·.rows)) _
    (List.Subset.refl _) fun known h a _ => ?_
  split
  · exact h
  · exact fun p hp => List.mem_append_left _ (h hp)

namespace Call

variable {c : Call} {key : String}

/-- A call that follows others inserts into no table that they provide. -/
theorem insertedTables_bindAfter (honce : TablesOnce c.rows) :
    (insertedTables (c.bindAfter front frontRows).rows).Nodup ∧
      ∀ table ∈ insertedTables (c.bindAfter front frontRows).rows,
        table ∉ (rowsInFront frontRows front).map RowAction.tableKey := by
  have hrows : insertedTables (c.bindAfter front frontRows).rows =
      insertedTables (c.rows.filter (isNeededAfter (rowsInFront frontRows front))) :=
    insertedTables_congr (map_rows_bindAfter fun _ _ => rfl)
  rw [hrows]
  refine ⟨?_, fun table htable hprovided => ?_⟩
  · have hkept : (c.rows.filter (isNeededAfter (rowsInFront frontRows front))).map
        RowAction.tableKey |>.Sublist (c.rows.map RowAction.tableKey) :=
      List.filter_sublist.map _
    exact (insertedTables_sublist.trans hkept).nodup honce
  · obtain ⟨a, ha, hinsert, rfl⟩ := mem_insertedTables.1 htable
    obtain ⟨provider, hmem, hsame⟩ := List.mem_map.1 hprovided
    have hneeded := (List.mem_filter.1 ha).2
    have hany : (rowsInFront frontRows front).any fun p => p.tableKey = a.tableKey :=
      List.any_eq_true.2 ⟨provider, hmem, by simp [hsame]⟩
    simp [isNeededAfter, hinsert, hany] at hneeded

theorem SeededFor.bindAfter (h : c.SeededFor key) :
    (c.bindAfter front frontRows).SeededFor key where
  resource := (resource_of_frame frame_bindAfter).trans h.resource
  once := by
    unfold TablesOnce
    rw [map_rows_bindAfter fun _ _ => rfl]
    exact (List.filter_sublist.map _).nodup h.once

end Call

/-! ## Calls of a scenario -/

namespace Scenario

variable {s : Scenario}

/-- A repair changes nothing of the rows of a scenario but their references. -/
theorem map_rows_repair {β : Type} {f : RowAction → β}
    (hf : ∀ (a : RowAction) (references : List Reference), f { a with references } = f a) :
    (s.repair.calls.flatMap (·.rows)).map f = (s.calls.flatMap (·.rows)).map f := by
  have hcalls : ∀ (preceding : List RowAction) (calls : List Call),
      ((repairCalls preceding calls).flatMap (·.rows)).map f = (calls.flatMap (·.rows)).map f := by
    intro preceding calls
    induction calls generalizing preceding with
    | nil => rfl
    | cons c rest ih =>
      rw [repairCalls, List.flatMap_cons, List.flatMap_cons, List.map_append, List.map_append, ih,
        RestScenario.map_repairReferences hf]
  have hrealign : (s.calls.map Call.realign).flatMap (·.rows) = s.calls.flatMap (·.rows) := by
    rw [List.flatMap_map]
    exact congrArg List.flatten (List.map_congr_left fun c _ => rows_realign)
  unfold repair repairReferences
  dsimp only
  rw [hcalls, hrealign]

/-- No table is inserted into twice by the calls of the scenario. -/
def InsertsOnce (s : Scenario) : Prop := (insertedTables (s.calls.flatMap (·.rows))).Nodup

theorem insertsOnce_repair : s.repair.InsertsOnce ↔ s.InsertsOnce := by
  unfold InsertsOnce
  rw [insertedTables_congr (map_rows_repair fun _ _ => rfl)]

/-- A call that follows all others adds no insertion into a table that has one. -/
theorem InsertsOnce.append {c : Call} (hs : s.InsertsOnce) (honce : TablesOnce c.rows) :
    (Composing.append s c).InsertsOnce := by
  obtain ⟨hnodup, hfresh⟩ :
      (insertedTables (c.bindAfter (s.calls.take s.length) (s.rowsBefore s.length)).rows).Nodup ∧ _ :=
    Call.insertedTables_bindAfter honce
  unfold InsertsOnce Composing.append
  dsimp only
  rw [List.flatMap_append, List.flatMap_singleton, insertedTables_append]
  refine List.nodup_append.2 ⟨hs, hnodup, fun table hfront other hother heq => ?_⟩
  subst heq
  refine hfresh table hother ?_
  -- the rows of all calls so far are among those in front of the new one
  obtain ⟨a, ha, -, rfl⟩ := mem_insertedTables.1 hfront
  refine List.mem_map_of_mem (subset_rowsInFront ?_)
  refine List.mem_append_right _ ?_
  rwa [show s.calls.take s.length = s.calls from List.take_length]

theorem InsertsOnce.foldl_append {calls : List Call} (hs : s.InsertsOnce)
    (honce : ∀ c ∈ calls, TablesOnce c.rows) : (calls.foldl Composing.append s).InsertsOnce :=
  List.foldlRecOn (motive := InsertsOnce) calls _ hs fun _ h c hc => h.append (honce c hc)

end Scenario

/-! ## Sampled calls -/

namespace Composing

variable {key : String} {budget : Nat} {create forced : Bool} {e e' : Engine}

theorem seeded_sampleCall {front : Option (List Call)} :
    Always (sampleCall key create budget forced front) fun result =>
      ∀ c ∈ result, c.SeededFor key := by
  refine ensures_bind always_any fun _ _ => ensures_bind always_any fun e _ => ?_
  extract_lets options afterCreating
  have hcreated : ∀ creating, MadeResult key creating → Always (afterCreating creating) fun result =>
      ∀ c ∈ result, c.SeededFor key := by
    intro creating hcreating
    unfold afterCreating
    extract_lets afterSampling
    have hsampled : ∀ sampled, MadeResult key sampled → Always (afterSampling sampled) fun result =>
        ∀ c ∈ result, c.SeededFor key := by
      intro sampled hsampled
      cases sampled with
      | none => exact ensures_pure (by simp)
      | some call =>
        refine ensures_bind (seeded_seedCall (madeResult_some.1 hsampled)) fun seeded hseeded => ?_
        cases front with
        | none => exact ensures_pure (by simpa using hseeded)
        | some calls => exact ensures_pure (by simpa using hseeded.bindAfter)
    cases creating with
    | none => exact ensures_bind (always_sample Sampler.made_sampleIndependent) hsampled
    | some call => exact ensures_bind (ensures_pure hcreating) hsampled
  split
  · refine ensures_bind always_any fun r _ => ?_
    exact ensures_bind (always_sample Sampler.made_generateOneOf) hcreated
  · exact ensures_bind (ensures_pure madeResult_none) hcreated

theorem seeded_sampleTargets {targets : List String} :
    Always (sampleTargets targets budget) fun calls =>
      (∀ c ∈ calls, TablesOnce c.rows) ∧ (calls.map Call.resource).Sublist targets := by
  induction targets generalizing budget with
  | nil => exact ensures_pure ⟨by simp, .slnil⟩
  | cons target rest ih =>
    unfold sampleTargets
    split
    · exact ensures_pure ⟨by simp, List.nil_sublist _⟩
    · refine ensures_bind seeded_sampleCall fun sampled hsampled => ?_
      cases sampled with
      | none => exact ih.imp fun calls h => ⟨h.1, h.2.cons _⟩
      | some c =>
        obtain ⟨hresource, honce⟩ := hsampled c rfl
        refine ensures_bind ih fun more hmore => ensures_pure ?_
        refine ⟨List.forall_mem_cons.2 ⟨honce, hmore.1⟩, ?_⟩
        rw [List.map_cons, hresource]
        exact hmore.2.cons_cons _

theorem gives_ensureInitialized (h : Gives ensureInitialized e () e') : e = e' := by
  obtain ⟨met, e₁, hmet, h⟩ := gives_bind.1 h
  obtain ⟨rfl, rfl⟩ := gives_get.1 hmet
  split at h
  · simp at h
  · exact (gives_pure.1 h).2

theorem gives_ensureInitialized_of (h : e.initialized = true) : Gives ensureInitialized e () e := by
  refine gives_bind.2 ⟨_, _, gives_get.2 ⟨rfl, rfl⟩, ?_⟩
  rw [h]
  exact gives_pure.2 ⟨rfl, rfl⟩

theorem relationsOf_of_mem_keysWithDependencies {k : Knowledge}
    (h : key ∈ k.keysWithDependencies) : k.relationsOf key ≠ [] := by
  obtain ⟨⟨source, relations⟩, hmem, rfl⟩ := List.mem_map.1 h
  obtain ⟨hentry, hsome⟩ := List.mem_filter.1 hmem
  have hfound : k.relationsOf source = relations := by
    unfold Knowledge.relationsOf
    rw [SortedMap.mem_entries_iff.1 hentry]
    rfl
  rw [hfound]
  simpa using hsome

theorem mem_sampleableTargets {target : String} (h : target ∈ (sampleableTargets e key).toList) :
    target ≠ key ∧ e.canSample target = true ∧
      ∃ r ∈ e.knowledge.relationsOf key, target ∈ r.targets := by
  have hmem : target ∈ sampleableTargets e key := h
  obtain ⟨r, hr, htarget⟩ := List.mem_flatMap.1 (SortedSet.mem_ofList.1 hmem)
  obtain ⟨htarget, htest⟩ := List.mem_filter.1 htarget
  have hother : target ≠ key ∧ e.canSample target = true := by simpa using htest
  exact ⟨hother.1, hother.2, r, hr, htarget⟩

/-- How a scenario from dependencies was made: a key was drawn, a call sampled on it, and then calls on
what it depends on. -/
theorem steps_of_relatedScenario {s : Scenario} (h : Gives relatedScenario e (some s) e') :
    ∃ (key : String) (main : Call) (front : List Call) (e₁ e₂ : Engine),
      Gives (draw (Random.choose (e.knowledge.keysWithDependencies.filter e.canSample))) e (some key)
        e₁ ∧
      Gives (sampleCall key true e.settings.maxTestSize false none) e₁ (some main) e₂ ∧
      Gives (sampleTargets (sampleableTargets e key).toList (e.settings.maxTestSize - main.length)) e₂
        front e' ∧
      s = ((front ++ [main]).foldl append (.ofCalls [] .smartWithDependencies)).repair := by
  obtain ⟨_, e₁, hinitialized, h⟩ := gives_bind.1 h
  obtain rfl := gives_ensureInitialized hinitialized
  obtain ⟨met, e₂, hmet, h⟩ := gives_bind.1 h
  obtain ⟨rfl, rfl⟩ := gives_get.1 hmet
  obtain ⟨chosen, e₂, hdrawn, h⟩ := gives_bind.1 h
  cases chosen with
  | none => simp at h
  | some key =>
    obtain ⟨sampled, e₃, hsampled, h⟩ := gives_bind.1 h
    cases sampled with
    | none => simp at h
    | some main =>
      obtain ⟨front, e₄, hfront, h⟩ := gives_bind.1 h
      obtain ⟨hs, rfl⟩ := gives_pure.1 h
      exact ⟨key, main, front, e₂, e₃, hdrawn, hsampled, hfront, (Option.some.inj hs).symm⟩

/-- The calls of a scenario from dependencies as they are sampled, in order. -/
theorem gives_relatedScenario {s : Scenario} (h : Gives relatedScenario e (some s) e') :
    ∃ (key : String) (main : Call) (front : List Call),
      key ∈ e.knowledge.keysWithDependencies ∧ main.SeededFor key ∧
      (∀ c ∈ front, TablesOnce c.rows) ∧
      (front.map Call.resource).Sublist (sampleableTargets e key).toList ∧
      s = ((front ++ [main]).foldl append (.ofCalls [] .smartWithDependencies)).repair := by
  obtain ⟨key, main, front, e₁, e₂, hdrawn, hsampled, hfront, hs⟩ := steps_of_relatedScenario h
  obtain ⟨source, hdrawn⟩ := gives_draw hdrawn
  obtain ⟨honce, htargets⟩ := seeded_sampleTargets.of_gives hfront
  exact ⟨key, main, front, (List.mem_filter.1 (Random.mem_of_choose hdrawn)).1,
    seeded_sampleCall.of_gives hsampled main rfl, honce, htargets, hs⟩

theorem resources_foldl_append {calls : List Call} {origin : Origin} :
    (calls.foldl append (.ofCalls [] origin)).repair.calls.map Call.resource =
      calls.map Call.resource := by
  rw [Scenario.resources_repair,
    map_calls_foldl_append fun _ _ _ => Call.resource_of_frame Call.frame_bindAt]
  rfl

/-- No two calls of a scenario from dependencies are on one resource. -/
theorem nodup_relatedScenario {s : Scenario} (h : Gives relatedScenario e (some s) e') :
    (s.calls.map Call.resource).Nodup := by
  obtain ⟨key, main, front, -, ⟨hmain, -⟩, -, htargets, rfl⟩ := gives_relatedScenario h
  rw [resources_foldl_append, List.map_append, List.map_singleton, hmain]
  refine List.nodup_append.2 ⟨htargets.nodup SortedSet.nodup_toList, List.nodup_singleton _, ?_⟩
  intro resource hresource other hother heq
  obtain rfl := List.mem_singleton.1 hother
  exact (mem_sampleableTargets (htargets.subset hresource)).1 heq

end Composing

/-- **A scenario from dependencies follows relations and inserts once.** Whatever an engine knows and
whatever words it draws, its last call is on a resource with relations, and each call before that is
on a target of one of these relations. No two calls are on one resource, and no table is inserted into
twice. -/
theorem related_scenario_follows_relations {e e' : Engine} {s : Scenario}
    (h : Gives Composing.relatedScenario e (some s) e') :
    ∃ (front : List Call) (main : Call), s.calls = front ++ [main] ∧
      e.knowledge.relationsOf main.resource ≠ [] ∧
      (∀ c ∈ front, ∃ r ∈ e.knowledge.relationsOf main.resource, c.resource ∈ r.targets) ∧
      (s.calls.map Call.resource).Nodup ∧ s.InsertsOnce := by
  have hdistinct := Composing.nodup_relatedScenario h
  obtain ⟨key, main, front, hkey, ⟨hmain, hrows⟩, honce, htargets, rfl⟩ :=
    Composing.gives_relatedScenario h
  -- composing and repairing leave each call on its resource
  have hresources : ((front ++ [main]).foldl Composing.append
      (.ofCalls [] .smartWithDependencies)).repair.calls.map Call.resource =
      front.map Call.resource ++ [key] := by
    rw [Composing.resources_foldl_append, List.map_append, List.map_singleton, hmain]
  obtain ⟨front', last, hcalls, hfront', hlast⟩ := List.map_eq_append_iff.1 hresources
  obtain ⟨main', rfl, rfl⟩ : ∃ main', last = [main'] ∧ main'.resource = key := by
    obtain ⟨main', hlast, hkey⟩ := List.map_eq_singleton_iff.1 hlast
    exact ⟨main', hlast, hkey⟩
  refine ⟨front', main', hcalls, Composing.relationsOf_of_mem_keysWithDependencies hkey, ?_,
    hdistinct, ?_⟩
  · intro c hc
    have hmem : c.resource ∈ front.map Call.resource := hfront' ▸ List.mem_map_of_mem hc
    exact (Composing.mem_sampleableTargets (htargets.subset hmem)).2.2
  · refine Scenario.insertsOnce_repair.2 (Scenario.InsertsOnce.foldl_append List.nodup_nil ?_)
    intro c hc
    rcases List.mem_append.1 hc with hc | hc
    · exact honce c hc
    · exact List.mem_singleton.1 hc ▸ hrows

/-! ## A composition -/

namespace Composing

variable {e e₁ e₂ e₃ : Engine} {key table : String} {c main : Call} {front : List Call}
  {rows : List RowAction} {budget : Nat}

/-- Samples a call under a template that creates and fits a budget. -/
def sampleCreating (key : String) (budget : Nat) : Composing (Option Call) := do
  let options := (← getThe Engine).options budget
  let r ← sample (Sampler.resource key)
  let fitting := r.creatingTemplates.filter fun t => t.size ≤ budget
  sample (Sampler.generateOneOf key (fitting.map (·.name)) options)

/-- A call that creates is seeded with a fresh row and those that it refers to. -/
theorem gives_sampleCall_of_inserted (hinitialized : e.initialized = true)
    (hcreated : Gives (sampleCreating key budget) e (some c) e₁)
    (hdatabase : (!e₁.settings.involveDb || e₁.knowledge.schema.tables.isEmpty) = false)
    (htables : (e₁.knowledge.relatedTables c.resource).toList = [table])
    (hfew : (e₁.knowledge.snapshot.rows table).length < e₁.settings.minRowsOfTable)
    (hbuilt : Gives (build (Building.insertWithReferences e₁.knowledge.schema table)) e₁ (.ok rows) e₂) :
    Gives (sampleCall key true budget false none) e (some (e₁.attachRows c true (onePerTable rows)))
      e₂ := by
  obtain ⟨_, _, hget, hcreated⟩ := gives_bind.1 hcreated
  obtain ⟨rfl, rfl⟩ := gives_get.1 hget
  obtain ⟨r, e', hr, hcreated⟩ := gives_bind.1 hcreated
  have seeded := gives_seedCall_of_inserted hdatabase htables hfew hbuilt
  refine gives_bind.2 ⟨_, _, gives_ensureInitialized_of hinitialized,
    gives_bind.2 ⟨_, _, gives_get.2 ⟨rfl, rfl⟩, gives_bind.2 ⟨r, e', hr, ?_⟩⟩⟩
  refine gives_bind.2 ⟨some c, e₁, hcreated, gives_bind.2 ⟨some c, e₁, gives_pure.2 ⟨rfl, rfl⟩, ?_⟩⟩
  exact gives_bind.2 ⟨_, e₂, seeded, gives_pure.2 ⟨rfl, rfl⟩⟩

theorem gives_sampleTargets_single (hbudget : budget ≠ 0)
    (h : Gives (sampleCall key true budget false none) e (some c) e₁) :
    Gives (sampleTargets [key] budget) e [c] e₁ := by
  unfold sampleTargets
  rw [if_neg hbudget]
  exact gives_bind.2 ⟨some c, e₁, h, gives_bind.2 ⟨[], e₁, gives_pure.2 ⟨rfl, rfl⟩,
    gives_pure.2 ⟨rfl, rfl⟩⟩⟩

theorem gives_relatedScenario_of_steps (hinitialized : e.initialized = true)
    (hdrawn : Gives (draw (Random.choose (e.knowledge.keysWithDependencies.filter e.canSample))) e
      (some key) e₁)
    (hmain : Gives (sampleCall key true e.settings.maxTestSize false none) e₁ (some main) e₂)
    (hfront : Gives (sampleTargets (sampleableTargets e key).toList
      (e.settings.maxTestSize - main.length)) e₂ front e₃) :
    Gives relatedScenario e
      (some ((front ++ [main]).foldl append (.ofCalls [] .smartWithDependencies)).repair) e₃ := by
  refine gives_bind.2 ⟨_, _, gives_ensureInitialized_of hinitialized,
    gives_bind.2 ⟨_, _, gives_get.2 ⟨rfl, rfl⟩, ?_⟩⟩
  refine gives_bind.2 ⟨some key, e₁, hdrawn, gives_bind.2 ⟨some main, e₂, hmain, ?_⟩⟩
  exact gives_bind.2 ⟨front, e₃, hfront, gives_pure.2 ⟨rfl, rfl⟩⟩

end Composing

namespace Sample

/-- The engine for users that are created and read, after it has drawn a resource with relations. -/
def chosen : Engine :=
  let e := registrar .standard
  ((Composing.draw (Random.choose (e.knowledge.keysWithDependencies.filter e.canSample))).run e).2

/-- An engine after it has sampled a call that creates. -/
def sampledAfter (key : String) (budget : Nat) (e : Engine) : Engine :=
  ((Composing.sampleCreating key budget).run e).2

/-- An engine after it has built a fresh user. -/
def builtAfter (e : Engine) : Engine := ((Composing.build insertUser).run e).2

/-- The engine with its first call, a creation that is seeded with a fresh user. -/
def onceSeeded : Engine := builtAfter (sampledAfter "/users" 10 chosen)

/-- The creation of users, seeded with a fresh user. -/
def seededCreation : Call :=
  (sampledAfter "/users" 10 chosen).attachRows creation true [freshUser 3 1]

/-- The creation of the user that is read. -/
def creationToRead : Call :=
  .unseeded (.unvisited "POST" false 1) (.ofAction "/users/\x7bid\x7d" createUser) [createUser] .created

/-- The creation of the user that is read, seeded with another fresh user. -/
def seededToRead : Call :=
  (sampledAfter "/users/\x7bid\x7d" 9 onceSeeded).attachRows creationToRead true [freshUser 4 1]

/-- Both creations, composed. -/
def createdTwice : Scenario :=
  (([seededToRead] ++ [seededCreation]).foldl Composing.append
    (.ofCalls [] .smartWithDependencies)).repair

end Sample

open Sample in
theorem gives_createdTwice :
    ∃ e', Gives Composing.relatedScenario (registrar .standard) (some createdTwice) e' := by
  have initialized : chosen.initialized = true := by decide +kernel
  have drawn : Gives (Composing.draw (Random.choose
      ((registrar .standard).knowledge.keysWithDependencies.filter (registrar .standard).canSample)))
      (registrar .standard) (some "/users") chosen := gives_of_toOption (by decide +kernel)
  have created : Gives (Composing.sampleCreating "/users" 10) chosen (some creation)
      (sampledAfter "/users" 10 chosen) := gives_of_toOption (by decide +kernel)
  have built : Gives (Composing.build (Building.insertWithReferences
      (sampledAfter "/users" 10 chosen).knowledge.schema "users")) (sampledAfter "/users" 10 chosen)
      (.ok [freshUser 3 1]) onceSeeded :=
    gives_insertUser (by decide +kernel) (by decide +kernel)
  have created' : Gives (Composing.sampleCreating "/users/\x7bid\x7d" 9) onceSeeded (some creationToRead)
      (sampledAfter "/users/\x7bid\x7d" 9 onceSeeded) := gives_of_toOption (by decide +kernel)
  have built' : Gives (Composing.build (Building.insertWithReferences
      (sampledAfter "/users/\x7bid\x7d" 9 onceSeeded).knowledge.schema "users"))
      (sampledAfter "/users/\x7bid\x7d" 9 onceSeeded) (.ok [freshUser 4 1]) _ :=
    gives_insertUser (by decide +kernel) (by decide +kernel)
  have main := Composing.gives_sampleCall_of_inserted initialized created (by decide +kernel)
    (by decide +kernel) (by decide +kernel) built
  have front := Composing.gives_sampleCall_of_inserted (by decide +kernel) created' (by decide +kernel)
    (by decide +kernel) (by decide +kernel) built'
  rw [show onePerTable [freshUser 3 1] = [freshUser 3 1] by decide +kernel] at main
  rw [show onePerTable [freshUser 4 1] = [freshUser 4 1] by decide +kernel] at front
  have targets : (Composing.sampleableTargets (registrar .standard) "/users").toList =
      ["/users/\x7bid\x7d"] := by decide +kernel
  have budget : (registrar .standard).settings.maxTestSize - seededCreation.length = 9 := by
    decide +kernel
  have called : Gives (Composing.sampleTargets
      (Composing.sampleableTargets (registrar .standard) "/users").toList
      ((registrar .standard).settings.maxTestSize - seededCreation.length)) onceSeeded [seededToRead]
      (builtAfter (sampledAfter "/users/\x7bid\x7d" 9 onceSeeded)) := by
    rw [targets, budget]
    exact Composing.gives_sampleTargets_single (by decide) front
  exact ⟨_, Composing.gives_relatedScenario_of_steps (by decide +kernel) drawn main called⟩

open Sample in
/-- Two creations of users were each seeded with a fresh user, and only the first one inserts it. -/
theorem users_inserted_once_for_two_creations :
    ∃ e', Gives Composing.relatedScenario (registrar .standard) (some createdTwice) e' ∧
      [seededToRead, seededCreation].map (·.rows) = [[freshUser 4 1], [freshUser 3 1]] ∧
      createdTwice.calls.map (·.rows) = [[freshUser 4 1], []] ∧
      ∃ (front : List Call) (main : Call), createdTwice.calls = front ++ [main] ∧
        (registrar .standard).knowledge.relationsOf main.resource ≠ [] ∧
        (∀ c ∈ front, ∃ r ∈ (registrar .standard).knowledge.relationsOf main.resource,
          c.resource ∈ r.targets) ∧
        (createdTwice.calls.map Call.resource).Nodup ∧ createdTwice.InsertsOnce := by
  obtain ⟨e', composed⟩ := gives_createdTwice
  exact ⟨e', composed, by decide +kernel, by decide +kernel,
    related_scenario_follows_relations composed⟩

end RestScenario
