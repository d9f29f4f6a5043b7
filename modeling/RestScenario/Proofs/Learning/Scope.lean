import RestScenario.Proofs.Learning.Certainty

/-!
# Knowledge stays within the resources

What is learned from the resources of an API speaks of these alone: every dependency is on one of
them, and tables are related to no others (`Knowledge.Within`). A merge of mutual relations brings
no target that was not one before or is not a member now (`Knowledge.isDependent_updateShared`), and
credits go to the resources of calls. So knowledge stays within the resources after every lesson
that names no others (`Knowledge.Within.learn`).
-/

namespace RestScenario

namespace Knowledge

open RestScenario.Relation

/-! ## Targets of mutual relations -/

section Merged

variable {key target table tag : String} {members : SortedSet String} {probability : Float}
  {confirmed : Bool} {base : Relation} {rs others : List Relation} {k : Knowledge}

theorem exists_target_of_takeIn (hmutual : base.isMutual = true) (hbase : base.Regular key)
    (h : RegularList key others) (htarget : ∃ r ∈ takeIn base others, target ∈ r.targets) :
    target ∈ base.targets ∨ ∃ r ∈ others, target ∈ r.targets := by
  obtain ⟨-, -, htargets⟩ := regular_absorb_narrower hmutual hbase h
  obtain ⟨r, hr, ht⟩ := htarget
  rcases List.mem_append.1 hr with hr | hr
  · exact .inr ⟨r, (List.mem_filter.1 hr).1, ht⟩
  · obtain rfl := List.mem_singleton.1 hr
    exact .inl ((htargets target).1 ht)

/-- Evidence for a shared table brings no targets but the other members. -/
theorem exists_target_of_mergeShared (h : RegularList key rs)
    (htarget : ∃ r ∈ mergeShared key members table probability confirmed tag rs,
      target ∈ r.targets) : (∃ r ∈ rs, target ∈ r.targets) ∨ target ∈ members ∧ target ≠ key := by
  obtain hmerged | ⟨front, r, back, rfl, hcovers, hmerged⟩ :=
    mergeShared_cases key members table probability confirmed tag rs
  · rw [hmerged] at htarget
    rcases exists_target_of_takeIn rfl regular_shared h htarget with ht | ht
    · exact .inr ((SortedSet.mem_filter.1 ht).imp_right of_decide_eq_true)
    · exact .inl ht
  · rw [hmerged] at htarget
    obtain ⟨hmutual, hbase, htargets⟩ := regular_covering (h.regular r (by simp)) hcovers
    rcases exists_target_of_takeIn hmutual hbase h.of_middle htarget with ht | ⟨q, hq, ht⟩
    · rw [htargets] at ht
      exact .inl ⟨r, by simp, ht⟩
    · exact .inl ⟨q, by simp at hq ⊢; tauto, ht⟩

theorem isDependent_fileShared {member source : String} (hk : k.RegularStore)
    (h : (k.fileShared member members table probability confirmed tag).isDependent source target =
      true) : k.isDependent source target = true ∨ target ∈ members ∧ target ≠ source := by
  rw [isDependent_iff] at h ⊢
  by_cases hsource : source = member
  · subst hsource
    unfold fileShared at h
    rw [relationsOf_upsert_self] at h
    exact exists_target_of_mergeShared (hk source) h
  · unfold fileShared at h
    rw [relationsOf_upsert_of_ne hsource] at h
    exact .inl h

end Merged

/-! ## Resources that derive a table -/

section Deriving

variable {tables : SortedMap String TableKnowledge} {table table' key : String}
  {members : SortedSet String}

/-- What all members of groups are stays so when a key with it joins a group. -/
theorem forall_mem_upsert_insert {groups : SortedMap String (SortedSet String)} {P : String → Prop}
    (h : ∀ table members, groups.get? table = some members → ∀ key ∈ members, P key) (hkey : P key)
    (hget : (groups.upsert table fun keys => (keys.getD ∅).insert key).get? table' = some members) :
    ∀ other ∈ members, P other := by
  intro other hother
  by_cases htable : table' = table
  · subst htable
    rw [SortedMap.get?_upsert_self] at hget
    obtain rfl := Option.some.inj hget
    rcases SortedSet.mem_insert.1 hother with rfl | hold
    · exact hkey
    · cases hbefore : groups.get? table' with
      | none =>
        rw [hbefore] at hold
        exact absurd hold List.not_mem_nil
      | some old =>
        rw [hbefore] at hold
        exact h table' old hbefore other hold
  · rw [SortedMap.get?_upsert_of_ne _ htable] at hget
    exact h table' members hget other hother

/-- Tables are related to the resources that derive one. -/
theorem exists_tables_of_derivingResources
    (hget : (derivingResources tables).get? table = some members) (hkey : key ∈ members) :
    ∃ t, tables.get? key = some t := by
  have all : ∀ table members, (derivingResources tables).get? table = some members →
      ∀ key ∈ members, ∃ t, tables.get? key = some t := by
    refine List.foldlRecOn (motive := fun groups : SortedMap String (SortedSet String) =>
      ∀ table members, groups.get? table = some members →
        ∀ key ∈ members, ∃ t, tables.get? key = some t)
      _ _ (fun _ _ hnone => nomatch hnone) fun groups h (table, key) hmem => ?_
    obtain ⟨⟨key', t⟩, hentry, hderived⟩ := List.mem_flatMap.1 hmem
    obtain ⟨_, -, heq⟩ := List.mem_map.1 hderived
    obtain rfl : key' = key := congrArg Prod.snd heq
    exact fun _ _ => forall_mem_upsert_insert h ⟨t, SortedMap.mem_entries_iff.1 hentry⟩
  exact all table members hget key hkey

end Deriving

/-! ## Knowledge about given resources -/

/-- All dependencies are on known resources, and tables are related to known resources alone. -/
structure Within (known : String → Prop) (k : Knowledge) : Prop where
  regular : k.RegularStore
  target : ∀ {source target : String}, k.isDependent source target = true → known target
  tables : ∀ {key : String} {t : TableKnowledge}, k.tables.get? key = some t → known key

variable {known : String → Prop} {k k' : Knowledge}

theorem within_empty (threshold : Float) (tokenParser : Bool) :
    (empty threshold tokenParser).Within known where
  regular := regularStore_empty threshold tokenParser
  target := fun h => absurd h Bool.false_ne_true
  tables := fun h => nomatch h

namespace Within

variable (h : k.Within known)
include h

theorem frame (hdependencies : k'.dependencies = k.dependencies)
    (htables : ∀ {key : String} {t : TableKnowledge}, k'.tables.get? key = some t → known key) :
    k'.Within known := by
  have same : k'.relationsOf = k.relationsOf := by
    unfold relationsOf
    rw [hdependencies]
  refine ⟨fun key => ?_, fun {source target} hdependent => ?_, htables⟩
  · rw [same]
    exact h.regular key
  · rw [isDependent_iff, same] at hdependent
    exact h.target (isDependent_iff.2 hdependent)

theorem updateDependency {source tag : String} {targets : SortedSet String} {probability : Float}
    (htargets : ∀ t ∈ targets, known t) :
    (k.updateDependency source targets tag probability).Within known where
  regular := outlasts_regularStore.dependency trivial h.regular
  target := by
    intro source' target hdependent
    rcases isDependent_updateDependency_iff.1 hdependent with hbefore | ⟨-, hmem⟩
    · exact h.target hbefore
    · exact htargets target hmem
  tables := by
    rw [tables_updateDependency]
    exact h.tables

theorem updateShared {members : SortedSet String} {table tag : String} {probability : Float}
    {confirmed : Bool} (hmembers : ∀ t ∈ members, known t) :
    (k.updateShared members table probability confirmed tag).Within known := by
  refine List.foldlRecOn members.toList _ h fun k hk member hmember => ?_
  refine ⟨outlasts_regularStore.shared trivial hmember hk.regular, fun hdependent => ?_, hk.tables⟩
  rcases isDependent_fileShared hk.regular hdependent with hbefore | ⟨hmem, -⟩
  · exact hk.target hbefore
  · exact hmembers _ hmem

/-! ### Names -/

theorem relateByTable : k.relateByTable.Within known := by
  refine List.foldlRecOn _ _ h fun k' hk' e he => hk'.updateShared fun t ht => ?_
  obtain ⟨hentry, -⟩ := List.mem_filter.1 he
  obtain ⟨_, hget⟩ := exists_tables_of_derivingResources (SortedMap.mem_entries_iff.1 hentry) ht
  exact h.tables hget

theorem relateByType {r other : Resource} {refType : String} (hother : known other.key) :
    (k.relateByType r refType other).Within known := by
  unfold Knowledge.relateByType
  split
  · split
    · exact h
    · dsimp only
      split
      · refine h.updateDependency fun t ht => ?_
        rwa [SortedSet.mem_singleton.1 ht]
      · exact h
  · exact h

theorem relateByTypes {resources : List Resource} (hknown : ∀ r ∈ resources, known r.key) :
    (k.relateByTypes resources).Within known := by
  refine List.foldlRecOn _ _ h fun k hk r _ => List.foldlRecOn _ _ hk fun k hk refType _ => ?_
  exact List.foldlRecOn _ _ hk fun k hk other hother => hk.relateByType (hknown other hother)

theorem init {m : ResourceModel} {schema : Schema} {snapshot : Snapshot}
    (hm : ∀ key r, m.get? key = some r → known key ∧ r.key = key) :
    (k.init m schema snapshot).Within known := by
  have tables : Within known { k with
      schema
      snapshot
      tables := m.resources.map fun _ r =>
        TableKnowledge.ofResource schema k.threshold k.tokenParser r } := by
    refine h.frame rfl fun {key t} hget => ?_
    rw [SortedMap.get?_map] at hget
    obtain ⟨r, hr, -⟩ := Option.map_eq_some_iff.1 hget
    exact (hm key r hr).1
  have hvalues : ∀ r ∈ m.resources.values, known r.key := by
    intro r hr
    obtain ⟨key, hget⟩ := SortedMap.mem_values_iff.1 hr
    obtain ⟨hkey, heq⟩ := hm key r hget
    exact heq ▸ hkey
  have related := tables.relateByTable.relateByTypes hvalues
  exact related.frame rfl related.tables

/-! ### Executions -/

theorem mapTables {resource : String} {f : TableKnowledge → TableKnowledge} (hr : known resource) :
    (k.mapTables resource f).Within known := by
  refine h.frame rfl fun {key t} hget => ?_
  by_cases hkey : key = resource
  · exact hkey ▸ hr
  · unfold Knowledge.mapTables at hget
    rw [SortedMap.get?_upsert_of_ne _ hkey] at hget
    exact h.tables hget

theorem refineActions {calls : List Call} {executions : SortedMap Nat Execution}
    (hcalls : ∀ c ∈ calls, known c.resource) :
    (k.refineActions calls executions).knowledge.Within known := by
  refine List.foldlRecOn _ _ (motive := fun state : Refinement => state.knowledge.Within known) h
    fun state hk ((resource, a), position) hmem => ?_
  have hresource : known resource := by
    obtain ⟨c, hc, ha⟩ := List.mem_flatMap.1 (List.fst_mem_of_mem_zipIdx hmem)
    obtain ⟨_, -, heq⟩ := List.mem_map.1 ha
    exact (Prod.mk.inj heq).1 ▸ hcalls c hc
  dsimp only
  split
  · refine List.foldlRecOn _ _ (motive := fun state : Refinement => state.knowledge.Within known) hk
      fun state hk touched _ => ?_
    unfold refineTable
    dsimp only
    split
    · have refined : Within known (state.knowledge.mapTables resource fun t =>
          conclude a.verb touched.1 touched.2 (t.recordAccess a.name touched.1 touched.2)) :=
        hk.mapTables hresource
      exact refined
    · exact hk
  · exact hk

theorem relateWriters {table : String} : (k.relateWriters table).Within known := by
  unfold Knowledge.relateWriters
  dsimp only
  split
  · refine h.updateShared fun t ht => ?_
    obtain ⟨_, hget, -⟩ := mem_writers.1 ht
    exact h.tables hget
  · exact h

theorem refine {calls : List Call} {executions : SortedMap Nat Execution}
    (hcalls : ∀ c ∈ calls, known c.resource) : (k.refine calls executions).1.Within known :=
  List.foldlRecOn _ _ (h.refineActions hcalls) fun _ hk _ _ => hk.relateWriters

end Within

/-! ### Edits -/

theorem outlastsCredits_within : Inference.OutlastsCredits known (Within known) where
  dependency := by
    intro k source target tag p _ _ htarget hk
    refine hk.updateDependency fun t ht => ?_
    rwa [SortedSet.mem_singleton.1 ht]
  nonDependency := fun _ _ hk => hk.frame rfl hk.tables

end Knowledge

/-! ## Lessons -/

/-- The lesson speaks of known resources alone. -/
def Lesson.Names (known : String → Prop) : Lesson → Prop
  | .dependency _ targets _ _ => ∀ t ∈ targets, known t
  | .shared members _ _ _ _ => ∀ t ∈ members, known t
  | .names m _ _ => ∀ key r, m.get? key = some r → known key ∧ r.key = key
  | .executions calls _ => ∀ c ∈ calls, known c.resource
  | .edit previous current _ =>
    (∀ c ∈ previous.calls, known c.resource) ∧ ∀ c ∈ current.calls, known c.resource
  | .nonDependency _ _ | .snapshot _ => True

/-- **Knowledge stays within the resources that lessons speak of.** -/
theorem Knowledge.Within.learn {known : String → Prop} {k : Knowledge} {lesson : Lesson}
    (h : k.Within known) (hlesson : lesson.Names known) : (k.learn lesson).Within known := by
  cases lesson with
  | dependency source targets tag probability => exact h.updateDependency hlesson
  | nonDependency source target => exact h.frame rfl h.tables
  | shared members table probability confirmed tag => exact h.updateShared hlesson
  | names m schema snapshot => exact h.init hlesson
  | executions calls executions => exact h.refine hlesson
  | snapshot snapshot => exact h.frame rfl h.tables
  | edit previous current verdict =>
    obtain ⟨hprevious, hcurrent⟩ := hlesson
    unfold Knowledge.learn
    dsimp only
    split
    · rename_i hlearned
      exact outlastsCredits_within.learnFrom hcurrent hprevious h hlearned
    · exact h

end RestScenario
