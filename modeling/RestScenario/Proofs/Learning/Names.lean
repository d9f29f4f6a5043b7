import RestScenario.Proofs.Computation
import RestScenario.Proofs.Learning.Certainty
import RestScenario.Proofs.Learning.Growth
import RestScenario.Proofs.Learning.Symmetry
import RestScenario.Proofs.Resource.Offered

/-!
# What names alone tell

Before anything is executed, a source depends on a target for one of two reasons. Both derive a common
table; or a schema type of a body of the source is named like the target, and neither stands on the
path of the other.

Tables are taken up one by one, and a mutual relation that covers the members of a table takes others
in. That brings no dependency beyond the tables: sharing grows by the pairs of each table and no others
(`shares_foldl_shareTable`), and while nothing else was learned, every relation is one of sharing
(`MutualOnly`). Schema types come last and add one target at a time (`dependsOn_relateByTypes`).

From the table on that two resources have in common, a relation of at least the threshold stays with
each of them, since nothing that is learned is lost (`likely_relateByTable`). Main statement:
`names_tell_dependencies`.
-/

namespace RestScenario

namespace Knowledge

open RestScenario.Relation

variable {k k' : Knowledge} {key source target table tag : String} {members : SortedSet String}
  {probability : Float} {confirmed : Bool}

/-! ## Resources that derive a table -/

theorem mem_getD_foldl_upsert {pairs : List (String × String)}
    {m : SortedMap String (SortedSet String)} :
    key ∈ ((pairs.foldl (fun m e => m.upsert e.1 fun keys => (keys.getD ∅).insert e.2) m).get?
        table).getD ∅ ↔ key ∈ (m.get? table).getD ∅ ∨ (table, key) ∈ pairs := by
  induction pairs generalizing m with
  | nil => simp
  | cons e rest ih =>
    rw [List.foldl_cons, ih, SortedMap.get?_upsert, List.mem_cons, or_comm (a := (table, key) = e),
      ← or_assoc, or_right_comm]
    refine or_congr_left ?_
    by_cases htable : table = e.1
    · subst htable
      simp [or_comm, Prod.ext_iff]
    · simp [htable, Prod.ext_iff]

/-- The members filed for a table are the resources that derive it, and a table is filed as soon as a
resource derives it. -/
theorem mem_derivingResources {tables : SortedMap String TableKnowledge} :
    key ∈ ((derivingResources tables).get? table).getD ∅ ↔
      ∃ t, tables.get? key = some t ∧ t.isDerived table = true := by
  unfold derivingResources
  rw [mem_getD_foldl_upsert, List.mem_flatMap]
  constructor
  · rintro (hnone | ⟨⟨key', t⟩, hmem, hpair⟩)
    · exact absurd hnone List.not_mem_nil
    · obtain ⟨table', htable, heq⟩ := List.mem_map.1 hpair
      obtain ⟨rfl, rfl⟩ := Prod.mk.inj heq
      exact ⟨t, SortedMap.mem_entries_iff.1 hmem, SortedMap.mem_keys_iff.1 htable⟩
  · rintro ⟨t, hget, hderived⟩
    refine .inr ⟨(key, t), SortedMap.mem_entries_iff.2 hget, ?_⟩
    exact List.mem_map.2 ⟨table, SortedMap.mem_keys_iff.2 hderived, rfl⟩

/-- Two different resources derive a common table. -/
def DeriveCommon (k : Knowledge) (table source target : String) : Prop :=
  (k.tablesOf source).isDerived table = true ∧ (k.tablesOf target).isDerived table = true ∧
    target ≠ source

theorem isDerived_tablesOf_iff : (k.tablesOf key).isDerived table = true ↔
    ∃ t, k.tables.get? key = some t ∧ t.isDerived table = true := by
  unfold tablesOf
  cases k.tables.get? key with
  | none => exact iff_of_false Bool.false_ne_true (by simp)
  | some t => simp

/-- The tables that several resources derive, with these resources. -/
def sharedTables (k : Knowledge) : List (String × SortedSet String) :=
  (derivingResources k.tables).entries.filter fun e => 1 < e.2.size

theorem mem_of_mem_sharedTables (h : (table, members) ∈ k.sharedTables) :
    key ∈ members ↔ (k.tablesOf key).isDerived table = true := by
  have hget := SortedMap.mem_entries_iff.1 (List.mem_filter.1 h).1
  rw [isDerived_tablesOf_iff, ← mem_derivingResources, hget]
  rfl

theorem DeriveCommon.exists_mem_sharedTables (h : k.DeriveCommon table source target) :
    ∃ members, (table, members) ∈ k.sharedTables ∧ source ∈ members ∧ target ∈ members := by
  obtain ⟨hsource, htarget, hne⟩ := h
  have filed : ∀ key, (k.tablesOf key).isDerived table = true →
      key ∈ ((derivingResources k.tables).get? table).getD ∅ :=
    fun key hkey => mem_derivingResources.2 (isDerived_tablesOf_iff.1 hkey)
  have hsource := filed source hsource
  have htarget := filed target htarget
  cases hget : (derivingResources k.tables).get? table with
  | none =>
    rw [hget] at hsource
    exact absurd hsource List.not_mem_nil
  | some members =>
    rw [hget] at hsource htarget
    refine ⟨members, List.mem_filter.2 ⟨SortedMap.mem_entries_iff.2 hget, ?_⟩, hsource, htarget⟩
    exact decide_eq_true (SortedSet.one_lt_size htarget hsource hne)

/-! ## Mutual relations table by table -/

/-- Relates the resources that derive a table. -/
def shareTable (k : Knowledge) (filed : String × SortedSet String) : Knowledge :=
  k.updateShared filed.2 filed.1 k.threshold false ("table:" ++ filed.1)

theorem relateByTable_eq : k.relateByTable = k.sharedTables.foldl shareTable k := rfl

/-- Sharing grows by the pairs of each table, and by no others. -/
theorem shares_foldl_shareTable {filed : List (String × SortedSet String)} (hk : k.RegularStore) :
    (filed.foldl shareTable k).Shares source target ↔ k.Shares source target ∨
      ∃ e ∈ filed, source ∈ e.2 ∧ target ∈ e.2 ∧ target ≠ source := by
  induction filed generalizing k with
  | nil => simp
  | cons e rest ih =>
    have hstep : (shareTable k e).RegularStore := outlasts_regularStore.whole.shared trivial hk
    rw [List.foldl_cons, ih hstep, List.exists_mem_cons_iff, ← or_assoc]
    exact or_congr_left (shares_updateShared hk)

/-- All relations are mutual. -/
def MutualOnly (k : Knowledge) : Prop := ∀ key, ∀ r ∈ k.relationsOf key, r.isMutual = true

theorem MutualOnly.isDependent_iff (h : k.MutualOnly) :
    k.isDependent source target = true ↔ k.Shares source target := by
  rw [Knowledge.isDependent_iff]
  exact exists_congr fun r => and_congr_right fun hr => (and_iff_right (h source r hr)).symm

theorem isMutual_takeIn {base : Relation} {others : List Relation} (hbase : base.isMutual = true)
    (h : ∀ r ∈ others, r.isMutual = true) : ∀ r ∈ takeIn base others, r.isMutual = true := by
  intro r hr
  rcases List.mem_append.1 hr with hr | hr
  · exact h r (List.mem_filter.1 hr).1
  · rw [List.mem_singleton.1 hr]
    exact List.foldlRecOn (motive := fun r : Relation => r.isMutual = true) _ _ hbase
      fun _ hr _ _ => isMutual_absorb hr

theorem isMutual_mergeShared {rs : List Relation} (h : ∀ r ∈ rs, r.isMutual = true) :
    ∀ r ∈ mergeShared key members table probability confirmed tag rs, r.isMutual = true := by
  obtain hmerged | ⟨front, r, back, rfl, hcovers, hmerged⟩ :=
    mergeShared_cases key members table probability confirmed tag rs
  · rw [hmerged]
    exact isMutual_takeIn rfl h
  · rw [hmerged]
    have hmutual : (r.reinforce probability tag false).isMutual = true := h r (by simp)
    exact isMutual_takeIn (isMutual_addTable hmutual) fun q hq => h q (by simp at hq ⊢; tauto)

theorem mutualOnly_updateShared (h : k.MutualOnly) :
    (k.updateShared members table probability confirmed tag).MutualOnly := by
  refine List.foldlRecOn (motive := MutualOnly) _ _ h fun k hk member _ key => ?_
  by_cases hkey : key = member
  · subst hkey
    rw [relationsOf_upsert_self]
    exact isMutual_mergeShared (hk key)
  · rw [relationsOf_upsert_of_ne hkey]
    exact hk key

/-- **From nothing, tables make those dependent on each other that derive one in common.** -/
theorem isDependent_relateByTable (hk : k.dependencies = ∅) :
    k.relateByTable.isDependent source target = true ↔ ∃ table, k.DeriveCommon table source target := by
  have hnone : ∀ key, k.relationsOf key = [] := by
    intro key
    unfold relationsOf
    rw [hk]
    rfl
  have hregular : k.RegularStore := fun key => by
    rw [hnone]
    exact ⟨by simp, List.nodup_nil⟩
  have hmutual : k.relateByTable.MutualOnly := by
    refine List.foldlRecOn (motive := MutualOnly) _ _ ?_ fun k hk e _ => mutualOnly_updateShared hk
    intro key
    simp [hnone]
  have hshares : ¬ k.Shares source target := by
    rintro ⟨r, hr, -⟩
    simp [hnone] at hr
  rw [hmutual.isDependent_iff, relateByTable_eq, shares_foldl_shareTable hregular, or_iff_right hshares]
  constructor
  · rintro ⟨⟨table, members⟩, he, hsource, htarget, hne⟩
    exact ⟨table, (mem_of_mem_sharedTables he).1 hsource, (mem_of_mem_sharedTables he).1 htarget, hne⟩
  · rintro ⟨table, hcommon⟩
    obtain ⟨members, he, hsource, htarget⟩ := hcommon.exists_mem_sharedTables
    exact ⟨(table, members), he, hsource, htarget, hcommon.2.2⟩

/-! ## Schema types one by one -/

theorem threshold_updateDependency {targets : SortedSet String} :
    (k.updateDependency source targets tag probability).threshold = k.threshold := by
  unfold updateDependency
  split <;> rfl

theorem threshold_updateShared :
    (k.updateShared members table probability confirmed tag).threshold = k.threshold :=
  List.foldlRecOn (motive := fun k' : Knowledge => k'.threshold = k.threshold) _ _ rfl
    fun _ h _ _ => h

/-- One pair becomes dependent under a condition, and the threshold stays. -/
structure Adds (source target : String) (P : Prop) (k k' : Knowledge) : Prop where
  threshold : k'.threshold = k.threshold
  dependent : k'.isDependent source target = true ↔ k.isDependent source target = true ∨ P

theorem Adds.foldl {α : Type} {step : Knowledge → α → Knowledge} {P : α → Prop} {xs : List α}
    (h : ∀ k', k'.threshold = k.threshold → ∀ x ∈ xs, Adds source target (P x) k' (step k' x)) :
    Adds source target (∃ x ∈ xs, P x) k (xs.foldl step k) := by
  induction xs generalizing k with
  | nil => exact ⟨rfl, by simp⟩
  | cons x rest ih =>
    obtain ⟨hthreshold, hdependent⟩ := h k rfl x List.mem_cons_self
    obtain ⟨hthreshold', hdependent'⟩ := ih (k := step k x) fun k' hk' y hy =>
      h k' (hk'.trans hthreshold) y (List.mem_cons_of_mem _ hy)
    refine ⟨hthreshold'.trans hthreshold, ?_⟩
    rw [List.foldl_cons, hdependent', hdependent, List.exists_mem_cons_iff, or_assoc]

/-- A schema type is named like the last literal of a path. -/
def IsNamedLike (threshold : Float) (refType : String) (path : PathTemplate) : Prop :=
  ∃ token, path.lastLiteral? = some token ∧ threshold ≤ Similarity.score refType token

theorem adds_relateByType {r other : Resource} {refType : String} :
    Adds source target (r.key = source ∧ other.key = target ∧ areApart r other = true ∧
      IsNamedLike k.threshold refType other.path) k (k.relateByType r refType other) := by
  have nothing : ∀ {P : Prop}, ¬ P → Adds source target P k k := fun hP =>
    ⟨rfl, (or_iff_left hP).symm⟩
  unfold relateByType IsNamedLike
  by_cases hapart : areApart r other = true
  · rw [if_pos hapart]
    cases htoken : other.path.lastLiteral? with
    | none => exact nothing (by simp)
    | some token =>
      dsimp only
      by_cases hsimilar : k.threshold ≤ Similarity.score refType token
      · rw [if_pos hsimilar]
        refine ⟨threshold_updateDependency, isDependent_updateDependency_iff.trans ?_⟩
        rw [SortedSet.mem_singleton]
        refine or_congr_right ⟨?_, fun h => ⟨h.1.symm, h.2.1.symm⟩⟩
        rintro ⟨rfl, rfl⟩
        exact ⟨rfl, rfl, hapart, token, rfl, hsimilar⟩
      · rw [if_neg hsimilar]
        exact nothing (by simp [hsimilar])
  · rw [if_neg hapart]
    exact nothing fun h => hapart h.2.2.1

theorem adds_relateByTypes {resources : List Resource} :
    Adds source target (∃ r ∈ resources, ∃ refType ∈ TableKnowledge.refTypes r, ∃ other ∈ resources,
      r.key = source ∧ other.key = target ∧ areApart r other = true ∧
      IsNamedLike k.threshold refType other.path) k (k.relateByTypes resources) := by
  refine Adds.foldl fun k₁ h₁ r _ => ?_
  refine (Adds.foldl fun k₂ h₂ refType _ => ?_)
  refine (Adds.foldl fun k₃ h₃ other _ => ?_)
  rw [← h₁, ← h₂, ← h₃]
  exact adds_relateByType

theorem threshold_relateByTable : k.relateByTable.threshold = k.threshold :=
  List.foldlRecOn (motive := fun k' : Knowledge => k'.threshold = k.threshold) _ _ rfl
    fun _ h _ _ => threshold_updateShared.trans h

/-- The knowledge once tables were derived from names, before anything is related. -/
def withTables (k : Knowledge) (m : ResourceModel) (schema : Schema) (snapshot : Snapshot) :
    Knowledge :=
  { k with
    schema
    snapshot
    tables := m.resources.map fun _ r =>
      TableKnowledge.ofResource schema k.threshold k.tokenParser r }

theorem deriveCommon_init_iff {m : ResourceModel} {schema : Schema} {snapshot : Snapshot} :
    (k.init m schema snapshot).DeriveCommon table source target ↔
      (k.withTables m schema snapshot).DeriveCommon table source target := by
  unfold DeriveCommon tablesOf
  rw [tables_init]
  rfl

/-- **What depends on what once names were taken up.** -/
theorem isDependent_init {m : ResourceModel} {schema : Schema} {snapshot : Snapshot}
    (hk : k.dependencies = ∅) :
    (k.init m schema snapshot).isDependent source target = true ↔
      (∃ table, (k.init m schema snapshot).DeriveCommon table source target) ∨
        ∃ r ∈ m.resources.values, ∃ refType ∈ TableKnowledge.refTypes r, ∃ other ∈ m.resources.values,
          r.key = source ∧ other.key = target ∧ areApart r other = true ∧
          IsNamedLike k.threshold refType other.path := by
  have hadds : Adds source target _ (k.withTables m schema snapshot).relateByTable
      ((k.withTables m schema snapshot).relateByTable.relateByTypes m.resources.values) :=
    adds_relateByTypes
  have hnames := hadds.dependent
  rw [isDependent_relateByTable (k := k.withTables m schema snapshot) hk, threshold_relateByTable]
    at hnames
  simp only [deriveCommon_init_iff]
  exact hnames

end Knowledge

/-! ## Relations of at least the threshold -/

namespace Relation

variable {key target : String} {bound : Float} {r r' : Relation}

/-- The relation is mutual with `target`, and of no probability below `bound`. -/
structure Likely (bound : Float) (target : String) (r : Relation) : Prop where
  target : target ∈ r.targets
  shared : r.isMutual = true
  probability : bound ≤ r.probability

theorem Likely.of_keptBy (h : r.Likely bound target) (hkept : r.KeptBy key r') (hne : target ≠ key) :
    r'.Likely bound target where
  target := hkept.targets target h.target hne
  shared := by
    obtain ⟨tables, confirmed, hkind⟩ := isMutual_iff.1 h.shared
    obtain ⟨tables', confirmed', hkind', -⟩ := hkept.shared tables confirmed hkind
    exact isMutual_iff.2 ⟨tables', confirmed', hkind'⟩
  probability := Number.le_trans h.probability hkept.probability

end Relation

namespace Knowledge

open RestScenario.Relation

variable {k k' : Knowledge} {key source target table tag : String} {members : SortedSet String}
  {probability bound : Float} {confirmed : Bool}

/-- Some relation of `key` is likely with `target`. -/
def Likely (bound : Float) (k : Knowledge) (key target : String) : Prop :=
  ∃ r ∈ k.relationsOf key, r.Likely bound target

theorem Likely.of_grows (h : k.Likely bound key target) (hk : k.Sound) (hgrows : k.Grows k')
    (hne : target ≠ key) : k'.Likely bound key target := by
  obtain ⟨r, hr, hlikely⟩ := h
  obtain ⟨r', hr', hkept⟩ := (hgrows hk).2 key r hr
  exact ⟨r', hr', hlikely.of_keptBy hkept hne⟩

/-- What one step of a walk makes likely stays so to its end, where steps lose nothing. -/
theorem likely_foldl {α : Type} {step : Knowledge → α → Knowledge} {xs : List α} {x : α}
    (hgrows : ∀ (k : Knowledge) x, k.threshold.isNaN = false → k.Grows (step k x))
    (hthreshold : ∀ (k : Knowledge) x, (step k x).threshold = k.threshold) (hk : k.Sound) (hx : x ∈ xs)
    (hne : target ≠ key)
    (h : ∀ k', k'.Sound → k'.threshold = k.threshold → (step k' x).Likely bound key target) :
    (xs.foldl step k).Likely bound key target := by
  have grows : ∀ (ys : List α) (k : Knowledge), k.Grows (ys.foldl step k) :=
    fun ys _ => List.foldlRecOn ys step .refl fun _ hgrown y _ =>
      hgrown.trans fun hk => hgrows _ y hk.threshold hk
  obtain ⟨before, after, rfl⟩ := List.append_of_mem hx
  rw [List.foldl_append, List.foldl_cons]
  have hbefore : (before.foldl step k).Sound := (grows before k hk).1
  have hsame : (before.foldl step k).threshold = k.threshold :=
    List.foldlRecOn (motive := fun k' : Knowledge => k'.threshold = k.threshold) before step rfl
      fun _ h _ _ => (hthreshold _ _).trans h
  have hat : (step (before.foldl step k) x).Sound := (hgrows _ x hbefore.threshold hbefore).1
  exact (h _ hbefore hsame).of_grows hat (grows after _) hne

theorem exists_likely_mergeShared {rs : List Relation} (hrs : ∀ r ∈ rs, r.Filed key)
    (hp : probability.isNaN = false) (htarget : target ∈ members) (hne : target ≠ key) :
    ∃ r ∈ mergeShared key members table probability confirmed tag rs,
      r.Likely (Number.clampUnit probability) target := by
  have hunit := Number.isUnit_clampUnit hp
  have hdefined := Number.isNaN_of_isUnit hunit
  obtain hmerged | ⟨front, r, back, rfl, hcovers, hmerged⟩ :=
    mergeShared_cases key members table probability confirmed tag rs
  · rw [hmerged]
    obtain ⟨r', hr', hkept⟩ := (keptBy_takeIn rfl (filed_shared hp) hrs).2 _ (.inl rfl)
    refine ⟨r', hr', Likely.of_keptBy ?_ hkept hne⟩
    exact ⟨SortedSet.mem_filter.2 ⟨htarget, decide_eq_true hne⟩, rfl, Number.le_refl hdefined⟩
  · rw [hmerged]
    obtain ⟨hmutual, hmembers⟩ := Bool.and_eq_true_iff.1 hcovers
    have hr : r.Filed key := hrs r (by simp)
    have hreinforced : (r.reinforce probability tag false).Filed key := filed_reinforce hr
    have hshared : (r.reinforce probability tag false).isMutual = true := hmutual
    -- the covering relation has the other members among its targets already
    have hcovered : target ∈ r.targets := by
      rcases mem_members.1 (SortedSet.isSubset_iff.1 hmembers target htarget) with rfl | hmem
      · exact absurd hr.source hne
      · exact hmem
    have hlikely : (r.reinforce probability tag false).Likely (Number.clampUnit probability) target :=
      ⟨hcovered, hshared,
        Number.le_smaller (Number.le_larger_right hdefined) (Number.isUnit_iff.1 hunit).2⟩
    have hothers : ∀ q ∈ front ++ back, q.Filed key := fun q hq => hrs q (by simp at hq ⊢; tauto)
    obtain ⟨r', hr', hkept⟩ := (keptBy_takeIn (isMutual_addTable hshared)
      (filed_addTable hreinforced) hothers).2 _ (.inl rfl)
    exact ⟨r', hr', (hlikely.of_keptBy (keptBy_addTable hreinforced) hne).of_keptBy hkept hne⟩

theorem grows_updateShared (hp : probability.isNaN = false) :
    k.Grows (k.updateShared members table probability confirmed tag) :=
  fun hk => (outlasts_grows hk).whole.shared hp .refl hk

/-- Each member of a shared table comes to have a relation of its probability with the others. -/
theorem likely_updateShared (hk : k.Sound) (hp : probability.isNaN = false)
    (hsource : source ∈ members) (htarget : target ∈ members) (hne : target ≠ source) :
    (k.updateShared members table probability confirmed tag).Likely (Number.clampUnit probability)
      source target := by
  refine likely_foldl (fun _ _ _ => grows_fileShared hp) (fun _ _ => rfl) hk hsource hne ?_
  intro k' hk' _
  unfold Likely
  rw [relationsOf_upsert_self]
  exact exists_likely_mergeShared (hk'.filed source) hp htarget hne

/-- **Resources that derive a common table are related with at least the threshold.** -/
theorem likely_relateByTable (hk : k.Sound) (h : k.DeriveCommon table source target) :
    k.relateByTable.Likely (Number.clampUnit k.threshold) source target := by
  obtain ⟨members, he, hsource, htarget⟩ := h.exists_mem_sharedTables
  rw [relateByTable_eq]
  refine likely_foldl (fun _ _ hdefined => grows_updateShared hdefined)
    (fun _ _ => threshold_updateShared) hk he h.2.2 ?_
  intro k' hk' hthreshold
  rw [← hthreshold]
  exact likely_updateShared hk' hk'.threshold hsource htarget h.2.2

theorem likely_init {m : ResourceModel} {schema : Schema} {snapshot : Snapshot} (hk : k.Sound)
    (h : (k.init m schema snapshot).DeriveCommon table source target) :
    (k.init m schema snapshot).Likely (Number.clampUnit k.threshold) source target := by
  have hk₁ : (k.withTables m schema snapshot).Sound := ⟨hk.threshold, hk.filed⟩
  have htables : (k.withTables m schema snapshot).relateByTable.Sound :=
    ((outlasts_grows hk₁).whole.others.relateByTable .refl hk₁).1
  have htypes : (k.withTables m schema snapshot).relateByTable.Grows
      ((k.withTables m schema snapshot).relateByTable.relateByTypes m.resources.values) :=
    (outlasts_grows htables).whole.others.relateByTypes m.resources.values .refl
  have hinit : ((k.withTables m schema snapshot).relateByTable.relateByTypes
      m.resources.values).Grows (k.init m schema snapshot) := grows_of_eq rfl rfl
  have hlikely := likely_relateByTable hk₁ (deriveCommon_init_iff.1 h)
  exact hlikely.of_grows htables (htypes.trans hinit) h.2.2

/-! ## A resource model of a catalogue -/

section Catalogue

variable {c : Catalogue} {m : ResourceModel} {schema : Schema} {snapshot : Snapshot}

/-- An action of a resource has a body whose schema type is named like the last literal of a path. -/
def HasBodyNamedLike (threshold : Float) (r : Resource) (path : PathTemplate) : Prop :=
  ∃ action ∈ r.actions, ∃ refType token, action.bodyRefType? = some refType ∧
    path.lastLiteral? = some token ∧ threshold ≤ Similarity.score refType token

theorem hasBodyNamedLike_iff {threshold : Float} {r : Resource} {path : PathTemplate} :
    HasBodyNamedLike threshold r path ↔
      ∃ refType ∈ TableKnowledge.refTypes r, IsNamedLike threshold refType path := by
  unfold HasBodyNamedLike IsNamedLike TableKnowledge.refTypes
  simp only [List.mem_filterMap]
  constructor
  · rintro ⟨action, haction, refType, token, hrefType, hnamed⟩
    exact ⟨refType, ⟨action, haction, hrefType⟩, token, hnamed⟩
  · rintro ⟨refType, ⟨action, haction, hrefType⟩, token, hnamed⟩
    exact ⟨action, haction, refType, token, hrefType, hnamed⟩

theorem isDependent_init_iff (hm : m.InUse c) (hk : k.dependencies = ∅) {r other : Resource}
    (hr : m.get? source = some r) (hother : m.get? target = some other) (hne : source ≠ target) :
    (k.init m schema snapshot).isDependent source target = true ↔
      (∃ table, ((k.init m schema snapshot).tablesOf source).isDerived table = true ∧
        ((k.init m schema snapshot).tablesOf target).isDerived table = true) ∨
      HasBodyNamedLike k.threshold r other.path ∧ r.path.isAncestorOf other.path = false ∧
        other.path.isAncestorOf r.path = false := by
  have resource_eq : ∀ {key r r'}, m.get? key = some r → r' ∈ m.resources.values → r'.key = key →
      r' = r := by
    intro key r r' hr hmem hkey
    obtain ⟨key', hr'⟩ := SortedMap.mem_values_iff.1 hmem
    obtain rfl : key' = key := (hm.key_eq hr').symm.trans hkey
    exact Option.some.inj (hr'.symm.trans hr)
  rw [isDependent_init hk, hasBodyNamedLike_iff]
  refine or_congr (exists_congr fun table => ?_) ?_
  · unfold DeriveCommon
    rw [← and_assoc, and_iff_left hne.symm]
  · have hapart : areApart r other = true ↔
        r.path.isAncestorOf other.path = false ∧ other.path.isAncestorOf r.path = false := by
      have hkeys : other.key ≠ r.key := by
        rw [hm.key_eq hr, hm.key_eq hother]
        exact hne.symm
      simp [areApart, hkeys, and_comm]
    rw [← hapart]
    constructor
    · rintro ⟨r', hr', refType, hrefType, other', hother', hsource, htarget, apart, hnamed⟩
      obtain rfl := resource_eq hr hr' hsource
      obtain rfl := resource_eq hother hother' htarget
      exact ⟨⟨refType, hrefType, hnamed⟩, apart⟩
    · rintro ⟨⟨refType, hrefType, hnamed⟩, apart⟩
      exact ⟨r, SortedMap.mem_values_iff.2 ⟨source, hr⟩, refType, hrefType, other,
        SortedMap.mem_values_iff.2 ⟨target, hother⟩, hm.key_eq hr, hm.key_eq hother, apart, hnamed⟩

theorem isDependent_init_self (hk : k.dependencies = ∅) :
    (k.init m schema snapshot).isDependent key key = false := by
  rw [Bool.eq_false_iff, Ne, isDependent_init hk]
  rintro (⟨table, -, -, hne⟩ | ⟨r, -, refType, -, other, -, rfl, hkey, hapart, -⟩)
  · exact hne rfl
  · simp [areApart, hkey] at hapart

end Catalogue

end Knowledge

/-- **Names tell exactly these dependencies.** Of two different resources, once a fresh engine has taken
up the resource model of a catalogue, one depends on the other exactly when both derive a common table,
or when an action of the one has a body whose schema type is named like the last literal of the other
and neither path is an ancestor of the other. Where a table is derived in common, each has a mutual
relation with the other of no probability below the threshold, and nothing depends on itself. -/
theorem names_tell_dependencies {c : Catalogue} {m : ResourceModel} (schema : Schema)
    (snapshot : Snapshot) (threshold : Float) (tokenParser : Bool)
    (hm : ResourceModel.ofCatalogue c = .ok m) :
    let k := (Knowledge.empty threshold tokenParser).init m schema snapshot
    (∀ a b ra rb, m.get? a = some ra → m.get? b = some rb → a ≠ b →
      (k.isDependent a b = true ↔
        (∃ table, (k.tablesOf a).isDerived table = true ∧ (k.tablesOf b).isDerived table = true) ∨
        Knowledge.HasBodyNamedLike threshold ra rb.path ∧
          ra.path.isAncestorOf rb.path = false ∧ rb.path.isAncestorOf ra.path = false)) ∧
    (threshold.isNaN = false → ∀ a b table, a ≠ b → (k.tablesOf a).isDerived table = true →
      (k.tablesOf b).isDerived table = true →
        k.Likely (Number.clampUnit threshold) a b ∧ k.Likely (Number.clampUnit threshold) b a) ∧
    ∀ key, k.isDependent key key = false := by
  intro k
  have hinUse := ResourceModel.inUse_of_ofCatalogue hm
  refine ⟨fun a b ra rb hra hrb hne => ?_, fun hdefined a b table hne ha hb => ?_, fun key => ?_⟩
  · exact Knowledge.isDependent_init_iff hinUse rfl hra hrb hne
  · have hsound := Knowledge.sound_empty tokenParser hdefined
    exact ⟨Knowledge.likely_init (k := Knowledge.empty threshold tokenParser) hsound
        ⟨ha, hb, hne.symm⟩,
      Knowledge.likely_init (k := Knowledge.empty threshold tokenParser) hsound ⟨hb, ha, hne⟩⟩
  · exact Knowledge.isDependent_init_self rfl

namespace Sample

/-- The invoice of the bureau, whose body is of the schema type of customers. -/
def invoice : Action :=
  { plain .post "invoices" with
    params := [⟨"body", .body (some "customers") [], .integer, true, none, .null⟩] }

/-- Orders and old orders, customers, and invoices. -/
def bureau : Catalogue :=
  ⟨[plain .get "orders", ⟨.get, ⟨[.literal "old", .literal "orders"]⟩, [], false, none, none⟩,
    plain .get "customers", invoice]⟩

/-- The resource model of the bureau. -/
def bureauModel : ResourceModel := ((ResourceModel.ofCatalogue bureau).toOption).getD .empty

/-- The only table of the bureau. -/
def ordersTable : Schema := ⟨[⟨"ORDERS", [⟨"id", .integer, true⟩], []⟩]⟩

/-- What the names of the bureau tell. -/
def named : Knowledge := (Knowledge.empty 0.6 true).init bureauModel ordersTable .empty

/-- A resource of the bureau by its actions and path. -/
theorem exists_bureau (key : String) (actions : List Action) (path : PathTemplate)
    (h : (bureauModel.get? key).map (fun r => (r.actions, r.path)) = some (actions, path)) :
    ∃ r, bureauModel.get? key = some r ∧ r.actions = actions ∧ r.path = path := by
  obtain ⟨r, hr, heq⟩ := Option.map_eq_some_iff.1 h
  exact ⟨r, hr, congrArg Prod.fst heq, congrArg Prod.snd heq⟩

end Sample

open Sample in
theorem invoices_depend_on_customers_by_name :
    named.isDependent "/invoices" "/customers" = true ∧
      named.isDependent "/customers" "/invoices" = false ∧
      named.Likely (Number.clampUnit 0.6) "/orders" "/old/orders" ∧
      named.Likely (Number.clampUnit 0.6) "/old/orders" "/orders" := by
  have hbureau : ResourceModel.ofCatalogue bureau = .ok bureauModel :=
    eq_ok_of_isSome_toOption .empty (by decide +kernel)
  obtain ⟨hiff, hlikely, -⟩ := names_tell_dependencies ordersTable .empty 0.6 true hbureau
  obtain ⟨invoices, hinvoices, hactions, hpath⟩ := exists_bureau "/invoices" [invoice]
    ⟨[.literal "invoices"]⟩ (by decide +kernel)
  obtain ⟨customers, hcustomers, hactions', hpath'⟩ := exists_bureau "/customers"
    [plain .get "customers"] ⟨[.literal "customers"]⟩ (by decide +kernel)
  refine ⟨?_, ?_, ?_⟩
  · refine (hiff _ _ _ _ hinvoices hcustomers (by decide)).2 (.inr ?_)
    rw [hpath, hpath']
    refine ⟨⟨invoice, ?_, "customers", "customers", rfl, rfl, by decide +kernel⟩, by decide, by decide⟩
    rw [hactions]
    exact List.mem_singleton_self _
  · rw [Bool.eq_false_iff, Ne]
    show ¬ ((Knowledge.empty 0.6 true).init bureauModel ordersTable .empty).isDependent
      "/customers" "/invoices" = true
    rw [hiff _ _ _ _ hcustomers hinvoices (by decide)]
    rintro (⟨table, hderived, -⟩ | ⟨⟨action, haction, refType, token, hrefType, -⟩, -⟩)
    · have hnone : (named.tablesOf "/customers").derived = ∅ := by decide +kernel
      have hderived : (named.tablesOf "/customers").isDerived table = true := hderived
      unfold TableKnowledge.isDerived at hderived
      rw [hnone] at hderived
      exact absurd hderived Bool.false_ne_true
    · rw [hactions', List.mem_singleton] at haction
      subst haction
      cases hrefType
  · exact hlikely (by decide) _ _ "orders" (by decide) (by decide +kernel) (by decide +kernel)

end RestScenario
