import RestScenario.Proofs.Learning.Evidence
import RestScenario.Proofs.Learning.Relation

/-!
# Knowledge grows

Whatever an engine learns, each relation that it had stays kept by one that it has (`Grows`). The
two ways in which relations change are shown to do so list by list: evidence for a dependency
(`listGrows_reinforceOrAdd`) and evidence for a shared table (`listGrows_mergeShared`). So growth
outlasts all evidence of defined probability (`outlasts_grows`).
-/

namespace RestScenario

open RestScenario.Relation

/-! ## One list of relations -/

/-- The relations stored under `key` become others that keep each of them. -/
def Relation.ListGrows (key : String) (rs rs' : List Relation) : Prop :=
  (∀ r ∈ rs, r.Filed key) →
    (∀ r' ∈ rs', r'.Filed key) ∧ ∀ r ∈ rs, ∃ r' ∈ rs', r.KeptBy key r'

namespace Knowledge

variable {key source table tag : String} {targets members : SortedSet String}
  {probability : Float} {confirmed conflicting : Bool}

theorem listGrows_reinforceOrAdd (h : probability.isNaN = false) (rs : List Relation) :
    ListGrows key rs (reinforceOrAdd key targets tag probability conflicting rs) := by
  induction rs with
  | nil =>
    intro _
    exact ⟨List.forall_mem_singleton.2 (filed_simple h), by simp⟩
  | cons r rest ih =>
    intro hfiled
    obtain ⟨hr, hrest⟩ := List.forall_mem_cons.1 hfiled
    unfold reinforceOrAdd
    split
    · refine ⟨List.forall_mem_cons.2 ⟨filed_reinforce hr, hrest⟩,
        List.forall_mem_cons.2 ⟨⟨_, List.mem_cons_self, keptBy_reinforce hr⟩, fun q hq => ?_⟩⟩
      exact ⟨q, List.mem_cons_of_mem _ hq, (hrest q hq).keptBy_self⟩
    · obtain ⟨filed, kept⟩ := ih hrest
      refine ⟨List.forall_mem_cons.2 ⟨hr, filed⟩,
        List.forall_mem_cons.2 ⟨⟨r, List.mem_cons_self, hr.keptBy_self⟩, fun q hq => ?_⟩⟩
      obtain ⟨q', hq', hkept⟩ := kept q hq
      exact ⟨q', List.mem_cons_of_mem _ hq', hkept⟩

/-- A mutual relation that takes in some of the others keeps itself and all of them. -/
theorem keptBy_takeIn {base : Relation} {others : List Relation} (hmutual : base.isMutual = true)
    (hbase : base.Filed key) (h : ∀ r ∈ others, r.Filed key) :
    (∀ r' ∈ takeIn base others, r'.Filed key) ∧
      ∀ r, r = base ∨ r ∈ others → ∃ r' ∈ takeIn base others, r.KeptBy key r' := by
  obtain ⟨filed, keptBase, keptInside⟩ := foldl_absorb (others.filter (isNarrower base.members))
    hmutual hbase fun r hr => h r (List.mem_filter.1 hr).1
  refine ⟨?_, ?_⟩
  · intro r' hr'
    rcases List.mem_append.1 hr' with hr' | hr'
    · exact h r' (List.mem_filter.1 hr').1
    · rw [List.mem_singleton.1 hr']
      exact filed
  · rintro r (rfl | hr)
    · exact ⟨_, List.mem_append_right _ (List.mem_singleton_self _), keptBase⟩
    · cases hin : isNarrower base.members r with
      | true =>
        exact ⟨_, List.mem_append_right _ (List.mem_singleton_self _),
          keptInside r (List.mem_filter.2 ⟨hr, hin⟩)⟩
      | false =>
        refine ⟨r, List.mem_append_left _ (List.mem_filter.2 ⟨hr, ?_⟩), (h r hr).keptBy_self⟩
        rw [hin]
        rfl

/-- **Evidence for a shared table loses no relation of a member**, although it takes the list
apart. -/
theorem listGrows_mergeShared (h : probability.isNaN = false) (rs : List Relation) :
    ListGrows key rs (mergeShared key members table probability confirmed tag rs) := by
  intro hfiled
  obtain hmerged | ⟨front, covering, back, rfl, hcovers, hmerged⟩ :=
    mergeShared_cases key members table probability confirmed tag rs
  · rw [hmerged]
    obtain ⟨filed, kept⟩ := keptBy_takeIn rfl (filed_shared h) hfiled
    exact ⟨filed, fun r hr => kept r (.inr hr)⟩
  · rw [hmerged]
    have hcovering : covering.Filed key := hfiled covering (by simp)
    have hmutual : covering.isMutual = true := (Bool.and_eq_true_iff.1 hcovers).1
    have hreinforced : (covering.reinforce probability tag false).Filed key :=
      filed_reinforce hcovering
    have hothers : ∀ r ∈ front ++ back, r.Filed key := fun r hr =>
      hfiled r (by simp at hr ⊢; tauto)
    obtain ⟨filed, kept⟩ := keptBy_takeIn
      (isMutual_addTable (r := covering.reinforce probability tag false) hmutual)
      (filed_addTable hreinforced) hothers
    refine ⟨filed, fun r hr => ?_⟩
    by_cases hr' : r ∈ front ++ back
    · exact kept r (.inr hr')
    · obtain rfl : r = covering := by simp at hr hr'; tauto
      obtain ⟨r', hmem, hkept⟩ := kept _ (.inl rfl)
      exact ⟨r', hmem, (keptBy_reinforce hcovering).trans
        ((keptBy_addTable hreinforced).trans hkept)⟩

/-! ## All lists -/

/-- The threshold is defined, and all relations are stored under their sources with probabilities
of the unit interval. -/
structure Sound (k : Knowledge) : Prop where
  threshold : k.threshold.isNaN = false
  filed : ∀ key, ∀ r ∈ k.relationsOf key, r.Filed key

/-- Sound knowledge becomes sound knowledge that keeps every relation. -/
def Grows (k k' : Knowledge) : Prop :=
  k.Sound → k'.Sound ∧
    ∀ key, ∀ r ∈ k.relationsOf key, ∃ r' ∈ k'.relationsOf key, r.KeptBy key r'

variable {k k' k'' : Knowledge}

theorem sound_empty {threshold : Float} (tokenParser : Bool) (h : threshold.isNaN = false) :
    (empty threshold tokenParser).Sound :=
  ⟨h, fun _ _ hr => absurd hr List.not_mem_nil⟩

theorem Grows.trans (h : k.Grows k') (h' : k'.Grows k'') : k.Grows k'' := by
  intro hk
  obtain ⟨hk', kept⟩ := h hk
  obtain ⟨hk'', kept'⟩ := h' hk'
  refine ⟨hk'', fun key r hr => ?_⟩
  obtain ⟨r', hr', hkept⟩ := kept key r hr
  obtain ⟨r'', hr'', hkept'⟩ := kept' key r' hr'
  exact ⟨r'', hr'', hkept.trans hkept'⟩

/-- Knowledge grows when its relations stay as they are. -/
theorem grows_of_eq (hthreshold : k'.threshold = k.threshold)
    (hdependencies : k'.dependencies = k.dependencies) : k.Grows k' := by
  intro hk
  have same : k'.relationsOf = k.relationsOf := by
    unfold relationsOf
    rw [hdependencies]
  refine ⟨⟨hthreshold ▸ hk.threshold, ?_⟩, fun key r hr => ⟨r, ?_, (hk.filed key r hr).keptBy_self⟩⟩
  · rw [same]
    exact hk.filed
  · rw [same]
    exact hr

theorem Grows.refl : k.Grows k := grows_of_eq rfl rfl

/-- Knowledge grows when one of its lists does. -/
theorem grows_upsert {f : Option (List Relation) → List Relation}
    (h : ListGrows key (k.relationsOf key) (f (k.dependencies.get? key))) :
    k.Grows { k with dependencies := k.dependencies.upsert key f } := by
  intro hk
  obtain ⟨filed, kept⟩ := h (hk.filed key)
  refine ⟨⟨hk.threshold, fun key' => ?_⟩, fun key' => ?_⟩ <;> by_cases hne : key' = key
  · rw [hne, relationsOf_upsert_self]
    exact filed
  · rw [relationsOf_upsert_of_ne hne]
    exact hk.filed key'
  · rw [hne, relationsOf_upsert_self]
    exact kept
  · rw [relationsOf_upsert_of_ne hne]
    exact fun r hr => ⟨r, hr, (hk.filed key' r hr).keptBy_self⟩

/-! ## Evidence -/

theorem grows_updateDependency (h : probability.isNaN = false) :
    k.Grows (k.updateDependency source targets tag probability) := by
  unfold updateDependency
  split
  · exact .refl
  · exact grows_upsert (listGrows_reinforceOrAdd h _)

theorem grows_fileShared (h : probability.isNaN = false) :
    k.Grows (k.fileShared key members table probability confirmed tag) :=
  grows_upsert (listGrows_mergeShared h _)

/-- What sound knowledge grows into goes on growing. -/
theorem outlasts_grows (hk : k.Sound) : Outlasts (·.isNaN = false) k.Grows where
  defined := id
  threshold := fun h => (h hk).1.threshold
  frame := fun h hthreshold hdependencies => h.trans (grows_of_eq hthreshold hdependencies)
  dependency := fun hp h => h.trans (grows_updateDependency hp)
  shared := fun hp _ h => h.trans (grows_fileShared hp)

end Knowledge

end RestScenario
