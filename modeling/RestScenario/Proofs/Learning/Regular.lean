import Mathlib.Data.List.Nodup
import RestScenario.Proofs.Learning.Lessons

/-!
# The store of relations is regular

Each relation stands under its source, is of the kind that its targets tell, and lists no tag twice;
no two relations of a source have the same targets (`Regular`). A mutual relation is widened and
filed without a look for another one with its new targets. It still has none: whatever has its
targets lies inside it and is taken in, the relation of the source to itself apart, which has the
source as target (`regular_takeIn`).

Main statement: `store_is_regular`.
-/

namespace RestScenario

theorem SortedSet.isSubset_iff {α : Type} [Ord α] [DecidableEq α] {s t : SortedSet α} :
    s.isSubset t = true ↔ ∀ x ∈ s, x ∈ t := by
  unfold isSubset
  simp only [List.all_eq_true, decide_eq_true_iff]
  exact Iff.rfl

namespace Relation

variable {key table tag : String} {r other : Relation} {targets members : SortedSet String}
  {probability : Float} {confirmed conflicting : Bool}

/-- What is stored under `key` has that source and is a relation of it to itself exactly when it has
no other target; a mutual one does not have it as target. No probability is above one, and no tag is
listed twice. -/
structure Regular (key : String) (r : Relation) : Prop where
  source : r.source = key
  onSelf : r.kind = .onSelf ↔ r.targets = .singleton key
  others : r.isMutual = true → key ∉ r.targets
  atMostOne : ¬ 1.0 < r.probability
  provenance : r.provenance.Nodup

/-! ## New relations -/

theorem not_one_lt_clampUnit : ¬ 1.0 < Number.clampUnit probability := by
  unfold Number.clampUnit
  split
  · decide
  · split
    · decide
    · assumption

theorem regular_simple : (simple key targets probability tag).Regular key where
  source := rfl
  onSelf := by
    show (if targets.toList = [key] then RelationKind.onSelf else .simple) = .onSelf ↔ _
    rw [SortedSet.ext_iff]
    split <;> simp_all [SortedSet.singleton, simple]
  others := by
    intro hmutual
    obtain ⟨tables, confirmed, hkind⟩ := isMutual_iff.1 hmutual
    simp only [simple] at hkind
    split at hkind <;> exact absurd hkind (by simp)
  atMostOne := not_one_lt_clampUnit
  provenance := List.nodup_singleton tag

/-- A mutual relation that does not have its source as target is none to itself. -/
theorem onSelf_iff_of_isMutual (hmutual : r.isMutual = true) (h : key ∉ r.targets) :
    r.kind = .onSelf ↔ r.targets = .singleton key := by
  obtain ⟨tables, confirmed, hkind⟩ := isMutual_iff.1 hmutual
  constructor
  · intro hself
    exact absurd (hkind.symm.trans hself) (by simp)
  · intro htargets
    rw [htargets] at h
    exact absurd (SortedSet.mem_singleton.2 rfl) h

theorem not_mem_targets_shared :
    key ∉ (shared key members table probability confirmed tag).targets := by
  intro h
  obtain ⟨-, hne⟩ := SortedSet.mem_filter.1 h
  simp at hne

theorem regular_shared : (shared key members table probability confirmed tag).Regular key where
  source := rfl
  onSelf := onSelf_iff_of_isMutual rfl not_mem_targets_shared
  others := fun _ => not_mem_targets_shared
  atMostOne := not_one_lt_clampUnit
  provenance := List.nodup_singleton tag

/-! ## New evidence -/

theorem nodup_addTag {tags : List String} (h : tags.Nodup) : (addTag tags tag).Nodup := by
  unfold addTag
  split
  · exact h
  · rename_i hnew
    refine List.nodup_append.2 ⟨h, List.nodup_singleton tag, ?_⟩
    rintro a ha b hb rfl
    rw [List.mem_singleton.1 hb] at ha
    exact hnew (List.contains_iff_mem.2 ha)

theorem nodup_foldl_addTag {tags new : List String} (h : tags.Nodup) :
    (new.foldl addTag tags).Nodup :=
  List.foldlRecOn new addTag h fun _ h _ _ => nodup_addTag h

theorem regular_reinforce (h : r.Regular key) :
    (r.reinforce probability tag conflicting).Regular key where
  source := h.source
  onSelf := h.onSelf
  others := h.others
  atMostOne := by
    unfold reinforce Number.smaller
    dsimp only
    generalize Number.larger r.probability _ = raised
    split
    · decide
    · rename_i hbound
      intro hlt
      exact hbound (by simp [hlt])
  provenance := by
    show (if tag.isEmpty then r.provenance else addTag r.provenance tag).Nodup
    split
    · exact h.provenance
    · exact nodup_addTag h.provenance

theorem regular_addTable (h : r.Regular key) : (r.addTable table confirmed).Regular key := by
  unfold addTable
  cases hkind : r.kind with
  | simple | onSelf => exact h
  | shared tables was =>
    have hothers := h.others (isMutual_iff.2 ⟨tables, was, hkind⟩)
    exact ⟨h.source, onSelf_iff_of_isMutual rfl hothers, fun _ => hothers, h.atMostOne,
      h.provenance⟩

theorem mem_members {t : String} : t ∈ r.members ↔ t = r.source ∨ t ∈ r.targets :=
  SortedSet.mem_insert

/-- A mutual relation that takes in another one stays mutual and never takes in its source. -/
theorem regular_absorb (hmutual : r.isMutual = true) (h : r.Regular key) (h' : other.Regular key) :
    (r.absorb other).Regular key := by
  have hothers : key ∉ (r.absorb other).targets := by
    intro hmem
    rcases mem_targets_absorb.1 hmem with hmem | ⟨-, hne⟩
    · exact h.others hmutual hmem
    · exact hne h.source.symm
  refine ⟨h.source, onSelf_iff_of_isMutual (isMutual_absorb hmutual) hothers, fun _ => hothers, ?_,
    nodup_foldl_addTag h.provenance⟩
  unfold absorb Number.larger
  dsimp only
  split
  · exact h'.atMostOne
  · exact h.atMostOne

theorem mem_targets_foldl_absorb {others : List Relation} {t : String} (h : t ∈ r.targets) :
    t ∈ (others.foldl absorb r).targets :=
  List.foldlRecOn (motive := fun merged : Relation => t ∈ merged.targets) others _ h
    fun _ h _ _ => mem_targets_absorb.2 (.inl h)

end Relation

namespace Knowledge

open RestScenario.Relation

variable {key table tag : String} {targets members : SortedSet String} {probability : Float}
  {confirmed conflicting : Bool} {base : Relation} {rs others : List Relation}

/-! ## Lists of relations -/

/-- Regular relations of one source, no two of them with the same targets. -/
structure RegularList (key : String) (rs : List Relation) : Prop where
  regular : ∀ r ∈ rs, r.Regular key
  distinct : (rs.map (·.targets)).Nodup

theorem RegularList.of_middle {front back : List Relation} {r : Relation}
    (h : RegularList key (front ++ r :: back)) : RegularList key (front ++ back) := by
  have kept : (front ++ back).Sublist (front ++ r :: back) :=
    (List.sublist_cons_self r back).append_left front
  exact ⟨fun q hq => h.regular q (kept.subset hq), h.distinct.sublist (kept.map _)⟩

theorem targets_reinforceOrAdd :
    (reinforceOrAdd key targets tag probability conflicting rs).map (·.targets) =
      if targets ∈ rs.map (·.targets) then rs.map (·.targets)
      else rs.map (·.targets) ++ [targets] := by
  induction rs with
  | nil => rfl
  | cons r rest ih =>
    unfold reinforceOrAdd
    split
    · rename_i heq
      simp [heq, reinforce]
    · rename_i hne
      rw [List.map_cons, ih]
      by_cases hmem : targets ∈ rest.map (·.targets)
      · have hknown : targets ∈ (r :: rest).map (·.targets) := List.mem_cons_of_mem _ hmem
        rw [if_pos hmem, if_pos hknown, List.map_cons]
      · have hnew : targets ∉ (r :: rest).map (·.targets) := by
          intro h
          rcases List.mem_cons.1 h with heq | h
          · exact hne heq.symm
          · exact hmem h
        rw [if_neg hmem, if_neg hnew, List.map_cons, List.cons_append]

theorem regularList_reinforceOrAdd (h : RegularList key rs) :
    RegularList key (reinforceOrAdd key targets tag probability conflicting rs) := by
  refine ⟨?_, ?_⟩
  · have hregular := h.regular
    clear h
    induction rs with
    | nil => exact List.forall_mem_singleton.2 regular_simple
    | cons r rest ih =>
      obtain ⟨hr, hrest⟩ := List.forall_mem_cons.1 hregular
      unfold reinforceOrAdd
      split
      · exact List.forall_mem_cons.2 ⟨regular_reinforce hr, hrest⟩
      · exact List.forall_mem_cons.2 ⟨hr, ih hrest⟩
  · rw [targets_reinforceOrAdd]
    split
    · exact h.distinct
    · rename_i hnew
      refine List.nodup_append.2 ⟨h.distinct, List.nodup_singleton _, ?_⟩
      rintro a ha b hb rfl
      exact hnew (List.mem_singleton.1 hb ▸ ha)

theorem isNarrower_iff {scope : SortedSet String} {r : Relation} :
    isNarrower scope r = true ↔ r.kind ≠ .onSelf ∧ ∀ t ∈ r.members, t ∈ scope := by
  unfold isNarrower isOnSelf
  rw [Bool.and_eq_true_iff, SortedSet.isSubset_iff]
  simp

/-- A mutual relation that takes in what lies inside given members gains no other targets. -/
theorem regular_foldl_absorb {scope : SortedSet String} (hmutual : base.isMutual = true)
    (hbase : base.Regular key) (hscope : ∀ t ∈ base.targets, t ∈ scope)
    (h : ∀ r ∈ others, r.Regular key) (hinside : ∀ r ∈ others, ∀ t ∈ r.members, t ∈ scope) :
    (others.foldl absorb base).isMutual = true ∧ (others.foldl absorb base).Regular key ∧
      ∀ t ∈ (others.foldl absorb base).targets, t ∈ scope := by
  induction others generalizing base with
  | nil => exact ⟨hmutual, hbase, hscope⟩
  | cons r rest ih =>
    obtain ⟨hr, hrest⟩ := List.forall_mem_cons.1 h
    obtain ⟨hinr, hinrest⟩ := List.forall_mem_cons.1 hinside
    refine ih (isMutual_absorb hmutual) (regular_absorb hmutual hbase hr) ?_ hrest hinrest
    intro t ht
    rcases mem_targets_absorb.1 ht with ht | ⟨ht, -⟩
    · exact hscope t ht
    · exact hinr t (mem_members.2 ht)

/-- **What a mutual relation takes in brings no further targets**, since it lies inside it. -/
theorem regular_absorb_narrower (hmutual : base.isMutual = true) (hbase : base.Regular key)
    (h : RegularList key others) :
    let merged := (others.filter (isNarrower base.members)).foldl absorb base
    merged.isMutual = true ∧ merged.Regular key ∧ ∀ t, t ∈ merged.targets ↔ t ∈ base.targets := by
  intro merged
  have hinside : ∀ r ∈ others.filter (isNarrower base.members),
      r.Regular key ∧ ∀ t ∈ r.members, t ∈ base.members := by
    intro r hr
    obtain ⟨hmem, hnarrower⟩ := List.mem_filter.1 hr
    exact ⟨h.regular r hmem, (isNarrower_iff.1 hnarrower).2⟩
  obtain ⟨hstays, hmerged, hscope⟩ := regular_foldl_absorb hmutual hbase
    (fun t ht => mem_members.2 (.inr ht)) (fun r hr => (hinside r hr).1)
    (fun r hr => (hinside r hr).2)
  refine ⟨hstays, hmerged, fun t => ⟨fun ht => ?_, mem_targets_foldl_absorb⟩⟩
  rcases mem_members.1 (hscope t ht) with rfl | hbefore
  · rw [hbase.source] at ht
    exact absurd ht (hmerged.others hstays)
  · exact hbefore

/-- **A mutual relation that takes in what lies inside it has targets of its own.** -/
theorem regularList_takeIn (hmutual : base.isMutual = true) (hbase : base.Regular key)
    (h : RegularList key others) : RegularList key (takeIn base others) := by
  obtain ⟨hstays, hmerged, htargets⟩ := regular_absorb_narrower hmutual hbase h
  unfold takeIn
  generalize (others.filter (isNarrower base.members)).foldl absorb base = merged at *
  refine ⟨?_, ?_⟩
  · intro r hr
    rcases List.mem_append.1 hr with hr | hr
    · exact h.regular r (List.mem_filter.1 hr).1
    · rw [List.mem_singleton.1 hr]
      exact hmerged
  · rw [List.map_append, List.nodup_append]
    refine ⟨h.distinct.sublist (List.filter_sublist.map _), List.nodup_singleton _, ?_⟩
    intro targets hin targets' hin' heq
    obtain ⟨r, hr, rfl⟩ := List.mem_map.1 hin
    obtain rfl : targets' = merged.targets := by simpa using hin'
    obtain ⟨hmem, houtside⟩ := List.mem_filter.1 hr
    have hr := h.regular r hmem
    have inside : isNarrower base.members r = true := by
      refine isNarrower_iff.2 ⟨fun hself => ?_, fun t ht => ?_⟩
      · refine hmerged.others hstays ?_
        rw [← heq, hr.onSelf.1 hself]
        exact SortedSet.mem_singleton.2 rfl
      · rcases mem_members.1 ht with rfl | ht
        · exact mem_members.2 (.inl (hr.source.trans hbase.source.symm))
        · exact mem_members.2 (.inr ((htargets t).1 (heq ▸ ht)))
    rw [inside] at houtside
    exact absurd houtside Bool.false_ne_true

/-- A covering relation that takes evidence stays mutual and regular, with the same targets. -/
theorem regular_covering {r : Relation} (h : r.Regular key) (hcovers : isCovering members r = true) :
    let base := (r.reinforce probability tag conflicting).addTable table confirmed
    base.isMutual = true ∧ base.Regular key ∧ base.targets = r.targets := by
  have hmutual : (r.reinforce probability tag conflicting).isMutual = true :=
    (Bool.and_eq_true_iff.1 hcovers).1
  refine ⟨isMutual_addTable hmutual, regular_addTable (regular_reinforce h), ?_⟩
  unfold addTable
  split <;> rfl

theorem regularList_mergeShared (h : RegularList key rs) :
    RegularList key (mergeShared key members table probability confirmed tag rs) := by
  obtain hmerged | ⟨front, r, back, rfl, hcovers, hmerged⟩ :=
    mergeShared_cases key members table probability confirmed tag rs
  · rw [hmerged]
    exact regularList_takeIn rfl regular_shared h
  · rw [hmerged]
    obtain ⟨hmutual, hbase, -⟩ := regular_covering (h.regular r (by simp)) hcovers
    exact regularList_takeIn hmutual hbase h.of_middle

/-! ## The store -/

/-- Every list of the store is regular. -/
def RegularStore (k : Knowledge) : Prop := ∀ key, RegularList key (k.relationsOf key)

theorem regularStore_upsert {k : Knowledge} {f : Option (List Relation) → List Relation}
    (hk : k.RegularStore) (h : RegularList key (f (k.dependencies.get? key))) :
    RegularStore { k with dependencies := k.dependencies.upsert key f } := by
  intro key'
  by_cases hne : key' = key
  · rw [hne, relationsOf_upsert_self]
    exact h
  · rw [relationsOf_upsert_of_ne hne]
    exact hk key'

/-- Regularity outlasts all evidence, of undefined probability too. -/
theorem outlasts_regularStore : Outlasts (fun _ => True) RegularStore where
  defined := fun _ => trivial
  threshold := fun _ => trivial
  frame := by
    intro k k' hk _ hdependencies key
    unfold relationsOf
    rw [hdependencies]
    exact hk key
  dependency := by
    intro k source targets tag p _ hk
    unfold updateDependency
    split
    · exact hk
    · exact regularStore_upsert hk (regularList_reinforceOrAdd (hk source))
  shared := fun _ _ hk => regularStore_upsert hk (regularList_mergeShared (hk _))

theorem regularStore_empty (threshold : Float) (tokenParser : Bool) :
    (empty threshold tokenParser).RegularStore :=
  fun _ => ⟨fun _ hr => absurd hr List.not_mem_nil, List.nodup_nil⟩

end Knowledge

/-- **The store of relations is regular after any lessons.** Everything stored under a key has that
source and lists no tag twice; a relation is one of the source to itself exactly when that is its
only target, and a mutual relation does not have the source as target. No two relations stored under
a key have the same targets. -/
theorem store_is_regular (threshold : Float) (tokenParser : Bool) (lessons : List Lesson)
    (key : String) :
    let relations := ((Knowledge.empty threshold tokenParser).learnAll lessons).relationsOf key
    (∀ r ∈ relations, r.source = key ∧ (r.kind = .onSelf ↔ r.targets = .singleton key) ∧
      (r.isMutual = true → key ∉ r.targets) ∧ r.provenance.Nodup) ∧
    (relations.map (·.targets)).Nodup := by
  intro relations
  have hadmitted : ∀ lesson ∈ lessons, lesson.Admitted fun _ => True := by
    intro lesson _
    cases lesson <;> trivial
  obtain ⟨regular, distinct⟩ := Knowledge.outlasts_regularStore.learnAll hadmitted
    (Knowledge.regularStore_empty threshold tokenParser) key
  refine ⟨fun r hr => ?_, distinct⟩
  have h := regular r hr
  exact ⟨h.source, h.onSelf, h.others, h.provenance⟩

end RestScenario
