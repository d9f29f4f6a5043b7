import RestScenario.Proofs.Learning.Regular
import RestScenario.Proofs.Ordered.Set

/-!
# Dependencies of a resource on itself

A resource depends on itself when some relation of it has it among the targets. Where it is the only
target, the relation is one of the resource to itself, and no mutual relation takes that in. Where there
are other targets, the relation is an ordinary one. A mutual relation among the resource and all these
targets takes it in, and targets of a mutual relation are the other members: the resource is no target
any more.

**What a run keeps.** The targets of a relation stay the targets of a relation, or, unless they are the
source alone, they are all members of a mutual relation of the source (`KeptOrTakenIn`). Evidence for a
dependency adds targets and takes none away, and a mutual relation that is itself taken in hands its
members on, so this outlasts all evidence (`outlasts_keptOrTakenIn`).

**What a step loses.** Evidence for a shared table takes a dependency of a member on itself away exactly
when every relation that holds it lies inside the members of the mutual relation and has another target
(`isDependent_self_updateShared_iff`).
-/

namespace RestScenario

namespace Knowledge

open RestScenario.Relation

variable {key source table tag : String} {targets members : SortedSet String} {probability : Float}
  {confirmed conflicting : Bool} {r base : Relation} {rs rs' others : List Relation} {k : Knowledge}

/-! ## Targets that are kept or taken in -/

/-- Some relation has the targets, or they are not the source alone and a mutual relation has them all,
the source apart. -/
def KeptOrTakenIn (key : String) (targets : SortedSet String) (rs : List Relation) : Prop :=
  (∃ r ∈ rs, r.targets = targets) ∨
    targets ≠ .singleton key ∧
      ∃ r ∈ rs, r.isMutual = true ∧ ∀ t ∈ targets, t ≠ key → t ∈ r.targets

/-- Targets are kept where every relation has a counterpart with the same targets. -/
theorem KeptOrTakenIn.of_counterparts (h : KeptOrTakenIn key targets rs)
    (hrs : ∀ r ∈ rs, ∃ r' ∈ rs', r'.targets = r.targets ∧
      (r.isMutual = true → r'.isMutual = true)) : KeptOrTakenIn key targets rs' := by
  rcases h with ⟨r, hr, rfl⟩ | ⟨hne, r, hr, hmutual, hall⟩
  · obtain ⟨r', hr', htargets, -⟩ := hrs r hr
    exact .inl ⟨r', hr', htargets⟩
  · obtain ⟨r', hr', htargets, hstays⟩ := hrs r hr
    exact .inr ⟨hne, r', hr', hstays hmutual, htargets ▸ hall⟩

theorem keptOrTakenIn_reinforceOrAdd {targets' : SortedSet String}
    (h : KeptOrTakenIn key targets rs) :
    KeptOrTakenIn key targets (reinforceOrAdd key targets' tag probability conflicting rs) := by
  refine h.of_counterparts fun r hr => ?_
  clear h
  induction rs with
  | nil => exact absurd hr List.not_mem_nil
  | cons first rest ih =>
    unfold reinforceOrAdd
    split
    · rcases List.mem_cons.1 hr with rfl | hr
      · exact ⟨_, List.mem_cons_self, rfl, id⟩
      · exact ⟨r, List.mem_cons_of_mem _ hr, rfl, id⟩
    · rcases List.mem_cons.1 hr with rfl | hr
      · exact ⟨r, List.mem_cons_self, rfl, id⟩
      · obtain ⟨r', hr', hsame⟩ := ih hr
        exact ⟨r', List.mem_cons_of_mem _ hr', hsame⟩

/-- What lies inside a relation of the source has further targets than the source, and none that the
relation does not have. -/
theorem isNarrower_members_iff (hbase : base.Regular key) (hr : r.Regular key) :
    isNarrower base.members r = true ↔
      r.targets ≠ .singleton key ∧ ∀ t ∈ r.targets, t ∈ base.members := by
  rw [isNarrower_iff, ne_eq, ne_eq, hr.onSelf]
  refine and_congr_right fun _ => ⟨fun h t ht => h t (mem_members.2 (.inr ht)), fun h t ht => ?_⟩
  rcases mem_members.1 ht with rfl | ht
  · exact mem_members.2 (.inl (hr.source.trans hbase.source.symm))
  · exact h t ht

/-- **A mutual relation takes in the targets of what lies inside it.** -/
theorem keptOrTakenIn_takeIn (hmutual : base.isMutual = true) (hbase : base.Regular key)
    (hothers : RegularList key others) (h : KeptOrTakenIn key targets (base :: others)) :
    KeptOrTakenIn key targets (takeIn base others) := by
  obtain ⟨hstays, -, htargets⟩ := regular_absorb_narrower hmutual hbase hothers
  have hmerged : (others.filter (isNarrower base.members)).foldl absorb base ∈ takeIn base others :=
    List.mem_append_right _ (List.mem_singleton_self _)
  generalize (others.filter (isNarrower base.members)).foldl absorb base = merged at *
  have hsame : merged.targets = base.targets := SortedSet.ext_mem htargets
  -- a relation stays, or lies inside and hands its targets on
  have stays : ∀ r ∈ others, r ∈ takeIn base others ∨
      r.targets ≠ .singleton key ∧ ∀ t ∈ r.targets, t ≠ key → t ∈ merged.targets := by
    intro r hr
    by_cases hnarrower : isNarrower base.members r = true
    · obtain ⟨hne, hinside⟩ := (isNarrower_members_iff hbase (hothers.regular r hr)).1 hnarrower
      refine .inr ⟨hne, fun t ht hother => ?_⟩
      rw [hsame]
      exact (mem_members.1 (hinside t ht)).resolve_left fun heq =>
        hother (heq.trans hbase.source)
    · exact .inl (List.mem_append_left _ (List.mem_filter.2 ⟨hr, by simpa using hnarrower⟩))
  rcases h with ⟨r, hr, rfl⟩ | ⟨hne, r, hr, hshared, hall⟩
  · rcases List.mem_cons.1 hr with rfl | hr
    · exact .inl ⟨merged, hmerged, hsame⟩
    · rcases stays r hr with hr | ⟨hne, hinside⟩
      · exact .inl ⟨r, hr, rfl⟩
      · exact .inr ⟨hne, merged, hmerged, hstays, hinside⟩
  · rcases List.mem_cons.1 hr with rfl | hr
    · exact .inr ⟨hne, merged, hmerged, hstays, hsame ▸ hall⟩
    · rcases stays r hr with hr | ⟨-, hinside⟩
      · exact .inr ⟨hne, r, hr, hshared, hall⟩
      · exact .inr ⟨hne, merged, hmerged, hstays, fun t ht hother =>
          hinside t (hall t ht hother) hother⟩

theorem keptOrTakenIn_mergeShared (hrs : RegularList key rs) (h : KeptOrTakenIn key targets rs) :
    KeptOrTakenIn key targets (mergeShared key members table probability confirmed tag rs) := by
  obtain hmerged | ⟨front, r, back, rfl, hcovers, hmerged⟩ :=
    mergeShared_cases key members table probability confirmed tag rs
  · rw [hmerged]
    refine keptOrTakenIn_takeIn rfl regular_shared hrs (h.of_counterparts fun r hr => ?_)
    exact ⟨r, List.mem_cons_of_mem _ hr, rfl, id⟩
  · obtain ⟨hmutual, hbase, hsame⟩ := regular_covering (hrs.regular r (by simp)) hcovers
    rw [hmerged]
    refine keptOrTakenIn_takeIn hmutual hbase hrs.of_middle (h.of_counterparts fun q hq => ?_)
    have hq : q = r ∨ q ∈ front ++ back := by simp at hq ⊢; tauto
    rcases hq with rfl | hq
    · exact ⟨_, List.mem_cons_self, hsame, fun _ => hmutual⟩
    · exact ⟨q, List.mem_cons_of_mem _ hq, rfl, id⟩

/-- Targets are kept or taken in, whatever evidence comes. -/
theorem outlasts_keptOrTakenIn :
    Outlasts (fun _ => True) fun k => k.RegularStore ∧ KeptOrTakenIn key targets (k.relationsOf key)
    where
  defined := fun _ => trivial
  threshold := fun _ => trivial
  frame := by
    rintro k k' ⟨hk, h⟩ hthreshold hdependencies
    refine ⟨outlasts_regularStore.frame hk hthreshold hdependencies, ?_⟩
    unfold relationsOf at h ⊢
    rwa [hdependencies]
  dependency := by
    rintro k source targets' tag p hp ⟨hk, h⟩
    refine ⟨outlasts_regularStore.dependency hp hk, ?_⟩
    by_cases hkey : key = source
    · subst hkey
      unfold updateDependency
      split
      · exact h
      · rw [relationsOf_upsert_self]
        exact keptOrTakenIn_reinforceOrAdd h
    · rwa [relationsOf_updateDependency_of_ne hkey]
  shared := by
    rintro k member members table p confirmed tag hp hmem ⟨hk, h⟩
    refine ⟨outlasts_regularStore.shared hp hmem hk, ?_⟩
    unfold fileShared
    by_cases hkey : key = member
    · subst hkey
      rw [relationsOf_upsert_self]
      exact keptOrTakenIn_mergeShared (hk key) h
    · rwa [relationsOf_upsert_of_ne hkey]

/-! ## What evidence for a shared table takes away -/

/-- The members of the mutual relation that evidence for a shared table goes to: the first that covers
the members, else a new one among them. -/
def sharedScope (rs : List Relation) (members : SortedSet String) : SortedSet String :=
  match rs.find? (isCovering members) with
  | some r => r.members
  | none => members

theorem members_shared (hkey : key ∈ members) :
    (shared key members table probability confirmed tag).members = members := by
  refine SortedSet.ext_mem fun t => ?_
  rw [mem_members]
  show t = key ∨ t ∈ members.filter (· ≠ key) ↔ _
  rw [SortedSet.mem_filter, decide_eq_true_iff]
  by_cases ht : t = key <;> simp [ht, hkey]

/-- Evidence for a table changes the tables of a mutual relation and not its members. -/
theorem members_covering (hr : r.Regular key) (hcovers : isCovering members r = true) :
    ((r.reinforce probability tag conflicting).addTable table confirmed).members = r.members := by
  obtain ⟨-, hbase, hsame⟩ := regular_covering hr hcovers
  refine SortedSet.ext_mem fun t => ?_
  rw [mem_members, mem_members, hsame, hbase.source, hr.source]

theorem self_target_of_takeIn_iff (hmutual : base.isMutual = true) (hbase : base.Regular key)
    (hothers : RegularList key others) : (∃ r ∈ takeIn base others, key ∈ r.targets) ↔
      ∃ r ∈ others, key ∈ r.targets ∧
        (r.targets = .singleton key ∨ ∃ t ∈ r.targets, t ∉ base.members) := by
  obtain ⟨hstays, hmerged, -⟩ := regular_absorb_narrower hmutual hbase hothers
  unfold takeIn
  constructor
  · rintro ⟨r, hr, hself⟩
    rcases List.mem_append.1 hr with hr | hr
    · obtain ⟨hr, houtside⟩ := List.mem_filter.1 hr
      have houtside : ¬ isNarrower base.members r = true := by simpa using houtside
      rw [isNarrower_members_iff hbase (hothers.regular r hr)] at houtside
      exact ⟨r, hr, hself, by by_contra hnone; push Not at hnone; exact houtside hnone⟩
    · obtain rfl := List.mem_singleton.1 hr
      exact absurd hself (hmerged.others hstays)
  · rintro ⟨r, hr, hself, houtside⟩
    refine ⟨r, List.mem_append_left _ (List.mem_filter.2 ⟨hr, ?_⟩), hself⟩
    have hnot : ¬ isNarrower base.members r = true := by
      rw [isNarrower_members_iff hbase (hothers.regular r hr)]
      rintro ⟨hne, hinside⟩
      rcases houtside with heq | ⟨t, ht, hout⟩
      · exact hne heq
      · exact hout (hinside t ht)
    simpa using hnot

/-- **Under a member a dependency on itself stays where it stands alone or reaches outside.** -/
theorem self_target_of_mergeShared_iff (hrs : RegularList key rs) (hkey : key ∈ members) :
    (∃ r ∈ mergeShared key members table probability confirmed tag rs, key ∈ r.targets) ↔
      ∃ r ∈ rs, key ∈ r.targets ∧
        (r.targets = .singleton key ∨ ∃ t ∈ r.targets, t ∉ sharedScope rs members) := by
  unfold mergeShared sharedScope
  cases hfind : rs.find? (isCovering members) with
  | none =>
    have hbase : (shared key members table probability confirmed tag).Regular key := regular_shared
    refine (self_target_of_takeIn_iff rfl hbase hrs).trans ?_
    rw [members_shared hkey]
  | some covering =>
    have hcovers := List.find?_some hfind
    have hcovering := hrs.regular covering (List.mem_of_find?_eq_some hfind)
    have hothers : RegularList key (rs.eraseP (isCovering members)) :=
      ⟨fun q hq => hrs.regular q (List.mem_of_mem_eraseP hq),
        hrs.distinct.sublist (List.eraseP_sublist.map _)⟩
    refine Iff.trans (self_target_of_takeIn_iff (regular_covering hcovering hcovers).1
      (regular_covering hcovering hcovers).2.1 hothers) ?_
    rw [members_covering hcovering hcovers]
    -- a covering relation is mutual, so it does not hold the dependency
    refine exists_congr fun r => ⟨fun ⟨hr, h⟩ => ⟨List.mem_of_mem_eraseP hr, h⟩, fun ⟨hr, h⟩ => ⟨?_, h⟩⟩
    refine (List.mem_eraseP_of_neg fun hr' => ?_).2 hr
    exact (hrs.regular r hr).others (Bool.and_eq_true_iff.1 hr').1 h.1

/-- The relations of a member after evidence for a shared table. -/
theorem relationsOf_updateShared : (k.updateShared members table probability confirmed tag).relationsOf
    key = if key ∈ members then
      mergeShared key members table probability confirmed tag (k.relationsOf key)
    else k.relationsOf key := by
  suffices ∀ filing : List String, filing.Nodup → ∀ k : Knowledge,
      (filing.foldl (fun k member => k.fileShared member members table probability confirmed tag)
        k).relationsOf key = if key ∈ filing then
          mergeShared key members table probability confirmed tag (k.relationsOf key)
        else k.relationsOf key from this members.toList SortedSet.nodup_toList k
  intro filing
  induction filing with
  | nil => simp
  | cons member rest ih =>
    intro hnodup k
    obtain ⟨hfresh, hrest⟩ := List.nodup_cons.1 hnodup
    rw [List.foldl_cons, ih hrest]
    unfold fileShared
    by_cases hkey : key = member
    · subst hkey
      rw [if_neg hfresh, if_pos List.mem_cons_self, relationsOf_upsert_self]
      rfl
    · rw [relationsOf_upsert_of_ne hkey]
      simp only [List.mem_cons, hkey, false_or]

theorem isDependent_self_updateShared_iff (hk : k.RegularStore) :
    (k.updateShared members table probability confirmed tag).isDependent key key = true ↔
      ∃ r ∈ k.relationsOf key, key ∈ r.targets ∧ (key ∈ members →
        r.targets = .singleton key ∨ ∃ t ∈ r.targets, t ∉ sharedScope (k.relationsOf key) members) := by
  rw [isDependent_iff, relationsOf_updateShared]
  by_cases hkey : key ∈ members
  · rw [if_pos hkey]
    simp only [hkey, true_imp_iff]
    exact self_target_of_mergeShared_iff (hk key) hkey
  · rw [if_neg hkey]
    simp [hkey]

end Knowledge

/-- **A dependency of a resource on itself stays, unless a mutual relation takes it in.** Take any run
from nothing learned and any two moments of it. What depends on itself alone in some relation at the
first depends on itself at the second. Any other relation of it with itself as target is there with the
same targets, or its other targets are members of one mutual relation of it. After evidence for a shared
table, a resource depends on itself exactly when it did before in some relation and, if it is a member
itself, this relation has no other target or has one outside the members of the mutual relation that the
evidence goes to. -/
theorem self_dependency_stays_unless_taken_in {threshold : Float} {tokenParser : Bool}
    {first later : List Lesson} {source : String} :
    let k := (Knowledge.empty threshold tokenParser).learnAll first
    let k' := k.learnAll later
    (∀ r ∈ k.relationsOf source, r.targets = .singleton source →
      k'.isDependent source source = true) ∧
    (∀ r ∈ k.relationsOf source, source ∈ r.targets →
      (∃ r' ∈ k'.relationsOf source, r'.targets = r.targets) ∨
      r.targets ≠ .singleton source ∧ ∃ r' ∈ k'.relationsOf source, r'.isMutual = true ∧
        ∀ t ∈ r.targets, t ≠ source → t ∈ r'.targets) ∧
    ∀ members table probability confirmed tag,
      (k.updateShared members table probability confirmed tag).isDependent source source = true ↔
        ∃ r ∈ k.relationsOf source, source ∈ r.targets ∧ (source ∈ members →
          r.targets = .singleton source ∨
            ∃ t ∈ r.targets, t ∉ Knowledge.sharedScope (k.relationsOf source) members) := by
  intro k k'
  have admitted : ∀ lessons : List Lesson, ∀ lesson ∈ lessons, lesson.Admitted fun _ => True := by
    intro lessons lesson _
    cases lesson <;> trivial
  have hk : k.RegularStore := Knowledge.outlasts_regularStore.learnAll (admitted first)
    (Knowledge.regularStore_empty threshold tokenParser)
  have hkept : ∀ r ∈ k.relationsOf source,
      Knowledge.KeptOrTakenIn source r.targets (k'.relationsOf source) := fun r hr =>
    (Knowledge.outlasts_keptOrTakenIn.learnAll (admitted later) ⟨hk, .inl ⟨r, hr, rfl⟩⟩).2
  refine ⟨fun r hr halone => ?_, fun r hr _ => hkept r hr, fun members table probability confirmed tag =>
    Knowledge.isDependent_self_updateShared_iff hk⟩
  rcases hkept r hr with ⟨r', hr', hsame⟩ | ⟨hne, -⟩
  · refine Knowledge.isDependent_iff.2 ⟨r', hr', ?_⟩
    rw [hsame, halone]
    exact SortedSet.mem_singleton.2 rfl
  · exact absurd halone hne

namespace Sample

/-- Folders depend on folders and files. -/
def folders : List Lesson := [.dependency "/folders" (.ofList ["/files", "/folders"]) "ADD" 0.5]

/-- Folders and files share a table. -/
def entriesShared : List Lesson :=
  [.shared (.ofList ["/files", "/folders"]) "entries" 0.5 false "table:entries"]

end Sample

open Sample in
/-- Folders that depend on folders and files do not depend on folders any more once both share a table,
though nothing speaks against it. -/
theorem folders_lose_dependency_on_folders :
    ((Knowledge.empty 0.6 true).learnAll folders).isDependent "/folders" "/folders" = true ∧
      (((Knowledge.empty 0.6 true).learnAll folders).learnAll entriesShared).isDependent
        "/folders" "/folders" = false := by
  decide +kernel

end RestScenario
