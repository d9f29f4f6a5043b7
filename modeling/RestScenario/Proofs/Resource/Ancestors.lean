import RestScenario.Proofs.Resource.Permuted

/-!
# Ancestors

The ancestors of a site are the sites on strict prefixes of its path (`Sites.mem_ancestors_iff`). A
resource lists them by their keys, each once, longest paths first
(`ResourceModel.InUse.exists_above`).
-/

namespace RestScenario

/-! ## Longest paths first -/

namespace Sites

variable {a b : String × PathTemplate}

theorem longerFirst_iff : longerFirst a b = true ↔
    b.2.levels < a.2.levels ∨ a.2.levels = b.2.levels ∧ a.1 ≤ b.1 := by
  unfold longerFirst
  simp only [Bool.or_eq_true, Bool.and_eq_true, decide_eq_true_eq]

theorem longerFirst_trans (a b d : String × PathTemplate) (hab : longerFirst a b = true)
    (hbd : longerFirst b d = true) : longerFirst a d = true := by
  rw [longerFirst_iff] at hab hbd ⊢
  rcases hab with hab | ⟨hab, hkey⟩
  · exact .inl (by omega)
  · rcases hbd with hbd | ⟨hbd, hkey'⟩
    · exact .inl (by omega)
    · exact .inr ⟨hab.trans hbd, String.le_trans hkey hkey'⟩

theorem longerFirst_total (a b : String × PathTemplate) :
    (longerFirst a b || longerFirst b a) = true := by
  rw [Bool.or_eq_true, longerFirst_iff, longerFirst_iff]
  rcases Nat.lt_trichotomy a.2.levels b.2.levels with hlt | heq | hgt
  · exact .inr (.inl hlt)
  · exact (String.le_total a.1 b.1).imp (fun h => .inr ⟨heq, h⟩) fun h => .inr ⟨heq.symm, h⟩
  · exact .inl (.inl hgt)

/-- What is sorted has longer paths in front, and of equally long ones those of smaller keys. -/
theorem pairwise_mergeSort {paths : List (String × PathTemplate)} :
    (paths.mergeSort longerFirst).Pairwise fun a b =>
      b.2.levels < a.2.levels ∨ a.2.levels = b.2.levels ∧ a.1 ≤ b.1 := by
  have sorted : (paths.mergeSort longerFirst).Pairwise fun a b => longerFirst a b = true :=
    List.pairwise_mergeSort longerFirst_trans longerFirst_total paths
  exact sorted.imp longerFirst_iff.1

end Sites

/-! ## Ancestors of a site -/

namespace Sites

variable {c : Catalogue} {s : Site} {key ancestor : String}

theorem get?_pathsOf : (pathsOf c).get? key = ((ofCatalogue c).get? key).map Site.path := by
  unfold pathsOf
  rw [get?_ofCatalogue, SortedMap.get?_map, Option.map_map]
  rfl

/-- The keys of the ancestors with their paths. -/
def pathsAbove (c : Catalogue) (path : PathTemplate) : List (String × PathTemplate) :=
  ((pathsOf c).entries.filter fun q => q.2.isAncestorOf path).mergeSort longerFirst

theorem ancestors_eq (hs : (ofCatalogue c).get? key = some s) :
    s.ancestors = (pathsAbove c s.path).map (·.1) := by
  rw [get?_ofCatalogue, Option.map_eq_some_iff] at hs
  obtain ⟨actions, -, rfl⟩ := hs
  rfl

theorem mem_pathsAbove_iff {path above : PathTemplate} :
    (key, above) ∈ pathsAbove c path ↔
      (∃ s, (ofCatalogue c).get? key = some s ∧ s.path = above) ∧ above.IsStrictPrefix path := by
  unfold pathsAbove
  rw [List.mem_mergeSort, List.mem_filter, SortedMap.mem_entries_iff, get?_pathsOf,
    Option.map_eq_some_iff, PathTemplate.isAncestorOf_iff]

theorem pairwise_pathsAbove (c : Catalogue) (path : PathTemplate) :
    (pathsAbove c path).Pairwise fun a b =>
      b.2.levels < a.2.levels ∨ a.2.levels = b.2.levels ∧ a.1 ≤ b.1 := pairwise_mergeSort

/-- **The ancestors of a site are the sites on strict prefixes of its path.** -/
theorem mem_ancestors_iff (hs : (ofCatalogue c).get? key = some s) :
    ancestor ∈ s.ancestors ↔
      ∃ s', (ofCatalogue c).get? ancestor = some s' ∧ s'.path.IsStrictPrefix s.path := by
  rw [ancestors_eq hs, List.mem_map]
  constructor
  · rintro ⟨⟨key, above⟩, hmem, rfl⟩
    obtain ⟨⟨s', hs', rfl⟩, hprefix⟩ := mem_pathsAbove_iff.1 hmem
    exact ⟨s', hs', hprefix⟩
  · rintro ⟨s', hs', hprefix⟩
    exact ⟨(ancestor, s'.path), mem_pathsAbove_iff.2 ⟨⟨s', hs', rfl⟩, hprefix⟩, rfl⟩

theorem nodup_ancestors (hs : (ofCatalogue c).get? key = some s) : s.ancestors.Nodup := by
  have hfiltered : (((pathsOf c).entries.filter fun q => q.2.isAncestorOf s.path).map (·.1)).Nodup :=
    (SortedMap.nodup_keys (m := pathsOf c)).sublist (List.filter_sublist.map _)
  rw [ancestors_eq hs]
  exact ((List.mergeSort_perm _ _).map _).nodup_iff.2 hfiltered

end Sites

/-! ## Ancestors of a resource -/

namespace ResourceModel

variable {c : Catalogue} {m : ResourceModel} {r : Resource} {key : String}

/-- The resources of the model on strict prefixes of the path of one of them, each once, longest
paths first. -/
structure IsAbove (m : ResourceModel) (r : Resource) (above : List Resource) : Prop where
  mem_iff : ∀ r', r' ∈ above ↔ (∃ key, m.get? key = some r') ∧ r'.path.IsStrictPrefix r.path
  nodup : (above.map Resource.key).Nodup
  longestFirst : above.Pairwise fun a b =>
    b.path.levels < a.path.levels ∨ a.path.levels = b.path.levels ∧ a.key ≤ b.key

/-- Keys with their paths lead back to the resources. -/
theorem map_filterMap_get? {paths : List (String × PathTemplate)}
    (h : ∀ p ∈ paths, ∃ r, m.get? p.1 = some r ∧ (r.key, r.path) = p) :
    ((paths.map (·.1)).filterMap m.get?).map (fun r => (r.key, r.path)) = paths := by
  induction paths with
  | nil => rfl
  | cons p rest ih =>
    obtain ⟨hp, hrest⟩ := List.forall_mem_cons.1 h
    obtain ⟨r, hr, heq⟩ := hp
    rw [List.map_cons, List.filterMap_cons_some hr, List.map_cons, heq, ih hrest]

/-- **A resource lists the keys of all its ancestors**, longest paths first. -/
theorem InUse.exists_above (hm : m.InUse c) (hr : m.get? key = some r) :
    ∃ above, r.ancestors = above.map Resource.key ∧ m.IsAbove r above := by
  have hs := hm.site_ofCatalogue hr
  have hpaths : r.ancestors = (Sites.pathsAbove c r.path).map (·.1) := Sites.ancestors_eq hs
  have hback : (r.ancestors.filterMap m.get?).map (fun r => (r.key, r.path)) =
      Sites.pathsAbove c r.path := by
    rw [hpaths]
    refine map_filterMap_get? fun ⟨key, path⟩ hp => ?_
    obtain ⟨⟨s, hs, rfl⟩, -⟩ := Sites.mem_pathsAbove_iff.1 hp
    obtain ⟨r', hr'⟩ := hm.exists_resource ⟨s, hs⟩
    obtain rfl : r'.toSite = s := Option.some.inj ((hm.site_ofCatalogue hr').symm.trans hs)
    exact ⟨r', hr', by rw [hm.key_eq hr']⟩
  have hkeys : r.ancestors = (r.ancestors.filterMap m.get?).map Resource.key := by
    conv_lhs => rw [hpaths, ← hback, List.map_map]
    rfl
  refine ⟨r.ancestors.filterMap m.get?, hkeys, fun r' => ?_, ?_, ?_⟩
  · rw [List.mem_filterMap]
    constructor
    · rintro ⟨key', hmem, hr'⟩
      obtain ⟨s, hs', hprefix⟩ := (Sites.mem_ancestors_iff hs).1 hmem
      obtain rfl : r'.toSite = s := Option.some.inj ((hm.site_ofCatalogue hr').symm.trans hs')
      exact ⟨⟨key', hr'⟩, hprefix⟩
    · rintro ⟨⟨key', hr'⟩, hprefix⟩
      exact ⟨key', (Sites.mem_ancestors_iff hs).2 ⟨_, hm.site_ofCatalogue hr', hprefix⟩, hr'⟩
  · rw [← hkeys]
    exact Sites.nodup_ancestors hs
  · have hsorted := Sites.pairwise_pathsAbove c r.path
    rw [← hback] at hsorted
    exact List.pairwise_map.1 hsorted

end ResourceModel

end RestScenario
