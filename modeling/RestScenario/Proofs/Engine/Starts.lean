import RestScenario.Engine.Composition
import RestScenario.Proofs.Resource.Ancestors

/-!
# Ways to start

An engine lists the ways to start on its resources: on each one its verbs, its creation chain and
its templates of several verbs (`Composing.mem_allStarts`). No way is listed twice
(`Composing.nodup_allStarts`), and those on a longer path come first
(`Composing.pairwise_levels_allStarts`).
-/

namespace RestScenario

namespace Composing

variable {c : Catalogue} {m : ResourceModel} {r : Resource} {key name : String} {v : Verb}
  {start : Start}

/-! ## On one resource -/

theorem action_mem_startsOn : Start.action v ∈ startsOn r ↔ v ∈ r.ownVerbs := by
  unfold startsOn
  constructor
  · intro h
    simp only [List.mem_append, List.mem_map, List.mem_filter, List.mem_singleton, reduceCtorEq,
      or_false, and_false, exists_false, Start.action.injEq] at h
    rcases h with (⟨_, ⟨hv, -⟩, rfl⟩ | ⟨_, ⟨hv, -⟩, rfl⟩) | ⟨_, ⟨hv, -⟩, rfl⟩ <;> exact hv
  · intro hv
    cases v <;> simp [hv]

theorem creation_mem_startsOn : Start.creation ∈ startsOn r := by
  unfold startsOn
  simp

theorem template_mem_startsOn : Start.template name ∈ startsOn r ↔
    ∃ t ∈ r.templates.values, t.isMultiVerb = true ∧ t.name = name := by
  unfold startsOn
  simp [and_assoc]

/-- No way to start on a resource is listed twice. -/
theorem nodup_startsOn (hm : m.InUse c) (hr : m.get? key = some r) : (startsOn r).Nodup := by
  have actions : ∀ test : Verb → Bool, ((r.ownVerbs.filter test).map Start.action).Nodup :=
    fun test => ((hm.nodup_ownVerbs hr).filter _).map fun _ _ => Start.action.inj
  have templates : (((r.templates.values.filter (·.isMultiVerb)).map (·.name)).map
      Start.template).Nodup :=
    ((hm.nodup_templateNames hr).sublist (List.filter_sublist.map _)).map
      fun _ _ => Start.template.inj
  unfold startsOn
  simp only [List.nodup_append, actions, templates, List.nodup_singleton, true_and]
  -- the parts are told apart by their constructors and their verbs
  simp only [List.mem_append, List.mem_map, List.mem_filter, List.mem_singleton]
  refine ⟨⟨⟨?_, ?_⟩, ?_⟩, ?_⟩ <;> aesop

/-! ## On all resources -/

/-- The resources on which an engine starts are all of them, each once, longest paths first. -/
theorem exists_order (hm : m.InUse c) : ∃ rs : List Resource,
    allStarts m = rs.flatMap (fun r => (startsOn r).map (r.key, ·)) ∧
      (rs.map (·.key)).Nodup ∧ (rs.Pairwise fun r r' => r'.path.levels ≤ r.path.levels) ∧
      ∀ r, r ∈ rs ↔ ∃ key, m.get? key = some r := by
  have hready : m.resources.values.filter (·.isSampleable) = m.resources.values := by
    refine List.filter_eq_self.2 fun r hr => ?_
    obtain ⟨key, hr⟩ := SortedMap.mem_values_iff.1 hr
    exact hm.isSampleable hr
  have hkeys : m.resources.values.map (·.key) = m.resources.keys := by
    unfold SortedMap.values SortedMap.keys
    rw [List.map_map]
    exact List.map_congr_left fun e he => hm.key_eq (SortedMap.mem_entries_iff.1 he)
  refine ⟨_, rfl, ?_⟩
  rw [hready]
  generalize hpaths : (m.resources.values.map fun r => (r.key, r.path)).mergeSort Sites.longerFirst =
    paths
  have hperm : List.Perm paths (m.resources.values.map fun r => (r.key, r.path)) :=
    hpaths ▸ List.mergeSort_perm _ _
  have hback : ((paths.map (·.1)).filterMap m.get?).map (fun r => (r.key, r.path)) = paths := by
    refine ResourceModel.map_filterMap_get? fun p hp => ?_
    obtain ⟨r, hr, rfl⟩ := List.mem_map.1 (hperm.mem_iff.1 hp)
    obtain ⟨key, hr⟩ := SortedMap.mem_values_iff.1 hr
    exact ⟨r, hm.key_eq hr ▸ hr, rfl⟩
  have hnames : List.Perm (paths.map (·.1)) m.resources.keys := by
    have hfirst := hperm.map (·.1)
    rw [List.map_map] at hfirst
    exact hkeys ▸ hfirst
  have hlevels : paths.Pairwise fun a b => b.2.levels ≤ a.2.levels := by
    rw [← hpaths]
    exact Sites.pairwise_mergeSort.imp fun h =>
      h.elim Nat.le_of_lt fun h => Nat.le_of_eq h.1.symm
  refine ⟨?_, ?_, fun r => ⟨fun hr => ?_, fun ⟨key, hr⟩ => ?_⟩⟩
  · have hself : ((paths.map (·.1)).filterMap m.get?).map (·.key) = paths.map (·.1) := by
      conv_rhs => rw [← hback]
      rw [List.map_map]
      rfl
    rw [hself]
    exact hnames.nodup_iff.2 SortedMap.nodup_keys
  · rw [← hback] at hlevels
    exact List.pairwise_map.1 hlevels
  · obtain ⟨key, -, hr⟩ := List.mem_filterMap.1 hr
    exact ⟨key, hr⟩
  · have hkey : key ∈ paths.map (·.1) :=
      hnames.mem_iff.2 (List.mem_map_of_mem (SortedMap.mem_entries_iff.2 hr))
    exact List.mem_filterMap.2 ⟨key, hkey, hr⟩

/-- The ways to start are those on the resources of the model. -/
theorem mem_allStarts (hm : m.InUse c) :
    (key, start) ∈ allStarts m ↔ ∃ r, m.get? key = some r ∧ start ∈ startsOn r := by
  obtain ⟨rs, hstarts, -, -, hmem⟩ := exists_order hm
  rw [hstarts, List.mem_flatMap]
  constructor
  · rintro ⟨r, hr, hmap⟩
    obtain ⟨_, hstart, heq⟩ := List.mem_map.1 hmap
    obtain ⟨rfl, rfl⟩ := Prod.mk.inj heq
    obtain ⟨key, hr⟩ := (hmem r).1 hr
    exact ⟨r, hm.key_eq hr ▸ hr, hstart⟩
  · rintro ⟨r, hr, hstart⟩
    obtain rfl := hm.key_eq hr
    exact ⟨r, (hmem r).2 ⟨_, hr⟩, List.mem_map_of_mem hstart⟩

/-- No way to start is listed twice. -/
theorem nodup_allStarts (hm : m.InUse c) : (allStarts m).Nodup := by
  obtain ⟨rs, hstarts, hkeys, -, hmem⟩ := exists_order hm
  rw [hstarts, List.nodup_flatMap]
  refine ⟨fun r hr => ?_, ?_⟩
  · obtain ⟨key, hr⟩ := (hmem r).1 hr
    exact (nodup_startsOn hm hr).map fun _ _ heq => (Prod.mk.inj heq).2
  · refine (List.pairwise_map.1 hkeys).imp fun {r r'} hne start hr hr' => ?_
    obtain ⟨_, -, rfl⟩ := List.mem_map.1 hr
    obtain ⟨_, -, heq⟩ := List.mem_map.1 hr'
    exact hne (Prod.mk.inj heq).1.symm

/-- **Resources on longer paths come first.** -/
theorem pairwise_levels_allStarts (hm : m.InUse c) :
    (allStarts m).Pairwise fun a b => ∀ r r', m.get? a.1 = some r → m.get? b.1 = some r' →
      r'.path.levels ≤ r.path.levels := by
  obtain ⟨rs, hstarts, -, hlevels, hmem⟩ := exists_order hm
  have found : ∀ r ∈ rs, ∀ r', m.get? r.key = some r' → r' = r := by
    intro r hr r' hr'
    obtain ⟨key, hr⟩ := (hmem r).1 hr
    rw [hm.key_eq hr, hr] at hr'
    exact (Option.some.inj hr').symm
  rw [hstarts, List.pairwise_flatMap]
  refine ⟨fun r hr => ?_, ?_⟩
  · rw [List.pairwise_map]
    refine List.pairwise_of_forall fun _ _ r₁ r₂ h₁ h₂ => ?_
    exact Nat.le_of_eq (by rw [found r hr r₁ h₁, found r hr r₂ h₂])
  · refine hlevels.imp_of_mem fun {r r'} hr hr' hle a ha b hb r₁ r₂ h₁ h₂ => ?_
    obtain ⟨_, -, rfl⟩ := List.mem_map.1 ha
    obtain ⟨_, -, rfl⟩ := List.mem_map.1 hb
    rw [found r hr r₁ h₁, found r' hr' r₂ h₂]
    exact hle

end Composing

end RestScenario
